import BadgeKeeper.Lib.Delivery
import BadgeKeeper.Conservation

/-!
The client together with the server that its requests arrive at. Data tasks
are independent, so requests arrive in any order, each at most once. The
server applies a batch when it arrives: a post overwrites the stored value of
the user and key of each pair, an increment adds to the total. What arrives
are the pairs of the request's array, which the body was built from and which
no later call of the client changes.
-/

namespace BadgeKeeper

open Delivery

/-- What the server stores of one project, by user and key. -/
structure Server where
  values : NSString × NSString → Option Double
  totals : NSString × NSString → ℚ

def Server.receive (server : Server) : Channel → List BKPair → Server
  | (.post, user), pairs =>
      { server with
        values := overwrite server.values
          (pairs.map fun pair => ((user, pair.key), pair.value)) }
  | (.increment, user), pairs =>
      { server with
        totals := accumulate server.totals
          (pairs.map fun pair => ((user, pair.key), pair.value.toRat)) }

structure System where
  client : World
  /-- The requests that have arrived, in the order of their arrival. -/
  arrived : List DataTask
  server : Server

inductive SystemEvent where
  | client (event : Event)
  | arrive (call : Nat)

/-- The call whose response an event delivers to the client. -/
def Event.responseTo : Event → Option Nat
  | .complete call (.json _) | .complete call (.unparsable _) => some call
  | _ => none

/-- The client's part of a run. -/
def clientEvents (es : List SystemEvent) : List Event :=
  es.filterMap fun
    | .client event => some event
    | .arrive _ => none

def System.start (server : Server) : System := ⟨World.initial, [], server⟩

def System.hasArrived (s : System) (call : Nat) : Bool :=
  s.arrived.any fun task => task.call.id = call

def System.arrive (s : System) (task : DataTask) : System :=
  { s with
    arrived := s.arrived ++ [task]
    server :=
      match task.request.channel? with
      | none => s.server
      | some channel => s.server.receive channel (s.client.contents task) }

/-- The server answers a request only after it has arrived. -/
def System.step [NumberFormat] (s : System) : SystemEvent → Option System
  | .client event =>
      if event.responseTo.all s.hasArrived then
        (s.client.step event).map fun client => { s with client := client }
      else none
  | .arrive call =>
      if s.hasArrived call then none
      else
        (s.client.requests.find? fun task => task.call.id = call).map s.arrive

def System.run [NumberFormat] : System → List SystemEvent → Option System :=
  Machine.run System.step

/-- Nothing of this kind is waiting, and all requests have arrived. -/
def System.Settled (s : System) (kind : Kind) : Prop :=
  (∀ user, s.client.pending kind user = []) ∧
    ∀ task ∈ s.client.requests, task ∈ s.arrived

def World.entries (w : World) (kind : Kind) (task : DataTask) :
    List ((NSString × NSString) × Double) :=
  match task.request.channel? with
  | none => []
  | some channel =>
      if channel.1 = kind then
        (w.contents task).map fun pair => ((channel.2, pair.key), pair.value)
      else []

theorem World.valuesAt_entries (w : World) (kind : Kind) (tasks : List DataTask)
    (user key : NSString) :
    valuesAt (user, key) (tasks.flatMap (w.entries kind)) =
      valuesAt key ((w.carried tasks (kind, user)).map BKPair.entry) := by
  induction tasks with
  | nil => rfl
  | cons task rest ih =>
      have hone : valuesAt (user, key) (w.entries kind task) =
          valuesAt key ((w.carried [task] (kind, user)).map BKPair.entry) := by
        cases hchannel : task.request.channel? with
        | none => simp [World.entries, World.carried, hchannel]
        | some channel =>
            obtain ⟨other, user'⟩ := channel
            by_cases hkind : other = kind
            · by_cases huser : user' = user
              · subst hkind huser
                simp only [World.entries, World.carried, hchannel, if_true,
                  List.filter_cons, decide_true, List.filter_nil, List.flatMap_cons,
                  List.flatMap_nil, List.append_nil]
                have hmap := valuesAt_map (Prod.mk_right_injective user') id key
                  ((w.contents task).map BKPair.entry)
                simpa [BKPair.entry, Function.comp_def] using hmap
              · simp [World.entries, World.carried, hchannel, hkind, huser, valuesAt]
            · simp [World.entries, World.carried, hchannel, hkind]
      have hsplit : w.carried (task :: rest) (kind, user) =
          w.carried [task] (kind, user) ++ w.carried rest (kind, user) :=
        World.carried_append [task] rest (kind, user)
      rw [List.flatMap_cons, valuesAt_append, hone, ih, hsplit, List.map_append,
        valuesAt_append]

/-- The server has applied exactly the batches that arrived. -/
structure System.Sound [NumberFormat] (server : Server) (s : System) : Prop where
  client : s.client.Inv ∧ s.client.Ledger
  sent : ∀ task ∈ s.arrived, task ∈ s.client.requests
  once : (s.arrived.map fun task => task.call.id).Nodup
  values : s.server.values =
    overwrite server.values (s.arrived.flatMap (s.client.entries .post))
  totals : s.server.totals =
    accumulate server.totals ((s.arrived.flatMap (s.client.entries .increment)).map
      fun entry => (entry.1, entry.2.toRat))

section

variable [NumberFormat] {s : System} {server : Server}

theorem System.start_sound : (System.start server).Sound server := by
  refine ⟨⟨World.initial_inv, World.initial_ledger⟩, ?_, ?_, rfl, rfl⟩
  · intro task htask
    simp [System.start] at htask
  · exact List.nodup_nil

/-- A client event leaves the batches that have arrived as they are. -/
theorem System.client_sound {client : World} {event : Event} (hsound : s.Sound server)
    (hstep : s.client.step event = some client) :
    ({ s with client := client } : System).Sound server := by
  have hentries (kind : Kind) :
      s.arrived.flatMap (client.entries kind) =
        s.arrived.flatMap (s.client.entries kind) := by
    apply List.flatMap_congr
    intro task htask
    have hcontents := (World.step_contents hsound.client.1 hstep
      (hsound.sent task htask)).2
    simp only [World.entries, hcontents]
  refine ⟨World.step_sound hsound.client hstep, ?_, hsound.once, ?_, ?_⟩
  · intro task htask
    exact (World.step_contents hsound.client.1 hstep (hsound.sent task htask)).1
  · change s.server.values = _
    rw [hentries, hsound.values]
  · change s.server.totals = _
    rw [hentries, hsound.totals]

theorem System.arrive_sound {task : DataTask} (hsound : s.Sound server)
    (htask : task ∈ s.client.requests) (hnew : s.hasArrived task.call.id = false) :
    (s.arrive task).Sound server := by
  refine ⟨hsound.client, ?_, ?_, ?_, ?_⟩
  · intro other hother
    rcases List.mem_append.mp hother with hold | hlast
    · exact hsound.sent other hold
    · rw [List.mem_singleton.mp hlast]
      exact htask
  · change ((s.arrived ++ [task]).map fun task => task.call.id).Nodup
    rw [List.map_append, List.nodup_append]
    refine ⟨hsound.once, by simp, ?_⟩
    simpa [System.hasArrived] using hnew
  · change (match task.request.channel? with
      | none => s.server
      | some channel => s.server.receive channel (s.client.contents task)).values =
        overwrite server.values ((s.arrived ++ [task]).flatMap (s.client.entries .post))
    rw [List.flatMap_append, overwrite_append, ← hsound.values]
    cases hchannel : task.request.channel? with
    | none => simp [World.entries, hchannel, overwrite]
    | some channel =>
        obtain ⟨kind, user⟩ := channel
        cases kind <;> simp [World.entries, hchannel, Server.receive, overwrite]
  · change (match task.request.channel? with
      | none => s.server
      | some channel => s.server.receive channel (s.client.contents task)).totals =
        accumulate server.totals
          (((s.arrived ++ [task]).flatMap (s.client.entries .increment)).map
            fun entry => (entry.1, entry.2.toRat))
    rw [List.flatMap_append, List.map_append, accumulate_append, ← hsound.totals]
    cases hchannel : task.request.channel? with
    | none => simp [World.entries, hchannel, accumulate]
    | some channel =>
        obtain ⟨kind, user⟩ := channel
        cases kind <;>
          simp [World.entries, hchannel, Server.receive, accumulate, Function.comp_def]

theorem System.step_sound {s' : System} {e : SystemEvent} (hsound : s.Sound server)
    (hstep : s.step e = some s') : s'.Sound server := by
  cases e with
  | client event =>
      simp only [System.step] at hstep
      split_ifs at hstep
      obtain ⟨client, hclient, rfl⟩ := Option.map_eq_some_iff.mp hstep
      exact System.client_sound hsound hclient
  | arrive call =>
      simp only [System.step] at hstep
      split_ifs at hstep with hnew
      obtain ⟨task, htask, rfl⟩ := Option.map_eq_some_iff.mp hstep
      have hcall : task.call.id = call := by
        simpa using List.find?_some htask
      apply System.arrive_sound hsound (List.mem_of_find?_eq_some htask)
      rw [hcall]
      exact eq_false_of_ne_true hnew

theorem System.run_sound {s' : System} {es : List SystemEvent}
    (hrun : (System.start server).run es = some s') : s'.Sound server :=
  Machine.run_invariant (fun _ _ _ => System.step_sound) System.start_sound hrun

/-- Without the arrivals, a run of the system is a run of the client. -/
theorem System.run_client {s' : System} {es : List SystemEvent}
    (hrun : s.run es = some s') : s.client.run (clientEvents es) = some s'.client := by
  induction es generalizing s with
  | nil =>
      cases hrun
      rfl
  | cons e rest ih =>
      obtain ⟨next, hnext, hrest⟩ := Machine.run_cons_eq_some.mp hrun
      have htail := ih hrest
      cases e with
      | client event =>
          simp only [System.step] at hnext
          split_ifs at hnext
          obtain ⟨client, hclient, rfl⟩ := Option.map_eq_some_iff.mp hnext
          exact Machine.run_cons_eq_some.mpr ⟨client, hclient, htail⟩
      | arrive call =>
          simp only [System.step] at hnext
          split_ifs at hnext
          obtain ⟨task, _, rfl⟩ := Option.map_eq_some_iff.mp hnext
          exact htail

/-- Once everything has arrived, it has arrived in some order. -/
theorem System.arrived_perm (hsound : s.Sound server) {kind : Kind}
    (hsettled : s.Settled kind) : s.arrived.Perm s.client.requests := by
  apply (List.perm_ext_iff_of_nodup hsound.once.of_map
    hsound.client.2.distinct.of_map).mpr
  intro task
  exact ⟨hsound.sent task, hsettled.2 task⟩

/-- In a settled system the sent values are the prepared ones. -/
theorem System.carried_eq_prepared {es : List SystemEvent}
    (hrun : (System.start server).run es = some s) {kind : Kind}
    (hsettled : s.Settled kind) (user : NSString) :
    (s.client.carried s.client.requests (kind, user)).map BKPair.entry =
      preparedFor kind user none (clientEvents es) := by
  have hprepared := World.carried_append_pending (System.run_client hrun) kind user
  rwa [hsettled.1 user, List.append_nil] at hprepared

/-- Whether a set request carries a value for the user's key. -/
def World.carriesValue (w : World) (user key : NSString) (task : DataTask) : Bool :=
  decide (valuesAt (user, key) (w.entries .post task) ≠ [])

/-- The last value for the user's key in a set request. -/
def World.lastValue (w : World) (user key : NSString) (task : DataTask) : Option Double :=
  (valuesAt (user, key) (w.entries .post task)).getLast?

theorem System.values_eq (hsound : s.Sound server) (user key : NSString) :
    s.server.values (user, key) =
      ((s.arrived.filter (s.client.carriesValue user key)).getLast?.bind
        (s.client.lastValue user key)).or (server.values (user, key)) := by
  rw [hsound.values, overwrite_apply, getLast?_valuesAt_flatMap]
  rfl

theorem System.last_prepared {es : List SystemEvent}
    (hrun : (System.start server).run es = some s) (hsettled : s.Settled .post)
    (user key : NSString) :
    (valuesAt key (preparedFor .post user none (clientEvents es))).getLast? =
      (s.client.requests.filter (s.client.carriesValue user key)).getLast?.bind
        (s.client.lastValue user key) := by
  rw [← System.carried_eq_prepared hrun hsettled, ← World.valuesAt_entries,
    getLast?_valuesAt_flatMap]
  rfl

/-- In every run the server holds the last value of the set request for the
user's key that arrived last. In a settled system it is the value prepared last
when that request was also the last one to be sent. -/
theorem posted_value_of_last_arrival {es : List SystemEvent}
    (hrun : (System.start server).run es = some s) (user key : NSString) :
    s.server.values (user, key) =
        ((s.arrived.filter (s.client.carriesValue user key)).getLast?.bind
          (s.client.lastValue user key)).or (server.values (user, key)) ∧
      (s.Settled .post →
        (s.arrived.filter (s.client.carriesValue user key)).getLast? =
          (s.client.requests.filter (s.client.carriesValue user key)).getLast? →
        s.server.values (user, key) =
          (valuesAt key (preparedFor .post user none (clientEvents es))).getLast?.or
            (server.values (user, key))) := by
  have hvalues := System.values_eq (System.run_sound hrun) user key
  refine ⟨hvalues, ?_⟩
  intro hsettled horder
  rw [hvalues, horder, System.last_prepared hrun hsettled]

end

/-- Two posts of the same key, which arrive in the given order. -/
def twoPosts (arrivals : List Nat) : List SystemEvent :=
  [.client (.setUserId (some (ns "ann"))),
    .client (.prepare .post Double.zero (ns "gold")),
    .client (.flush .post .active ⟨0, true, true⟩),
    .client (.prepare .post Double.one (ns "gold")),
    .client (.flush .post (.user (some (ns "ann"))) ⟨1, true, true⟩)] ++
    arrivals.map .arrive

def Server.fresh : Server := ⟨fun _ => none, fun _ => 0⟩

theorem posted_value_of_last_arrival_in_order :
    letI := NumberFormat.numerals
    ∃ s, (System.start Server.fresh).run (twoPosts [0, 1]) = some s ∧
      s.server.values (ns "ann", ns "gold") =
        (valuesAt (ns "gold") (preparedFor .post (ns "ann") none
          (clientEvents (twoPosts [0, 1])))).getLast?.or
            (Server.fresh.values (ns "ann", ns "gold")) :=
  letI := NumberFormat.numerals
  ⟨_, rfl, (posted_value_of_last_arrival rfl (ns "ann") (ns "gold")).2
    ⟨fun _ => rfl, fun _ htask => htask⟩ rfl⟩

/-- When the first post arrives last, its older value stays. -/
theorem stale_post_wins :
    letI := NumberFormat.numerals
    ∃ s, (System.start Server.fresh).run (twoPosts [1, 0]) = some s ∧
      s.Settled .post ∧
      s.server.values (ns "ann", ns "gold") = some Double.zero ∧
      (valuesAt (ns "gold") (preparedFor .post (ns "ann") none
        (clientEvents (twoPosts [1, 0])))).getLast? = some Double.one :=
  letI := NumberFormat.numerals
  ⟨_, rfl, ⟨fun _ => rfl, fun _ htask => (List.Perm.swap _ _ _).mem_iff.mp htask⟩,
    rfl, rfl⟩

/-- What an event prepares with a kind, and for whom. -/
def Event.preparation (kind : Kind) (active : Option NSString) :
    Event → List (NSString × NSString × Double)
  | .prepare prepared value key =>
      if prepared = kind then active.toList.map fun user => (user, key, value) else []
  | _ => []

/-- Who prepared what with a kind, in the order of the run. -/
def preparations (kind : Kind) :
    Option NSString → List Event → List (NSString × NSString × Double)
  | _, [] => []
  | active, e :: es =>
      e.preparation kind active ++ preparations kind (e.userAfter active) es

theorem valuesAt_preparations (kind : Kind) (user : NSString) (active : Option NSString)
    (es : List Event) :
    valuesAt user (preparations kind active es) = preparedFor kind user active es := by
  induction es generalizing active with
  | nil => rfl
  | cons e rest ih =>
      have hone : valuesAt user (e.preparation kind active) =
          e.prepares kind user active := by
        cases e with
        | prepare prepared value key =>
            cases active with
            | none => simp [Event.preparation, Event.prepares]
            | some user' =>
                by_cases hkind : prepared = kind
                · simp [Event.preparation, Event.prepares, hkind, valuesAt_cons]
                · simp [Event.preparation, Event.prepares, hkind]
        | setProjectId _ | setUserId _ | setShouldLoadIcons _ | flush _ _ _
        | getProjectAchievements _ | getUserAchievements _ | complete _ _ => rfl
      rw [preparations, preparedFor, valuesAt_append, ih, hone]

section

variable [NumberFormat] {server : Server}

/-- A settled total is the initial one plus all values prepared for it. -/
theorem System.totals_eq {s : System} {es : List SystemEvent}
    (hrun : (System.start server).run es = some s) (hsettled : s.Settled .increment)
    (user key : NSString) :
    s.server.totals (user, key) =
      server.totals (user, key) +
        ((valuesAt key (preparedFor .increment user none (clientEvents es))).map
          Double.toRat).sum := by
  have hsound := System.run_sound hrun
  have harrived : (s.arrived.flatMap (s.client.entries .increment)).Perm
      (s.client.requests.flatMap (s.client.entries .increment)) :=
    (System.arrived_perm hsound hsettled).flatMap_right _
  have hvalues := valuesAt_map (f := id) Function.injective_id Double.toRat (user, key)
    (s.client.requests.flatMap (s.client.entries .increment))
  rw [hsound.totals, accumulate_perm _ (harrived.map _), accumulate_apply]
  rw [← System.carried_eq_prepared hrun hsettled, ← World.valuesAt_entries, ← hvalues]
  rfl

/-- Runs that prepare the same values leave the same totals, however the
values are cut into requests and in whatever order these arrive. -/
theorem increment_totals_eq {s₁ s₂ : System} {es₁ es₂ : List SystemEvent}
    (hrun₁ : (System.start server).run es₁ = some s₁)
    (hrun₂ : (System.start server).run es₂ = some s₂)
    (hsame : preparations .increment none (clientEvents es₁) =
      preparations .increment none (clientEvents es₂))
    (hsettled₁ : s₁.Settled .increment) (hsettled₂ : s₂.Settled .increment)
    (user key : NSString) :
    s₁.server.totals (user, key) = s₂.server.totals (user, key) ∧
      s₁.server.totals (user, key) =
        server.totals (user, key) +
          ((valuesAt key (valuesAt user
            (preparations .increment none (clientEvents es₁)))).map Double.toRat).sum := by
  have hprepared : preparedFor .increment user none (clientEvents es₁) =
      preparedFor .increment user none (clientEvents es₂) := by
    rw [← valuesAt_preparations, ← valuesAt_preparations, hsame]
  constructor
  · rw [System.totals_eq hrun₁ hsettled₁, System.totals_eq hrun₂ hsettled₂, hprepared]
  · rw [valuesAt_preparations]
    exact System.totals_eq hrun₁ hsettled₁ user key

end

/-- Both values in one request, or one request each with the second first. -/
def oneIncrement : List SystemEvent :=
  [.client (.setUserId (some (ns "ann"))),
    .client (.prepare .increment Double.one (ns "wins")),
    .client (.prepare .increment Double.one (ns "wins")),
    .client (.flush .increment .active ⟨0, true, true⟩),
    .arrive 0]

def twoIncrements : List SystemEvent :=
  [.client (.setUserId (some (ns "ann"))),
    .client (.prepare .increment Double.one (ns "wins")),
    .client (.flush .increment .active ⟨0, true, true⟩),
    .client (.prepare .increment Double.one (ns "wins")),
    .client (.flush .increment (.user (some (ns "bob"))) ⟨1, true, true⟩),
    .client (.flush .increment (.user (some (ns "ann"))) ⟨2, true, true⟩),
    .arrive 2,
    .arrive 0]

theorem increment_totals_eq_one_two :
    letI := NumberFormat.numerals
    ∃ s₁ s₂, (System.start Server.fresh).run oneIncrement = some s₁ ∧
      (System.start Server.fresh).run twoIncrements = some s₂ ∧
      s₁.server.totals (ns "ann", ns "wins") = s₂.server.totals (ns "ann", ns "wins") ∧
      s₁.server.totals (ns "ann", ns "wins") =
        Server.fresh.totals (ns "ann", ns "wins") +
          ((valuesAt (ns "wins") (valuesAt (ns "ann")
            (preparations .increment none (clientEvents oneIncrement)))).map
              Double.toRat).sum :=
  letI := NumberFormat.numerals
  ⟨_, _, rfl, rfl, @increment_totals_eq _ Server.fresh _ _ oneIncrement twoIncrements
    rfl rfl rfl
    ⟨fun _ => rfl, fun _ htask => htask⟩
    ⟨fun _ => rfl, fun _ htask => (List.Perm.swap _ _ _).mem_iff.mp htask⟩
    (ns "ann") (ns "wins")⟩

end BadgeKeeper
