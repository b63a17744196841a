import BadgeKeeper.Sending
import BadgeKeeper.Sample.Screen

/-!
What the clicks of a run amount to. The two counters number the clicks with a
valid login, whoever is logged in, and each click sends its number in a request
of its own. Since the screen waits for a response before the next click, the
requests reach the server in the order of the clicks as long as none fails on
the way, and the server ends with each user's last posted number and with the
sum of the numbers that the user incremented by.
-/

namespace BadgeKeeper

open Delivery

namespace SampleEvent

def loginAfter (login : NSString) : SampleEvent → NSString
  | .editLogin text => text
  | _ => login

/-- The user of a click that sends a value of this kind. -/
def clicks (kind : Kind) (login : NSString) : SampleEvent → List NSString
  | .click button => if button.kind? = some kind ∧ login ≠ [] then [login] else []
  | _ => []

end SampleEvent

/-- The users of the clicks of a run, in their order. -/
def clicks (kind : Kind) : NSString → List SampleEvent → List NSString
  | _, [] => []
  | login, e :: es => e.clicks kind login ++ clicks kind (e.loginAfter login) es

/-- The users and entries of the batches of one kind, in sending order. -/
def World.changesOf (w : World) (kind : Kind) : List (NSString × List (NSString × Double)) :=
  w.changes.filterMap fun change =>
    if change.1.1 = kind then some (change.1.2, change.2) else none

theorem World.changesOf_congr {w w' : World} (houtbox : w'.outbox = w.outbox) (kind : Kind) :
    w'.changesOf kind = w.changesOf kind := by
  rw [World.changesOf, World.changesOf, World.changes, World.changes, houtbox]

section

variable [NumberFormat] {describe : JSONObject → NSString} {server : Server}

namespace Sample

variable {s next : Sample}

omit [NumberFormat] in
/-- A click that is accepted counts for its own kind, and is nobody's for others. -/
theorem clicks_of_permits {button : Button} {login : NSString} (h : button.permits login)
    (kind : Kind) :
    (SampleEvent.click button).clicks kind login =
      if button.kind? = some kind then [login] else [] := by
  rw [SampleEvent.clicks]
  by_cases hbutton : button.kind? = some kind
  · have hlogin : login ≠ [] := by
      rcases permits_iff.mp h with rfl | hlogin
      · cases hbutton
      · exact hlogin
    rw [if_pos ⟨hbutton, hlogin⟩, if_pos hbutton]
  · rw [if_neg fun hboth => hbutton hboth.1, if_neg hbutton]

/-- The click of a button: the counter and the batches of a kind. -/
theorem Requests.clicks {button : Button} (hspec : s.Requests next button)
    (hpermits : button.permits s.login) (kind : Kind) :
    next.counter kind =
        s.counter kind + ((SampleEvent.click button).clicks kind s.login).length ∧
      next.system.client.changesOf kind = s.system.client.changesOf kind ++
        ((SampleEvent.click button).clicks kind s.login).map fun user =>
          (user, [(ns "x", Double.ofNat (s.counter kind + 1))]) := by
  have hchanges : next.system.client.changesOf kind =
      s.system.client.changesOf kind ++ (s.announces button).filterMap fun change =>
        if change.1.1 = kind then some (change.1.2, change.2) else none := by
    rw [World.changesOf, hspec.changes, List.filterMap_append]
    rfl
  rw [clicks_of_permits hpermits, hspec.counter, hchanges]
  cases hbutton : button.kind? with
  | none => simp [announces, hbutton]
  | some other =>
      by_cases hkind : other = kind
      · simp [announces, hbutton, hkind]
      · simp [announces, hbutton, hkind]

/-- One event: the login, the counter and the batches of a kind. -/
theorem Sound.step_clicks (hsound : s.Sound describe server) {e : SampleEvent}
    (hstep : s.step describe e = some next) (kind : Kind) :
    next.login = e.loginAfter s.login ∧
      next.counter kind = s.counter kind + (e.clicks kind s.login).length ∧
      next.system.client.changesOf kind = s.system.client.changesOf kind ++
        (e.clicks kind s.login).map fun user =>
          (user, [(ns "x", Double.ofNat (s.counter kind + 1))]) := by
  cases e with
  | editLogin text =>
      obtain rfl := step_editLogin hstep
      exact ⟨rfl, by cases kind <;> rfl, (List.append_nil _).symm⟩
  | click button =>
      obtain ⟨_, _, hspec⟩ := hsound.step_click hstep
      split_ifs at hspec with hpermits
      · exact ⟨hspec.login, hspec.clicks hpermits kind⟩
      · subst hspec
        have hlogin : ¬ (button.kind? = some kind ∧ s.login ≠ []) := fun h =>
          hpermits (permits_iff.mpr (.inr h.2))
        rw [SampleEvent.clicks, if_neg hlogin]
        exact ⟨rfl, by cases kind <;> rfl, (List.append_nil _).symm⟩
  | dismissAlert =>
      obtain ⟨_, _, rfl⟩ := Option.map_eq_some_iff.mp hstep
      exact ⟨rfl, by cases kind <;> rfl, (List.append_nil _).symm⟩
  | arrive id =>
      obtain ⟨task, _, _, rfl⟩ := perform_arrive_eq_some hstep
      exact ⟨rfl, by cases kind <;> rfl, (List.append_nil _).symm⟩
  | complete id completion =>
      obtain ⟨_, client, callback, hclient, _, rfl⟩ := hsound.complete hstep
      have houtbox := (World.step_refines hsound.reached.consistent.inv hclient).2
      refine ⟨rfl, by cases kind <;> rfl, ?_⟩
      exact (World.changesOf_congr houtbox kind).trans (List.append_nil _).symm

theorem Sound.run_clicks {es : List SampleEvent} (hsound : s.Sound describe server)
    (hrun : s.run describe es = some next) (kind : Kind) :
    next.counter kind = s.counter kind + (clicks kind s.login es).length ∧
      next.system.client.changesOf kind = s.system.client.changesOf kind ++
        ((clicks kind s.login es).zipIdx (s.counter kind + 1)).map fun click =>
          (click.1, [(ns "x", Double.ofNat click.2)]) := by
  induction es generalizing s with
  | nil =>
      cases hrun
      exact ⟨rfl, (List.append_nil _).symm⟩
  | cons e rest ih =>
      obtain ⟨middle, hmiddle, hrest⟩ := Machine.run_cons_eq_some.mp hrun
      obtain ⟨hlogin, hcounter, hchanges⟩ := hsound.step_clicks hmiddle kind
      obtain ⟨hlater, hsent⟩ := ih (hsound.step hmiddle) hrest
      rw [hlogin, hcounter] at hsent hlater
      have hone : (e.clicks kind s.login).length ≤ 1 := by
        cases e with
        | click button =>
            simp only [SampleEvent.clicks]
            split_ifs <;> simp
        | _ => exact Nat.zero_le 1
      constructor
      · rw [hlater, clicks, List.length_append, Nat.add_assoc]
      · rw [hsent, hchanges, clicks, List.zipIdx_append, List.map_append, List.append_assoc]
        congr 1
        rcases hclicks : e.clicks kind s.login with _ | ⟨user, _ | ⟨_, _⟩⟩
        · simp
        · simp
        · rw [hclicks] at hone
          simp at hone

end Sample

/-- Over a whole run the batches of a kind are the clicks with a valid login,
numbered from one through all users. -/
theorem clicks_are_numbered {es : List SampleEvent} {s : Sample}
    (hrun : (Sample.didFinishLaunching server).run describe es = some s) (kind : Kind) :
    s.system.client.changesOf kind =
      ((clicks kind [] es).zipIdx 1).map fun click =>
        (click.1, [(ns "x", Double.ofNat click.2)]) := by
  have hclicks := (Sample.didFinishLaunching_sound.run_clicks hrun kind).2
  cases kind <;> exact hclicks

namespace Sample

variable {s next : Sample}

/-- All requests have arrived in the order they were sent, or all but the one
that the screen waits for. -/
def Ordered (s : Sample) : Prop :=
  s.system.arrived = s.system.client.requests ∨
    ∃ task, s.system.client.session = [task] ∧
      s.system.client.requests = s.system.arrived ++ [task]

omit [NumberFormat] in
theorem Ordered.of_ready (h : s.Ordered) (hready : s.system.client.session = []) :
    s.system.arrived = s.system.client.requests := by
  rcases h with hall | ⟨task, hsession, _⟩
  · exact hall
  · rw [hready] at hsession
    cases hsession

omit [NumberFormat] in
theorem hasArrived_of_mem {task : DataTask} (h : task ∈ s.system.arrived) :
    s.system.hasArrived task.call.id = true :=
  List.any_eq_true.mpr ⟨task, h, decide_eq_true rfl⟩

theorem Ordered.arrive (h : s.Ordered) {id : Nat} (hstep : s.perform (.arrive id) = some next) :
    next.Ordered := by
  obtain ⟨task, htask, hnew, rfl⟩ := perform_arrive_eq_some hstep
  have hlate : task ∉ s.system.arrived := by
    intro hmem
    rw [hasArrived_of_mem hmem] at hnew
    cases hnew
  rcases h with hall | ⟨waiting, _, hrequests⟩
  · rw [← hall] at htask
    exact absurd htask hlate
  · rw [hrequests] at htask
    rcases List.mem_append.mp htask with hold | honly
    · exact absurd hold hlate
    · rw [List.mem_singleton.mp honly]
      exact .inl hrequests.symm

/-- A response that is no transport error comes from the server, so its request
has arrived. -/
theorem Ordered.complete (h : s.Ordered) (hsound : s.Sound describe server) {id : Nat}
    {completion : Completion} (hanswered : ∀ text, completion ≠ .error text)
    (hstep : s.complete describe id completion = some next) : next.Ordered := by
  obtain ⟨_, client, callback, hclient, _, rfl⟩ := hsound.complete hstep
  obtain ⟨task, _, _, hfind, _, _, hdone⟩ := step_complete_eq_some.mp hclient
  have hid : task.call.id = id := by simpa using List.find?_some hfind
  have harrived : s.system.hasArrived id = true := by
    obtain ⟨_, hmiddle, _⟩ := Option.bind_eq_some_iff.mp hstep
    have hall := (perform_client_eq_some hmiddle).1
    cases completion with
    | error text => exact absurd rfl (hanswered text)
    | unparsable _ => exact hall
    | json _ => exact hall
  have hrequests : client.requests = s.system.client.requests := by rw [hdone]
  rcases h with hall | ⟨waiting, hsession, hsent⟩
  · exact .inl (hall.trans hrequests.symm)
  · -- the request in flight cannot have arrived without being the last one
    exfalso
    have hsame : task = waiting := by
      rw [hsession] at hfind
      exact List.mem_singleton.mp (List.mem_of_find?_eq_some hfind)
    obtain ⟨other, hother, hequal⟩ := List.any_eq_true.mp harrived
    have hdistinct := hsound.reached.consistent.ledger.distinct
    rw [hsent, List.map_append, List.nodup_append] at hdistinct
    apply hdistinct.2.2 _ (List.mem_map_of_mem hother) _ (List.mem_singleton_self _)
    rw [of_decide_eq_true hequal, ← hid, hsame]

theorem Ordered.step (h : s.Ordered) (hsound : s.Sound describe server) {e : SampleEvent}
    (hanswered : ∀ id text, e ≠ .complete id (.error text))
    (hstep : s.step describe e = some next) : next.Ordered := by
  cases e with
  | editLogin text =>
      obtain rfl := step_editLogin hstep
      exact h
  | dismissAlert =>
      obtain ⟨_, _, rfl⟩ := Option.map_eq_some_iff.mp hstep
      exact h
  | click button =>
      obtain ⟨hready, _, hspec⟩ := hsound.step_click hstep
      split_ifs at hspec
      · obtain ⟨task, hsession, hrequests, _⟩ := hspec.sends.task
        rw [hready, List.nil_append] at hsession
        rw [← h.of_ready hready, ← hspec.arrived] at hrequests
        exact .inr ⟨task, hsession, hrequests⟩
      · rw [hspec]
        exact h
  | arrive id => exact h.arrive hstep
  | complete id completion =>
      apply h.complete hsound _ hstep
      intro text heq
      exact hanswered id text (congrArg _ heq)

theorem Ordered.run {es : List SampleEvent} (h : s.Ordered) (hsound : s.Sound describe server)
    (hanswered : ∀ e ∈ es, ∀ id text, e ≠ .complete id (.error text))
    (hrun : s.run describe es = some next) : next.Ordered := by
  induction es generalizing s with
  | nil =>
      cases hrun
      exact h
  | cons e rest ih =>
      obtain ⟨middle, hmiddle, hrest⟩ := Machine.run_cons_eq_some.mp hrun
      obtain ⟨hfirst, hlater⟩ := List.forall_mem_cons.mp hanswered
      exact ih (h.step hsound hfirst hmiddle) (hsound.step hmiddle) hlater hrest

end Sample

omit [NumberFormat] in
/-- What the requests carry, read off the batches. -/
theorem World.flatMap_entries (w : World) (kind : Kind) :
    w.requests.flatMap (w.entries kind) = (w.changesOf kind).flatMap fun change =>
      change.2.map fun entry => ((change.1, entry.1), entry.2) := by
  simp only [World.changesOf, World.changes, World.outbox, List.filterMap_map]
  induction w.requests with
  | nil => rfl
  | cons task rest ih =>
      rw [List.flatMap_cons, ih]
      cases hchannel : task.request.channel? with
      | none => simp [World.entries, World.batch?, hchannel]
      | some channel =>
          by_cases hkind : channel.1 = kind
          · simp [World.entries, World.batch?, hchannel, hkind, BKPair.entry,
              Function.comp_def]
          · simp [World.entries, World.batch?, hchannel, hkind]

/-- The numbers that a run gives to the clicks of one user. -/
def numbersOf (kind : Kind) (user : NSString) (es : List SampleEvent) : List Nat :=
  valuesAt user ((clicks kind [] es).zipIdx 1)

theorem valuesAt_requests {es : List SampleEvent} {s : Sample}
    (hrun : (Sample.didFinishLaunching server).run describe es = some s) (kind : Kind)
    (user : NSString) :
    valuesAt (user, ns "x") (s.system.client.requests.flatMap (s.system.client.entries kind)) =
      (numbersOf kind user es).map Double.ofNat := by
  rw [World.flatMap_entries, clicks_are_numbered hrun, List.flatMap_map]
  have hsingle := valuesAt_map (Prod.mk_left_injective (ns "x")) Double.ofNat user
    ((clicks kind [] es).zipIdx 1)
  rw [numbersOf, ← hsingle, List.map_eq_flatMap]
  rfl

omit [NumberFormat] in
theorem lt_of_mem_numbersOf {kind : Kind} {user : NSString} {es : List SampleEvent} {n : Nat}
    (h : n ∈ numbersOf kind user es) : n < (clicks kind [] es).length + 1 := by
  obtain ⟨click, hclick, rfl⟩ := List.mem_map.mp h
  have hmem := (List.mem_filter.mp hclick).1
  have hbound := List.snd_lt_add_of_mem_zipIdx hmem
  omega

omit [NumberFormat] in
/-- Numbers that a double represents are added without rounding. -/
theorem sum_toRat_ofNat {numbers : List Nat} (h : ∀ n ∈ numbers, n < 2 ^ 53) :
    ((numbers.map Double.ofNat).map Double.toRat).sum = (numbers.sum : ℕ) := by
  have hexact : numbers.map (Double.toRat ∘ Double.ofNat) =
      numbers.map (Nat.cast : ℕ → ℚ) := by
    apply List.map_congr_left
    intro n hn
    exact Double.toRat_ofNat (h n hn)
  rw [List.map_map, hexact, Nat.cast_list_sum]

/-- The server after the requests that have arrived. -/
theorem System.Sound.stored {system : System} (hsound : system.Sound server)
    (user key : NSString) :
    system.server.values (user, key) =
        (valuesAt (user, key)
          (system.arrived.flatMap (system.client.entries .post))).getLast?.or
            (server.values (user, key)) ∧
      system.server.totals (user, key) = server.totals (user, key) +
        ((valuesAt (user, key)
          (system.arrived.flatMap (system.client.entries .increment))).map
            Double.toRat).sum := by
  constructor
  · rw [hsound.values, overwrite_apply]
  · have hvalues := valuesAt_map (f := id) Function.injective_id Double.toRat (user, key)
      (system.arrived.flatMap (system.client.entries .increment))
    rw [hsound.totals, accumulate_apply, ← hvalues]
    rfl

/-- At rest, after a run without transport errors, the server holds each user's
last posted number, and has added all the numbers the user incremented by. -/
theorem server_after_clicks {es : List SampleEvent} {s : Sample}
    (hrun : (Sample.didFinishLaunching server).run describe es = some s)
    (hanswered : ∀ e ∈ es, ∀ id text, e ≠ .complete id (.error text))
    (hready : s.system.client.session = [])
    (hfew : (clicks .increment [] es).length < 2 ^ 53) (user : NSString) :
    s.system.server.values (user, ns "x") =
        ((numbersOf .post user es).getLast?.map Double.ofNat).or
          (server.values (user, ns "x")) ∧
      s.system.server.totals (user, ns "x") =
        server.totals (user, ns "x") + ((numbersOf .increment user es).sum : ℕ) := by
  have hsound := Sample.run_sound hrun
  have hstart : (Sample.didFinishLaunching server).Ordered := .inl rfl
  have hall :=
    (hstart.run Sample.didFinishLaunching_sound hanswered hrun).of_ready hready
  obtain ⟨events, hsystem⟩ := hsound.reached
  obtain ⟨hvalues, htotals⟩ := (System.run_sound hsystem).stored user (ns "x")
  rw [hall, valuesAt_requests hrun] at hvalues htotals
  constructor
  · rw [hvalues, List.getLast?_map]
  · rw [htotals, sum_toRat_ofNat]
    intro n hn
    have hbound := lt_of_mem_numbersOf hn
    omega

namespace System

/-- A response comes from a server that the request has reached. -/
theorem step_answered {s next : System} {e : SystemEvent}
    (h : ∀ entry ∈ s.client.handled,
      (∃ text, entry.2 = .error text) ∨ s.hasArrived entry.1 = true)
    (hstep : s.step e = some next) :
    ∀ entry ∈ next.client.handled,
      (∃ text, entry.2 = .error text) ∨ next.hasArrived entry.1 = true := by
  intro entry hentry
  cases e with
  | arrive id =>
      simp only [System.step] at hstep
      split_ifs at hstep
      obtain ⟨task, _, rfl⟩ := Option.map_eq_some_iff.mp hstep
      apply (h entry hentry).imp_right
      intro harrived
      simp only [System.hasArrived, System.arrive, List.any_append] at harrived ⊢
      rw [harrived, Bool.true_or]
  | client event =>
      simp only [System.step] at hstep
      split_ifs at hstep with hresponse
      obtain ⟨client, hclient, rfl⟩ := Option.map_eq_some_iff.mp hstep
      change entry ∈ client.handled at hentry
      rw [World.step_handled hclient] at hentry
      rcases List.mem_append.mp hentry with hold | hnew
      · exact h entry hold
      · cases event with
        | complete id completion =>
            rw [List.mem_singleton.mp hnew]
            cases completion with
            | error text => exact .inl ⟨text, rfl⟩
            | unparsable _ => exact .inr hresponse
            | json _ => exact .inr hresponse
        | _ => cases hnew

/-- The requests that completed with success have arrived. -/
theorem succeeded_arrived {s : System} {es : List SystemEvent}
    (hrun : (System.start server).run es = some s) : s.client.succeeded ⊆ s.arrived := by
  have hanswered : ∀ entry ∈ s.client.handled,
      (∃ text, entry.2 = .error text) ∨ s.hasArrived entry.1 = true :=
    Machine.run_invariant (fun _ _ _ hbefore hstep => step_answered hbefore hstep)
      (fun _ hentry => absurd hentry List.not_mem_nil) hrun
  have hsound := System.run_sound hrun
  intro task htask
  obtain ⟨entry, hentry, rfl⟩ := List.mem_map.mp htask
  obtain ⟨hcompleted, hsuccess⟩ := List.mem_filter.mp hentry
  have hsent := hsound.client.2.sent_of_completed hcompleted
  rcases hanswered _ (List.mem_map_of_mem hcompleted) with ⟨text, herror⟩ | harrived
  · rw [show entry.2 = .error text from herror] at hsuccess
    cases hsuccess
  · obtain ⟨other, hother, hid⟩ := List.any_eq_true.mp harrived
    have hsame : other = entry.1 :=
      List.inj_on_of_nodup_map hsound.client.2.distinct (hsound.sent other hother) hsent
        (of_decide_eq_true hid)
    rwa [← hsame]

end System

/-- Whatever is lost, late or answered with an error: the server has counted each
click of a user at most once, and has counted those that ended with a success. -/
theorem clicks_counted_once {es : List SampleEvent} {s : Sample}
    (hrun : (Sample.didFinishLaunching server).run describe es = some s)
    (hfew : (clicks .increment [] es).length < 2 ^ 53) (user : NSString) :
    ∃ counted : List Nat, counted.Sublist (numbersOf .increment user es) ∧
      (valuesAt (user, ns "x") (s.system.client.succeeded.flatMap
        (s.system.client.entries .increment))).Subperm (counted.map Double.ofNat) ∧
      s.system.server.totals (user, ns "x") =
        server.totals (user, ns "x") + (counted.sum : ℕ) := by
  obtain ⟨events, hsystem⟩ := (Sample.run_sound hrun).reached
  have hsound := System.run_sound hsystem
  have hsent : s.system.arrived.Subperm s.system.client.requests :=
    List.subperm_of_subset hsound.once.of_map hsound.sent
  have hsucceeded : s.system.client.succeeded.Subperm s.system.arrived := by
    have hids := (List.nodup_append.mp hsound.client.2.ids_nodup).2.1
    apply List.subperm_of_subset _ (System.succeeded_arrived hsystem)
    apply List.Nodup.of_map fun task => task.call.id
    rw [World.succeeded, List.map_map]
    exact hids.sublist (List.filter_sublist.map _)
  have hpart := valuesAt_flatMap_subperm (user, ns "x") hsent
    (s.system.client.entries .increment)
  rw [valuesAt_requests hrun] at hpart
  obtain ⟨values, hperm, hsublist⟩ := hpart
  obtain ⟨counted, hcounted, rfl⟩ := List.sublist_map_iff.mp hsublist
  refine ⟨counted, hcounted, ?_, ?_⟩
  · exact (valuesAt_flatMap_subperm _ hsucceeded _).trans hperm.symm.subperm
  · rw [(hsound.stored user (ns "x")).2, ← (hperm.map Double.toRat).sum_eq, sum_toRat_ofNat]
    intro n hn
    have hbound := lt_of_mem_numbersOf (hcounted.subset hn)
    omega

end

theorem clicks_are_numbered_two_clicks :
    letI := NumberFormat.numerals
    ∃ s, (Sample.didFinishLaunching Server.fresh).run (fun _ => []) twoClicks = some s ∧
      s.system.client.changesOf .increment =
        ((clicks .increment [] twoClicks).zipIdx 1).map fun click =>
          (click.1, [(ns "x", Double.ofNat click.2)]) :=
  letI := NumberFormat.numerals
  (Option.isSome_iff_exists.mp (by decide +kernel)).imp fun _ hrun =>
    ⟨hrun, clicks_are_numbered hrun .increment⟩

/-- Two users click in turn, and the server answers each click. -/
def answeredClicks : List SampleEvent :=
  [.editLogin (ns "ann"), .click .incrementVariables, .arrive 0,
    .complete 0 (.json (.object [])), .click .postVariables, .arrive 1,
    .complete 1 (.json (.object [])), .editLogin (ns "bob"), .click .postVariables,
    .arrive 2, .complete 2 (.json (.object [])), .click .incrementVariables, .arrive 3,
    .complete 3 (.json (.object []))]

theorem server_after_clicks_two_users :
    letI := NumberFormat.numerals
    ∃ s, (Sample.didFinishLaunching Server.fresh).run (fun _ => []) answeredClicks = some s ∧
      numbersOf .post (ns "bob") answeredClicks = [2] ∧
        s.system.server.values (ns "bob", ns "x") =
          ((numbersOf .post (ns "bob") answeredClicks).getLast?.map Double.ofNat).or
            (Server.fresh.values (ns "bob", ns "x")) ∧
        s.system.server.totals (ns "bob", ns "x") =
          Server.fresh.totals (ns "bob", ns "x") +
            ((numbersOf .increment (ns "bob") answeredClicks).sum : ℕ) :=
  letI := NumberFormat.numerals
  have hrun : ((Sample.didFinishLaunching Server.fresh).run (fun _ => []) answeredClicks).map
      (fun s => s.system.client.session.isEmpty) = some true := by
    decide +kernel
  let ⟨s, hs, hready⟩ := Option.map_eq_some_iff.mp hrun
  have hanswered : ∀ e ∈ answeredClicks, ∀ id text, e ≠ .complete id (.error text) := by
    simp [answeredClicks]
  ⟨s, hs, by decide,
    server_after_clicks hs hanswered (List.isEmpty_iff.mp hready) (by decide) _⟩

/-- A click that is lost, and one that is answered. -/
def lostClick : List SampleEvent :=
  [.editLogin (ns "ann"), .click .incrementVariables, .complete 0 (.error (ns "offline")),
    .click .incrementVariables, .arrive 1, .complete 1 (.json (.object []))]

theorem clicks_counted_once_lost :
    letI := NumberFormat.numerals
    ∃ s, (Sample.didFinishLaunching Server.fresh).run (fun _ => []) lostClick = some s ∧
      ∃ counted : List Nat,
        counted.Sublist (numbersOf .increment (ns "ann") lostClick) ∧
        (valuesAt (ns "ann", ns "x") (s.system.client.succeeded.flatMap
          (s.system.client.entries .increment))).Subperm (counted.map Double.ofNat) ∧
        s.system.server.totals (ns "ann", ns "x") =
          Server.fresh.totals (ns "ann", ns "x") + (counted.sum : ℕ) :=
  letI := NumberFormat.numerals
  (Option.isSome_iff_exists.mp (by decide +kernel)).imp fun _ hrun =>
    ⟨hrun, clicks_counted_once hrun (by decide) (ns "ann")⟩

end BadgeKeeper
