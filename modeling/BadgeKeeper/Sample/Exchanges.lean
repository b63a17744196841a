import BadgeKeeper.Replies
import BadgeKeeper.Sample.Screen

/-!
Whole conversations on the screen. A user types a login and clicks a button,
the request reaches the server or is lost, and a reply comes back. Every such
script goes through from every ready screen: no handler raises, no request stays
in flight, each reply is shown in its turn, and the rewards it unlocks are
stored for the user of the click.
-/

namespace BadgeKeeper

/-- The text of a list, with separators between its elements. -/
def listing {α : Type} (text : α → NSString) (list : List α) : NSString :=
  ns "Achievements: [" ++ (ns ", ").intercalate (list.map text) ++ ns "]"

theorem achievementsText_eq {α : Type} (text : α → NSString) (list : List α) :
    achievementsText text list = listing text list := by
  rw [achievementsText, appendTexts_eq, listing]

section

variable (describe : JSONObject → NSString) (reason : NSString)

/-- What the screen shows for a reply. -/
def Reply.text : Reply → NSString
  | .answer (.project sent) => listing (BKAchievement.text describe) sent.achievements
  | .answer (.user list) => listing (BKUserAchievement.text describe) list
  | .answer (.unlocked list) => listing (BKUnlockedAchievement.text describe) list
  | .answer (.refusal code message) => errorText describe code (some (.string message))
  | .garbled _ => errorText describe PARSING_JSON_ERROR (some (.string reason))
  | .offline localizedDescription =>
      errorText describe INTERNAL_SERVER_ERROR (some (.string localizedDescription))

/-- A call with both blocks hears of every reply. -/
theorem Reply.callback_text (reply : Reply) (id : Nat) :
    ∃ callback, reply.callback reason ⟨id, true, true⟩ = some callback ∧
      callback.text describe = reply.text describe reason := by
  cases reply with
  | answer answer =>
      cases answer with
      | project sent => exact ⟨_, rfl, achievementsText_eq _ sent.achievements⟩
      | user list => exact ⟨_, rfl, achievementsText_eq _ list⟩
      | unlocked list => exact ⟨_, rfl, achievementsText_eq _ list⟩
      | refusal code message => exact ⟨_, rfl, rfl⟩
  | garbled data => exact ⟨_, rfl, rfl⟩
  | offline localizedDescription => exact ⟨_, rfl, rfl⟩

end

/-- A click for a user, and what comes of its request. -/
structure Exchange where
  login : NSString
  button : Button
  /-- Whether the request reaches the server. -/
  arrives : Bool
  reply : Reply

namespace Exchange

variable (numbers : JSONNumbers) (reason : NSString)

/-- The success block of the request. -/
def internalCallback (x : Exchange) : InternalCallback := x.button.internalCallback x.login

def arrival (call : Nat) (x : Exchange) : List SampleEvent :=
  if x.arrives then [.arrive call] else []

def events (call : Nat) (x : Exchange) : List SampleEvent :=
  [.editLogin x.login, .click x.button] ++
    (x.arrival call ++ [.complete call (x.reply.completion numbers reason)])

/-- The events of one exchange after another, from the number of the first call. -/
def script : Nat → List Exchange → List SampleEvent
  | _, [] => []
  | call, x :: rest => x.events numbers reason call ++ script (call + 1) rest

/-- The button accepts the login, the reply fits its operation, and it is a
transport error where the request was lost. -/
structure Valid (x : Exchange) : Prop where
  permits : x.button.permits x.login
  proper : x.reply.Proper numbers x.internalCallback
  answered : x.arrives = true ∨ ∃ text, x.reply = .offline text

end Exchange

namespace Sample

/-- A list of exchanges is over, and the screen is ready for the next click. -/
structure Answered (describe : JSONObject → NSString) (reason : NSString) (s final : Sample)
    (xs : List Exchange) : Prop where
  ready : final.system.client.session = [] ∧ final.controls = .ready ∧ final.alert = none
  calls : final.call.id = s.call.id + xs.length
  response : final.response =
    (xs.getLast?.map fun x => x.reply.text describe reason).getD s.response
  callbacks : final.system.client.callbacks = s.system.client.callbacks ++
    (xs.zipIdx s.call.id).flatMap fun entry =>
      (entry.1.reply.callback reason ⟨entry.2, true, true⟩).toList
  rows : final.system.client.realm.rows = s.system.client.realm.rows ++
    xs.flatMap fun x => x.reply.rows x.internalCallback.user

section

variable {describe : JSONObject → NSString} {reason : NSString} {s middle final : Sample}

theorem Answered.cons {x : Exchange} {xs : List Exchange}
    (hfirst : s.Answered describe reason middle [x])
    (hlater : middle.Answered describe reason final xs) :
    s.Answered describe reason final (x :: xs) where
  ready := hlater.ready
  calls := by
    have hone : middle.call.id = s.call.id + 1 := hfirst.calls
    rw [hlater.calls, hone, List.length_cons]
    omega
  response := by
    have hshown : middle.response = x.reply.text describe reason := hfirst.response
    rw [hlater.response, hshown, List.getLast?_cons]
    cases xs.getLast? <;> rfl
  callbacks := by
    rw [hlater.callbacks, hfirst.callbacks, hfirst.calls, List.append_assoc]
    simp [List.zipIdx_cons]
  rows := by
    rw [hlater.rows, hfirst.rows, List.append_assoc]
    simp

end

section

variable [NumberFormat] {describe : JSONObject → NSString} {server : Server}
  {numbers : JSONNumbers} {reason : NSString} {s next : Sample}

theorem Sound.controls_of_idle (hsound : s.Sound describe server)
    (hready : s.system.client.session = []) : s.controls = .ready := by
  cases hsound.screen with
  | ready _ hcontrols _ => exact hcontrols
  | waiting task hsession _ _ _ =>
      rw [hready] at hsession
      cases hsession

/-- The request that was sent last can arrive. -/
theorem Sound.arrive_last (hsound : s.Sound describe server) {earlier : List DataTask}
    {task : DataTask} (hrequests : s.system.client.requests = earlier ++ [task])
    (harrived : ∀ other ∈ s.system.arrived, other ∈ earlier) :
    s.step describe (.arrive task.call.id) =
      some { s with system := s.system.arrive task } := by
  have hdistinct := hsound.reached.consistent.ledger.distinct
  rw [hrequests, List.map_append, List.nodup_append] at hdistinct
  have hother : ∀ other ∈ earlier, other.call.id ≠ task.call.id := by
    intro other hmem
    exact hdistinct.2.2 _ (List.mem_map_of_mem hmem) _ (List.mem_singleton_self _)
  have hnew : s.system.hasArrived task.call.id = false := by
    apply List.any_eq_false.mpr
    intro other hmem
    simpa using hother other (harrived other hmem)
  have hfind : s.system.client.requests.find? (fun other => other.call.id = task.call.id) =
      some task := by
    rw [hrequests, List.find?_append, List.find?_eq_none.mpr, Option.none_or]
    · simp
    · intro other hmem
      simpa using hother other hmem
  rw [Sample.step, perform, System.step, hnew, hfind]
  rfl

/-- A proper reply to the request in flight is shown. -/
theorem Sound.complete_reply (hsound : s.Sound describe server) (hnumbers : numbers.Faithful)
    (reason : NSString) {task : DataTask} (hsession : s.system.client.session = [task])
    (hblocks : task.call = ⟨task.call.id, true, true⟩) {reply : Reply}
    (hproper : reply.Proper numbers task.internalCallback)
    (hanswered : s.system.hasArrived task.call.id = true ∨ ∃ text, reply = .offline text) :
    ∃ next, s.step describe (.complete task.call.id (reply.completion numbers reason)) =
        some next ∧ next.Sound describe server ∧
      next.system.client.session = [] ∧ next.alert = s.alert ∧ next.call.id = s.call.id ∧
      next.response = reply.text describe reason ∧
      next.system.client.callbacks = s.system.client.callbacks ++
        (reply.callback reason task.call).toList ∧
      next.system.client.realm.rows = s.system.client.realm.rows ++
        reply.rows task.internalCallback.user := by
  have htask : task ∈ s.system.client.session := by
    rw [hsession]
    exact List.mem_singleton_self task
  obtain ⟨client, hclient, _, hcallbacks, hrows⟩ :=
    World.step_arrival hsound.reached.consistent hnumbers reason htask hproper
  have hallowed : (Event.complete task.call.id
      (reply.completion numbers reason)).responseTo.all s.system.hasArrived = true := by
    rcases hanswered with harrived | ⟨text, rfl⟩
    · cases reply.completion numbers reason with
      | error _ => rfl
      | unparsable _ => exact harrived
      | json _ => exact harrived
    · rfl
  have hperform : s.perform (.client (.complete task.call.id
      (reply.completion numbers reason))) = some (s.withClient client) := by
    rw [perform, System.step, if_pos hallowed, hclient]
    rfl
  have hstep : s.complete describe task.call.id (reply.completion numbers reason) =
      some ((client.callbacks.drop s.system.client.callbacks.length).foldl
        (didReceive describe) (s.withClient client)) := by
    rw [Sample.complete, hperform]
    rfl
  obtain ⟨hnext, client', _, hclient', hempty, heq⟩ := hsound.complete hstep
  obtain rfl : client = client' := Option.some.inj (hclient.symm.trans hclient')
  rw [heq] at hstep hnext
  obtain ⟨shown, hshown, htext⟩ := reply.callback_text describe reason task.call.id
  rw [← hblocks] at hshown
  refine ⟨_, hstep, hnext, hempty, rfl, ?_, ?_, hcallbacks, hrows⟩
  · obtain ⟨_, _, _, _, _, _, hdone⟩ := step_complete_eq_some.mp hclient
    change client.calls.length = _
    rw [hdone]
    rfl
  · cases hnext.screen with
    | ready _ _ hresponse =>
        change client.callbacks = _ at hcallbacks
        rw [hresponse, ← htext]
        change (client.callbacks.getLast?.map _).getD [] = _
        rw [hcallbacks, hshown, Option.toList_some, List.getLast?_concat]
        rfl
    | waiting only hwaiting _ _ _ =>
        change client.session = [only] at hwaiting
        rw [hempty] at hwaiting
        cases hwaiting

/-- A click on the ready screen sends the request that it waits for. -/
theorem Sound.click_valid (hsound : s.Sound describe server)
    (hready : s.system.client.session = []) (halert : s.alert = none) {button : Button}
    (hpermits : button.permits s.login) :
    ∃ next task, s.step describe (.click button) = some next ∧ next.Sound describe server ∧
      s.Requests next button ∧ next.system.client.session = [task] ∧
      next.system.client.requests = s.system.client.requests ++ [task] ∧
      task.call = s.call ∧ task.internalCallback = button.internalCallback s.login ∧
      next.alert = none := by
  obtain ⟨next, hclick, hnext, hspec⟩ := hsound.click hready halert button
  rw [if_pos hpermits] at hspec
  obtain ⟨task, hsession, hrequests, hposes⟩ := hspec.sends.task
  rw [hready, List.nil_append] at hsession
  have henabled : s.controls.enabled button = true := by
    rw [hsound.controls_of_idle hready]
    cases button <;> rfl
  refine ⟨next, task, (if_pos ⟨henabled, halert⟩).trans hclick, hnext, hspec, hsession,
    hrequests, hposes.call, hposes.internalCallback.trans (question_internalCallback button),
    ?_⟩
  cases hnext.screen with
  | ready hempty _ _ =>
      rw [hsession] at hempty
      cases hempty
  | waiting _ _ _ _ hnone => exact hnone

/-- The request in flight arrives, unless it is lost. -/
theorem Sound.arrival (hsound : s.Sound describe server) {earlier : List DataTask}
    {task : DataTask} (hrequests : s.system.client.requests = earlier ++ [task])
    (harrived : ∀ other ∈ s.system.arrived, other ∈ earlier) (x : Exchange) :
    ∃ next, s.run describe (x.arrival task.call.id) = some next ∧
      next.Sound describe server ∧ next.system.client = s.system.client ∧
      next.alert = s.alert ∧ (x.arrives = true → next.system.hasArrived task.call.id = true) := by
  by_cases harrives : x.arrives = true
  · have hstep := hsound.arrive_last hrequests harrived
    refine ⟨_, ?_, hsound.step hstep, rfl, rfl, ?_⟩
    · rw [Exchange.arrival, if_pos harrives]
      exact Machine.run_cons_eq_some.mpr ⟨_, hstep, rfl⟩
    · intro _
      simp [System.hasArrived, System.arrive]
  · refine ⟨s, ?_, hsound, rfl, rfl, fun h => absurd h harrives⟩
    rw [Exchange.arrival, if_neg harrives]
    rfl

/-- One exchange, from the click to the reply on the screen. -/
theorem Sound.exchange (hsound : s.Sound describe server) (hnumbers : numbers.Faithful)
    (reason : NSString) (hready : s.system.client.session = []) (halert : s.alert = none)
    {x : Exchange} (hvalid : x.Valid numbers) :
    ∃ next, s.run describe (x.events numbers reason s.call.id) = some next ∧
      next.Sound describe server ∧ s.Answered describe reason next [x] := by
  let typed : Sample := { s with login := x.login }
  have henabled : s.controls.loginTextField = true := by
    rw [hsound.controls_of_idle hready]
    rfl
  have hedit : s.step describe (.editLogin x.login) = some typed := if_pos ⟨henabled, halert⟩
  have htyped := hsound.step hedit
  obtain ⟨clicked, task, hclick, hclicked, hspec, hsession, hrequests, hcall, hblock, hnone⟩ :=
    htyped.click_valid hready halert hvalid.permits
  have harrived : ∀ other ∈ clicked.system.arrived, other ∈ s.system.client.requests := by
    intro other hmem
    obtain ⟨events, hrun⟩ := hsound.reached
    rw [hspec.arrived] at hmem
    exact (System.run_sound hrun).sent other hmem
  obtain ⟨there, harrival, hthere, hclient, hstill, hhas⟩ :=
    hclicked.arrival hrequests harrived x
  have hlost : there.system.hasArrived task.call.id = true ∨ ∃ text, x.reply = .offline text :=
    hvalid.answered.imp_left hhas
  have hblocks : task.call = ⟨task.call.id, true, true⟩ := by
    rw [hcall]
    rfl
  have hproper : x.reply.Proper numbers task.internalCallback := by
    rw [hblock]
    exact hvalid.proper
  obtain ⟨next, hcomplete, hnext, hempty, hdismissed, hid, hshown, hcallbacks, hrows⟩ :=
    hthere.complete_reply hnumbers reason (hclient ▸ hsession) hblocks hproper hlost
  have hnumber : task.call.id = s.call.id := by
    rw [hcall]
    rfl
  refine ⟨next, ?_, hnext, ⟨hempty, hnext.controls_of_idle hempty, ?_⟩, ?_, hshown, ?_, ?_⟩
  · have hend : there.run describe
        [.complete s.call.id (x.reply.completion numbers reason)] = some next := by
      rw [← hnumber]
      exact Machine.run_cons_eq_some.mpr ⟨next, hcomplete, rfl⟩
    rw [hnumber] at harrival
    apply Machine.run_append_eq_some.mpr
    refine ⟨clicked, ?_, Machine.run_append_eq_some.mpr ⟨there, harrival, hend⟩⟩
    exact Machine.run_cons_eq_some.mpr
      ⟨typed, hedit, Machine.run_cons_eq_some.mpr ⟨clicked, hclick, rfl⟩⟩
  · rw [hdismissed, hstill, hnone]
  · have hcalls := hspec.sends.calls
    rw [← hclient] at hcalls
    rw [hid, call, hcalls, List.length_append]
    rfl
  · rw [hcallbacks, hclient, hspec.sends.callbacks, hblocks, hnumber]
    simp [typed]
  · rw [hrows, hclient, hspec.sends.realm, hblock]
    simp [typed, Exchange.internalCallback]

/-- One exchange after another. -/
theorem Sound.exchanges (hsound : s.Sound describe server) (hnumbers : numbers.Faithful)
    (reason : NSString) (hready : s.system.client.session = []) (halert : s.alert = none)
    {xs : List Exchange} (hvalid : ∀ x ∈ xs, x.Valid numbers) :
    ∃ final, s.run describe (Exchange.script numbers reason s.call.id xs) = some final ∧
      s.Answered describe reason final xs := by
  induction xs generalizing s with
  | nil =>
      exact ⟨s, rfl, ⟨hready, hsound.controls_of_idle hready, halert⟩, rfl, rfl, by simp, by simp⟩
  | cons x rest ih =>
      obtain ⟨hfirst, hlater⟩ := List.forall_mem_cons.mp hvalid
      obtain ⟨middle, hrun, hmiddle, hone⟩ :=
        hsound.exchange hnumbers reason hready halert hfirst
      obtain ⟨final, hrest, hall⟩ := ih hmiddle hone.ready.1 hone.ready.2.2 hlater
      rw [hone.calls] at hrest
      exact ⟨final, Machine.run_append_eq_some.mpr ⟨middle, hrun, hrest⟩, hone.cons hall⟩

end

end Sample

section

variable [NumberFormat] {describe : JSONObject → NSString} {server : Server}
  {numbers : JSONNumbers} {reason : NSString} {s : Sample}

/-- From every reachable state with a ready screen, every list of exchanges goes
through: every reply was called back, the screen is ready and shows the last one,
and the rewards of all of them are stored for the users of the clicks. -/
theorem exchanges_complete (hnumbers : numbers.Faithful) {es : List SampleEvent}
    (hrun : (Sample.didFinishLaunching server).run describe es = some s)
    (hready : s.system.client.session = []) (halert : s.alert = none) {xs : List Exchange}
    (hvalid : ∀ x ∈ xs, x.Valid numbers) :
    ∃ final, s.run describe (Exchange.script numbers reason s.call.id xs) = some final ∧
      s.Answered describe reason final xs :=
  (Sample.run_sound hrun).exchanges hnumbers reason hready halert hvalid

end

/-- A rewarded increment of one user, and a post of another that is lost. -/
def twoExchanges : List Exchange :=
  [⟨ns "ann", .incrementVariables, true, .answer (.unlocked [goldAchievement])⟩,
    ⟨ns "bob", .postVariables, false, .offline (ns "offline")⟩]

theorem exchanges_complete_two_users :
    letI := NumberFormat.numerals
    ∃ s final, (Sample.didFinishLaunching Server.fresh).run (fun _ => []) [] = some s ∧
      s.run (fun _ => []) (Exchange.script .numerals (ns "bad data") s.call.id twoExchanges) =
        some final ∧ s.Answered (fun _ => []) (ns "bad data") final twoExchanges :=
  letI := NumberFormat.numerals
  have hvalid : ∀ x ∈ twoExchanges, x.Valid .numerals := by
    intro x hx
    rcases List.mem_cons.mp hx with rfl | hx
    · exact ⟨by decide, ⟨sendable_goldAchievement, trivial⟩, .inl rfl⟩
    · rw [List.mem_singleton.mp hx]
      exact ⟨by decide, trivial, .inr ⟨_, rfl⟩⟩
  ⟨_, (exchanges_complete numerals_carry
    (rfl : (Sample.didFinishLaunching Server.fresh).run (fun _ => []) [] = some _)
    rfl rfl hvalid).imp fun _ hfinal => ⟨rfl, hfinal⟩⟩

end BadgeKeeper
