import BadgeKeeper.Dispatch
import BadgeKeeper.Sample.Controller

/-!
What holds on the screen in every state of the sample: it is ready exactly when
no request is in flight and shows the text of the last callback, or it waits
for the only request in flight. Nothing stays prepared between two clicks.
-/

namespace BadgeKeeper

section

variable [NumberFormat] {w : World}

/-- The task of a call that asks a question, as it goes out and comes back. -/
structure World.Poses (w : World) (task : DataTask) (call : Call) (question : Question) :
    Prop where
  call : task.call = call
  asks : w.question task = question
  urlRequest : task.urlRequest = urlRequestFor w.arrays task.request
  internalCallback : task.internalCallback = question.internalCallback

/-- One request was sent, and nothing was called back. -/
structure World.Sends (w w' : World) (call : Call) (question : Question) : Prop where
  task : ∃ task, w'.session = w.session ++ [task] ∧ w'.requests = w.requests ++ [task] ∧
    w'.Poses task call question
  calls : w'.calls = w.calls ++ [call.id]
  callbacks : w'.callbacks = w.callbacks
  realm : w'.realm = w.realm
  settings : w'.projectId = w.projectId ∧ w'.shouldLoadIcons = w.shouldLoadIcons

/-- A flush sends what waits for the active user, copied or not. -/
theorem World.flush_sends {user : NSString} (huser : w.userId = some user) {kind : Kind}
    (hwaiting : w.pending kind user ≠ []) {call : Call} (hcall : call.id ∉ w.calls) :
    ∃ next, w.step (.flush kind .active call) = some next ∧
      w.Sends next call
        (.change kind w.projectId (some user) ((w.pending kind user).map BKPair.entry)) := by
  obtain ⟨array, hentry, hget⟩ := World.exists_array hwaiting
  have hstep : w.step (.flush kind .active call) =
      some ((w.register call).afterFlush kind user array call) :=
    step_flush_eq_some.mpr ⟨hcall, .inr ⟨user, array, huser, hentry, hget, rfl⟩⟩
  have hposes : ((w.register call).afterFlush kind user array call).Poses
      ((w.register call).flushTask kind user array call) call
      (.change kind w.projectId (some user) ((w.arrays.get array).map BKPair.entry)) := by
    refine ⟨rfl, World.question_flushTask, ?_, rfl⟩
    cases kind <;> rfl
  obtain ⟨_, _, _, hnext⟩ := (w.register call).afterFlush_eq kind user array call
  rw [hnext] at hstep hposes
  rw [World.pending_of_lookup hentry]
  exact ⟨_, hstep, ⟨_, rfl, rfl, hposes⟩, rfl, rfl, rfl, rfl, rfl⟩

/-- A value that is prepared and flushed at once, with nothing waiting before. -/
theorem World.change_sends (hinv : w.Inv) (hidle : w.outbox.pending = fun _ => [])
    {user : NSString} (huser : w.userId = some user) (kind : Kind) (value : Double)
    (key : NSString) {call : Call} (hcall : call.id ∉ w.calls) :
    ∃ middle next, w.step (.prepare kind value key) = some middle ∧
      middle.calls = w.calls ∧ middle.step (.flush kind .active call) = some next ∧
      w.Sends next call (.change kind w.projectId (some user) [(key, value)]) ∧
      next.outbox = { w.outbox with
        sent := w.outbox.sent ++ [((kind, user), [⟨w.allocated, key, value⟩])] } := by
  have hprepare : w.step (.prepare kind value key) =
      some (w.afterPrepare kind user ⟨w.allocated, key, value⟩) :=
    step_prepare_eq_some.mpr ⟨user, huser, rfl⟩
  generalize hmiddle : w.afterPrepare kind user ⟨w.allocated, key, value⟩ = middle at hprepare
  obtain ⟨hinv', hput⟩ := World.step_refines hinv hprepare
  have hframe : middle.userId = w.userId ∧ middle.session = w.session ∧
      middle.requests = w.requests ∧ middle.calls = w.calls ∧
      middle.callbacks = w.callbacks ∧ middle.realm = w.realm ∧
      middle.projectId = w.projectId ∧ middle.shouldLoadIcons = w.shouldLoadIcons := by
    obtain ⟨_, _, _, heq⟩ := w.afterPrepare_eq kind user ⟨w.allocated, key, value⟩
    rw [← hmiddle, heq]
    exact ⟨rfl, rfl, rfl, rfl, rfl, rfl, rfl, rfl⟩
  obtain ⟨huser', hsession, hrequests, hcalls, hcallbacks, hrealm, hproject, hicons⟩ := hframe
  have hwaiting : middle.pending kind user = [⟨w.allocated, key, value⟩] := by
    have hempty : w.pending kind user = [] := congrFun hidle (kind, user)
    rw [← hmiddle, World.pending_afterPrepare hinv, if_pos ⟨rfl, rfl⟩, hempty]
    rfl
  have hsomething : middle.pending kind user ≠ [] := by
    rw [hwaiting]
    exact List.cons_ne_nil _ _
  obtain ⟨next, hflush, hsends⟩ :=
    World.flush_sends (huser'.trans huser) hsomething (hcalls ▸ hcall)
  obtain ⟨_, hsent⟩ := World.step_refines hinv' hflush
  rw [hwaiting, hproject] at hsends
  refine ⟨middle, next, hprepare, hcalls, hflush, ⟨?_, ?_, ?_, ?_, ?_⟩, ?_⟩
  · rw [← hsession, ← hrequests]
    exact hsends.task
  · rw [← hcalls]
    exact hsends.calls
  · exact hsends.callbacks.trans hcallbacks
  · exact hsends.realm.trans hrealm
  · exact ⟨hsends.settings.1.trans hproject, hsends.settings.2.trans hicons⟩
  · rw [hsent, Event.moves, hput, Event.moves]
    simp only [FlushTarget.resolve, huser', huser, List.foldl_cons, List.foldl_nil]
    exact Outbox.put_flush w.outbox hidle (kind, user) _

/-- A question sends its request and leaves the outbox alone. -/
theorem World.question_sends (hinv : w.Inv) {call : Call} (hcall : call.id ∉ w.calls) :
    (∃ next, w.step (.getUserAchievements call) = some next ∧
        w.Sends next call (.user w.projectId w.userId w.shouldLoadIcons) ∧
        next.outbox = w.outbox) ∧
      ∃ next, w.step (.getProjectAchievements call) = some next ∧
        w.Sends next call (.project w.projectId w.shouldLoadIcons) ∧
        next.outbox = w.outbox := by
  constructor
  · have hstep := step_getUserAchievements_eq_some.mpr ⟨hcall, rfl⟩
    exact ⟨_, hstep,
      ⟨⟨_, rfl, rfl, rfl, rfl, rfl, rfl⟩, rfl, rfl, rfl, rfl, rfl⟩,
      (World.step_refines hinv hstep).2⟩
  · have hstep := step_getProjectAchievements_eq_some.mpr ⟨hcall, rfl⟩
    exact ⟨_, hstep,
      ⟨⟨_, rfl, rfl, rfl, rfl, rfl, rfl⟩, rfl, rfl, rfl, rfl, rfl⟩,
      (World.step_refines hinv hstep).2⟩

end

/-- The batches sent so far, without the identities of their pairs. -/
def World.changes (w : World) : List (Channel × List (NSString × Double)) :=
  w.outbox.sent.map fun batch => (batch.1, batch.2.map BKPair.entry)

/-- The kind of the values that a button sends. -/
def Button.kind? : Button → Option Kind
  | .postVariables => some .post
  | .incrementVariables => some .increment
  | .getUserAchievements | .getProjectAchievements => none

/-- The success block of the operation that a button calls. -/
def Button.internalCallback (login : NSString) : Button → InternalCallback
  | .postVariables => .setUserChanges (some login)
  | .incrementVariables => .incrementUserChanges (some login)
  | .getUserAchievements => .getUserAchievements
  | .getProjectAchievements => .getProjectAchievements

/-- Whether a click gets past the check of the login. -/
def Button.permits (button : Button) (login : NSString) : Prop :=
  login = [] → button = .getProjectAchievements

instance (button : Button) (login : NSString) : Decidable (button.permits login) :=
  inferInstanceAs (Decidable (_ → _))

namespace Sample

/-- The sample with the client in another state. -/
def withClient (s : Sample) (client : World) : Sample :=
  { s with system := { s.system with client := client } }

variable [NumberFormat]

/-- The client and the server have come here by themselves. -/
def Reached (server : Server) (s : Sample) : Prop :=
  ∃ es, (System.start server).run es = some s.system

/-- The screen is ready, or waits for one request. -/
inductive Screen (describe : JSONObject → NSString) (s : Sample) : Prop where
  | ready : s.system.client.session = [] → s.controls = .ready →
      s.response =
        (s.system.client.callbacks.getLast?.map (Callback.text describe)).getD [] →
      Screen describe s
  | waiting (task : DataTask) : s.system.client.session = [task] → s.controls = .busy →
      s.response = [] → s.alert = none → Screen describe s

structure Sound (describe : JSONObject → NSString) (server : Server) (s : Sample) : Prop where
  reached : s.Reached server
  idle : s.system.client.outbox.pending = fun _ => []
  calls : ∀ id ∈ s.system.client.calls, id < s.system.client.calls.length
  blocks : ∀ task ∈ s.system.client.session,
    task.call.success = true ∧ task.call.failure = true
  settings : s.system.client.projectId = some projectId ∧
    s.system.client.shouldLoadIcons = false
  screen : s.Screen describe

section

variable {describe : JSONObject → NSString} {server : Server} {s next : Sample}

theorem perform_client {event : Event} (hrequest : event.responseTo = none) :
    s.perform (.client event) = (s.system.client.step event).map s.withClient := by
  rw [perform, System.step, hrequest]
  cases s.system.client.step event <;> rfl

theorem Reached.perform {event : SystemEvent} (h : s.Reached server)
    (hstep : s.perform event = some next) : next.Reached server := by
  obtain ⟨es, hrun⟩ := h
  obtain ⟨system, hsystem, rfl⟩ := Option.map_eq_some_iff.mp hstep
  refine ⟨es ++ [event], ?_⟩
  rw [System.run, Machine.run_append]
  exact (congrArg (Option.bind · _) hrun).trans
    (Machine.run_cons_eq_some.mpr ⟨system, hsystem, rfl⟩)

theorem Reached.consistent (h : s.Reached server) : s.system.client.Consistent := by
  obtain ⟨es, hrun⟩ := h
  exact World.run_consistent World.initial_consistent (System.run_client hrun)

theorem didFinishLaunching_sound : (didFinishLaunching server).Sound describe server where
  reached := ⟨[.client (.setProjectId _)], rfl⟩
  idle := by
    funext channel
    obtain ⟨kind, user⟩ := channel
    cases kind <;> rfl
  calls _ hid := absurd hid List.not_mem_nil
  blocks _ htask := absurd htask List.not_mem_nil
  settings := ⟨rfl, rfl⟩
  screen := .ready rfl rfl rfl

/-- The screen stays right where the client, the controls and the text do, as
long as nothing is presented over a request in flight. -/
theorem Sound.of_same_client (hsound : s.Sound describe server) (hreached : next.Reached server)
    (hclient : next.system.client = s.system.client) (hcontrols : next.controls = s.controls)
    (hresponse : next.response = s.response)
    (halert : s.system.client.session ≠ [] → s.alert = none → next.alert = none) :
    next.Sound describe server := by
  refine ⟨hreached, hclient ▸ hsound.idle, hclient ▸ hsound.calls, hclient ▸ hsound.blocks,
    hclient ▸ hsound.settings, ?_⟩
  cases hsound.screen with
  | ready hsession hready hlast =>
      apply Screen.ready
      · rw [hclient, hsession]
      · rw [hcontrols, hready]
      · rw [hclient, hresponse, hlast]
  | waiting task hsession hbusy hempty hnone =>
      apply Screen.waiting task
      · rw [hclient, hsession]
      · rw [hcontrols, hbusy]
      · rw [hresponse, hempty]
      · apply halert _ hnone
        rw [hsession]
        exact List.cons_ne_nil _ _

/-- The batch that a click on a button sends. -/
def announces (s : Sample) (button : Button) : List (Channel × List (NSString × Double)) :=
  match button.kind? with
  | none => []
  | some kind => [((kind, s.login), [(ns "x", Double.ofNat (s.counter kind + 1))])]

/-- What a click with a valid login asks. -/
def question (s : Sample) : Button → Question
  | .postVariables =>
      .change .post (some projectId) (some s.login) [(ns "x", Double.ofNat (s.posts + 1))]
  | .incrementVariables =>
      .change .increment (some projectId) (some s.login)
        [(ns "x", Double.ofNat (s.increments + 1))]
  | .getUserAchievements => .user (some projectId) (some s.login) false
  | .getProjectAchievements => .project (some projectId) false

omit [NumberFormat] in
theorem question_of_kind {button : Button} {kind : Kind} (h : button.kind? = some kind) :
    s.question button = .change kind (some projectId) (some s.login)
      [(ns "x", Double.ofNat (s.counter kind + 1))] := by
  cases button with
  | postVariables | incrementVariables =>
      cases h
      rfl
  | getUserAchievements | getProjectAchievements => cases h

omit [NumberFormat] in
theorem question_internalCallback (button : Button) :
    (s.question button).internalCallback = button.internalCallback s.login := by
  cases button <;> rfl

/-- What a click with a valid login does. -/
structure Requests (s next : Sample) (button : Button) : Prop where
  sends : s.system.client.Sends next.system.client s.call (s.question button)
  changes : next.system.client.changes = s.system.client.changes ++ s.announces button
  counter : ∀ kind, next.counter kind =
    s.counter kind + if button.kind? = some kind then 1 else 0
  login : next.login = s.login
  arrived : next.system.arrived = s.system.arrived

/-- The value of a counter goes out in a request of its own. -/
theorem sendCounter_sends (hinv : s.system.client.Inv)
    (hidle : s.system.client.outbox.pending = fun _ => [])
    (hcall : s.call.id ∉ s.system.client.calls) (kind : Kind) :
    ∃ client, s.sendCounter kind = some (s.withClient client) ∧
      s.system.client.Sends client s.call
        (.change kind s.system.client.projectId (some s.login)
          [(ns "x", Double.ofNat (s.counter kind))]) ∧
      client.outbox = { s.system.client.outbox with
        sent := s.system.client.outbox.sent ++ [((kind, s.login),
          [⟨s.system.client.allocated, ns "x", Double.ofNat (s.counter kind)⟩])] } := by
  let known : World := { s.system.client with userId := some s.login }
  have hknown : known.Inv := World.inv_congr hinv rfl rfl rfl rfl
  obtain ⟨middle, client, hprepare, hcalls, hflush, hsends, houtbox⟩ :=
    World.change_sends hknown hidle rfl kind (Double.ofNat (s.counter kind)) (ns "x") hcall
  have hfirst : s.perform (.client (.setUserId (some s.login))) = some (s.withClient known) :=
    perform_client rfl
  have hsecond : (s.withClient known).perform
      (.client (.prepare kind (Double.ofNat ((s.withClient known).counter kind)) (ns "x"))) =
        some (s.withClient middle) := by
    have hcounter : (s.withClient known).counter kind = s.counter kind := by
      cases kind <;> rfl
    rw [hcounter, perform_client rfl]
    exact congrArg (Option.map _) hprepare
  have hthird : (s.withClient middle).perform
      (.client (.flush kind .active (s.withClient middle).call)) = some (s.withClient client) := by
    have hsame : (s.withClient middle).call = s.call := by
      rw [call, call]
      exact congrArg (fun calls : List Nat => (⟨calls.length, true, true⟩ : Call)) hcalls
    rw [hsame, perform_client rfl]
    exact congrArg (Option.map _) hflush
  refine ⟨client, ?_, ⟨hsends.task, hsends.calls, hsends.callbacks, hsends.realm,
    hsends.settings⟩, houtbox⟩
  unfold sendCounter
  rw [hfirst]
  change ((s.withClient known).perform _).bind _ = _
  rw [hsecond]
  exact hthird

/-- A request that is sent from the ready screen. -/
theorem Sound.sends (hsound : s.Sound describe server) (hready : s.system.client.session = [])
    (hreached : next.Reached server) {asked : Question}
    (hsends : s.system.client.Sends next.system.client s.call asked)
    (hidle : next.system.client.outbox.pending = fun _ => []) (hcontrols : next.controls = .busy)
    (hresponse : next.response = []) (halert : next.alert = none) :
    next.Sound describe server := by
  obtain ⟨task, hsession, _, hposes⟩ := hsends.task
  rw [hready, List.nil_append] at hsession
  refine ⟨hreached, hidle, ?_, ?_, ?_, .waiting task hsession hcontrols hresponse halert⟩
  · rw [hsends.calls, List.length_append]
    intro id hid
    rcases List.mem_append.mp hid with hold | hnew
    · have hbefore := hsound.calls id hold
      omega
    · rw [List.mem_singleton.mp hnew]
      exact Nat.lt_succ_self _
  · rw [hsession, List.forall_mem_singleton, hposes.call]
    exact ⟨rfl, rfl⟩
  · rw [hsends.settings.1, hsends.settings.2]
    exact hsound.settings

theorem Sound.ready_of_enabled (hsound : s.Sound describe server) {button : Button}
    (henabled : s.controls.enabled button = true) : s.system.client.session = [] := by
  cases hsound.screen with
  | ready hsession _ _ => exact hsession
  | waiting task _ hcontrols _ _ =>
      rw [hcontrols] at henabled
      cases button <;> cases henabled

theorem Sound.call_fresh (hsound : s.Sound describe server) :
    s.call.id ∉ s.system.client.calls := by
  intro hmem
  exact Nat.lt_irrefl _ (hsound.calls _ hmem)

theorem Reached.sendCounter {kind : Kind} (h : s.Reached server)
    (hsend : s.sendCounter kind = some next) : next.Reached server := by
  unfold Sample.sendCounter at hsend
  simp only [Option.bind_eq_bind, Option.bind_eq_some_iff] at hsend
  obtain ⟨_, hfirst, _, hsecond, hthird⟩ := hsend
  exact ((h.perform hfirst).perform hsecond).perform hthird

/-- The value buttons behind the check of the login. -/
theorem Sound.sendCounter (hsound : s.Sound describe server)
    (hready : s.system.client.session = []) {counted : Sample}
    (hsystem : counted.system = s.system) (hcontrols : counted.controls = .busy)
    (hresponse : counted.response = []) (halert : counted.alert = none)
    (hlogin : counted.login = s.login) {button : Button} {kind : Kind}
    (hbutton : button.kind? = some kind)
    (hcounter : ∀ other, counted.counter other =
      s.counter other + if button.kind? = some other then 1 else 0) :
    ∃ next, counted.sendCounter kind = some next ∧ next.Sound describe server ∧
      s.Requests next button := by
  have hcall : counted.call = s.call := by
    rw [call, call, hsystem]
  have hfresh : counted.call.id ∉ counted.system.client.calls := by
    rw [hcall, hsystem]
    exact hsound.call_fresh
  obtain ⟨client, hsend, hsends, houtbox⟩ := sendCounter_sends
    (hsystem ▸ hsound.reached.consistent.inv) (hsystem ▸ hsound.idle) hfresh kind
  have hreached : (counted.withClient client).Reached server := by
    refine Reached.sendCounter ?_ hsend
    obtain ⟨es, hrun⟩ := hsound.reached
    exact ⟨es, hrun.trans (congrArg some hsystem.symm)⟩
  rw [hcall, hsystem, hlogin, hcounter, if_pos hbutton, hsound.settings.1,
    ← question_of_kind hbutton] at hsends
  rw [hsystem, hlogin, hcounter, if_pos hbutton] at houtbox
  have hidle : client.outbox.pending = fun _ => [] := by
    rw [houtbox]
    exact hsound.idle
  have hchanges : client.changes = s.system.client.changes ++ s.announces button := by
    rw [World.changes, houtbox, List.map_append, announces, hbutton]
    rfl
  refine ⟨_, hsend, hsound.sends hready hreached hsends hidle hcontrols hresponse halert,
    hsends, hchanges, ?_, hlogin, ?_⟩
  · intro other
    rw [← hcounter]
    cases other <;> rfl
  · change counted.system.arrived = _
    rw [hsystem]

/-- A refused login leaves everything but the alert. -/
theorem Sound.alertLogin (hsound : s.Sound describe server)
    (hready : s.system.client.session = []) : s.alertLogin.Sound describe server :=
  hsound.of_same_client hsound.reached rfl rfl rfl fun hbusy => absurd hready hbusy

omit [NumberFormat] in
theorem whenLoginValid_of_empty (h : s.login = []) (action : Sample → Option Sample) :
    s.whenLoginValid action = some s.alertLogin := by
  simp [whenLoginValid, isLoginValid, h]

omit [NumberFormat] in
theorem whenLoginValid_of_ne (h : s.login ≠ []) (action : Sample → Option Sample) :
    s.whenLoginValid action = action s.startLoading := by
  simp [whenLoginValid, isLoginValid, h]

/-- A question from the ready screen. -/
theorem Sound.question (hsound : s.Sound describe server)
    (hready : s.system.client.session = []) (halert : s.alert = none) {client : World}
    (hreached : (s.startLoading.withClient client).Reached server) (button : Button)
    (hsends : s.system.client.Sends client s.call (s.question button))
    (houtbox : client.outbox = s.system.client.outbox) (hbutton : button.kind? = none) :
    (s.startLoading.withClient client).Sound describe server ∧
      s.Requests (s.startLoading.withClient client) button := by
  have hidle : client.outbox.pending = fun _ => [] := by
    rw [houtbox]
    exact hsound.idle
  refine ⟨hsound.sends hready hreached hsends hidle rfl rfl halert, hsends, ?_, ?_, rfl, rfl⟩
  · rw [announces, hbutton, List.append_nil]
    change client.changes = _
    rw [World.changes, houtbox]
    rfl
  · intro kind
    rw [hbutton]
    cases kind <;> rfl

/-- The question that needs no login. -/
theorem Sound.clickProject (hsound : s.Sound describe server)
    (hready : s.system.client.session = []) (halert : s.alert = none) :
    ∃ next, s.getProjectAchievementsClick = some next ∧ next.Sound describe server ∧
      s.Requests next .getProjectAchievements := by
  obtain ⟨client, hstep, hsends, houtbox⟩ :=
    (World.question_sends hsound.reached.consistent.inv hsound.call_fresh).2
  have hclick : s.getProjectAchievementsClick = some (s.startLoading.withClient client) :=
    (perform_client rfl).trans (congrArg (Option.map _) hstep)
  have hreached : s.startLoading.Reached server := hsound.reached
  rw [hsound.settings.1, hsound.settings.2] at hsends
  exact ⟨_, hclick, hsound.question hready halert (hreached.perform hclick)
    .getProjectAchievements hsends houtbox rfl⟩

/-- The question of a user, who becomes the active one first. -/
theorem Sound.clickUser (hsound : s.Sound describe server)
    (hready : s.system.client.session = []) (halert : s.alert = none) (hlogin : s.login ≠ []) :
    ∃ next, s.getUserAchievementsClick = some next ∧ next.Sound describe server ∧
      s.Requests next .getUserAchievements := by
  let known : World := { s.system.client with userId := some s.login }
  have hknown : known.Inv := World.inv_congr hsound.reached.consistent.inv rfl rfl rfl rfl
  obtain ⟨client, hstep, hsends, houtbox⟩ := (World.question_sends hknown hsound.call_fresh).1
  have hfirst : s.startLoading.perform (.client (.setUserId (some s.login))) =
      some (s.startLoading.withClient known) := perform_client rfl
  have hsecond : (s.startLoading.withClient known).perform
      (.client (.getUserAchievements s.call)) = some (s.startLoading.withClient client) :=
    (perform_client rfl).trans (congrArg (Option.map _) hstep)
  have hclick : s.getUserAchievementsClick = some (s.startLoading.withClient client) := by
    rw [getUserAchievementsClick, whenLoginValid_of_ne hlogin]
    change (s.startLoading.perform (.client (.setUserId (some s.login)))).bind _ = _
    rw [hfirst]
    exact hsecond
  have hreached : s.startLoading.Reached server := hsound.reached
  have hasked : s.question .getUserAchievements =
      .user known.projectId known.userId known.shouldLoadIcons := by
    rw [show known.projectId = some projectId from hsound.settings.1,
      show known.shouldLoadIcons = false from hsound.settings.2]
    rfl
  rw [← hasked] at hsends
  exact ⟨_, hclick, hsound.question hready halert
    ((hreached.perform hfirst).perform hsecond) .getUserAchievements
    ⟨hsends.task, hsends.calls, hsends.callbacks, hsends.realm, hsends.settings⟩ houtbox rfl⟩

theorem Sound.clickPost (hsound : s.Sound describe server)
    (hready : s.system.client.session = []) (halert : s.alert = none) (hlogin : s.login ≠ []) :
    ∃ next, s.postButtonClick = some next ∧ next.Sound describe server ∧
      s.Requests next .postVariables := by
  let counted : Sample := { s.startLoading with posts := s.posts + 1 }
  rw [postButtonClick, whenLoginValid_of_ne hlogin]
  refine hsound.sendCounter hready (rfl : counted.system = s.system) rfl rfl halert rfl
    (rfl : Button.postVariables.kind? = some .post) ?_
  intro other
  cases other <;> rfl

theorem Sound.clickIncrement (hsound : s.Sound describe server)
    (hready : s.system.client.session = []) (halert : s.alert = none) (hlogin : s.login ≠ []) :
    ∃ next, s.incrementButtonClick = some next ∧ next.Sound describe server ∧
      s.Requests next .incrementVariables := by
  let counted : Sample := { s.startLoading with increments := s.increments + 1 }
  rw [incrementButtonClick, whenLoginValid_of_ne hlogin]
  refine hsound.sendCounter hready (rfl : counted.system = s.system) rfl rfl halert rfl
    (rfl : Button.incrementVariables.kind? = some .increment) ?_
  intro other
  cases other <;> rfl

omit [NumberFormat] in
/-- Without a login every button but one is refused. -/
theorem permits_iff {button : Button} {login : NSString} :
    button.permits login ↔ button = .getProjectAchievements ∨ login ≠ [] := by
  rw [Button.permits, imp_iff_or_not]

theorem buttonClick_refused {button : Button} (h : ¬ button.permits s.login) :
    s.buttonClick button = some s.alertLogin := by
  rw [permits_iff, not_or, not_not] at h
  obtain ⟨hbutton, hlogin⟩ := h
  cases button with
  | getProjectAchievements => exact absurd rfl hbutton
  | postVariables | incrementVariables | getUserAchievements =>
      simp only [buttonClick, postButtonClick, incrementButtonClick,
        getUserAchievementsClick, whenLoginValid_of_empty hlogin]

/-- On the ready screen every button can be clicked. -/
theorem Sound.click (hsound : s.Sound describe server)
    (hready : s.system.client.session = []) (halert : s.alert = none) (button : Button) :
    ∃ next, s.buttonClick button = some next ∧ next.Sound describe server ∧
      if button.permits s.login then s.Requests next button
      else next = s.alertLogin := by
  split
  · next hpermits =>
      rcases permits_iff.mp hpermits with rfl | hlogin
      · exact hsound.clickProject hready halert
      · cases button with
        | getProjectAchievements => exact hsound.clickProject hready halert
        | postVariables => exact hsound.clickPost hready halert hlogin
        | incrementVariables => exact hsound.clickIncrement hready halert hlogin
        | getUserAchievements => exact hsound.clickUser hready halert hlogin
  · next hrefused =>
      exact ⟨_, buttonClick_refused hrefused, hsound.alertLogin hready, rfl⟩

/-- An accepted click comes from the ready screen. -/
theorem Sound.step_click (hsound : s.Sound describe server) {button : Button}
    (hstep : s.step describe (.click button) = some next) :
    s.system.client.session = [] ∧ next.Sound describe server ∧
      if button.permits s.login then s.Requests next button else next = s.alertLogin := by
  simp only [Sample.step] at hstep
  split_ifs at hstep with henabled
  have hready := hsound.ready_of_enabled henabled.1
  obtain ⟨_, hclick, hnext, hspec⟩ := hsound.click hready henabled.2 button
  rw [hstep] at hclick
  cases hclick
  exact ⟨hready, hnext, hspec⟩

theorem step_editLogin {text : NSString} (h : s.step describe (.editLogin text) = some next) :
    next = { s with login := text } := by
  simp only [Sample.step] at h
  split_ifs at h
  exact (Option.some.inj h).symm

theorem perform_client_eq_some {event : Event} (h : s.perform (.client event) = some next) :
    event.responseTo.all s.system.hasArrived = true ∧
      ∃ client, s.system.client.step event = some client ∧ next = s.withClient client := by
  obtain ⟨system, hsystem, rfl⟩ := Option.map_eq_some_iff.mp h
  simp only [System.step] at hsystem
  split_ifs at hsystem with hanswered
  obtain ⟨client, hclient, rfl⟩ := Option.map_eq_some_iff.mp hsystem
  exact ⟨hanswered, client, hclient, rfl⟩

theorem perform_arrive_eq_some {id : Nat} (h : s.perform (.arrive id) = some next) :
    ∃ task ∈ s.system.client.requests, s.system.hasArrived task.call.id = false ∧
      next = { s with system := s.system.arrive task } := by
  obtain ⟨system, hsystem, rfl⟩ := Option.map_eq_some_iff.mp h
  simp only [System.step] at hsystem
  split_ifs at hsystem with hnew
  obtain ⟨task, htask, rfl⟩ := Option.map_eq_some_iff.mp hsystem
  have hid : task.call.id = id := by simpa using List.find?_some htask
  refine ⟨task, List.mem_of_find?_eq_some htask, ?_, rfl⟩
  rw [hid]
  exact eq_false_of_ne_true hnew

omit [NumberFormat] in
/-- Nothing is in flight without the request that an identity finds. -/
theorem Screen.eraseP_session (hscreen : s.Screen describe) {p : DataTask → Bool}
    {task : DataTask} (hfind : s.system.client.session.find? p = some task) :
    s.system.client.session.eraseP p = [] := by
  cases hscreen with
  | ready hsession _ _ =>
      rw [hsession] at hfind
      cases hfind
  | waiting only hsession _ _ _ =>
      rw [hsession] at hfind ⊢
      have hfound := List.find?_some hfind
      have hsame := List.mem_singleton.mp (List.mem_of_find?_eq_some hfind)
      rw [hsame] at hfound
      exact List.eraseP_cons_of_pos hfound

/-- The one request in flight completes with one callback, and the screen is
ready again. -/
theorem Sound.complete (hsound : s.Sound describe server) {id : Nat} {completion : Completion}
    (hstep : s.complete describe id completion = some next) :
    next.Sound describe server ∧
      ∃ client callback, s.system.client.step (.complete id completion) = some client ∧
        client.session = [] ∧
        next = (s.withClient client).didReceive describe callback := by
  obtain ⟨middle, hmiddle, hnext⟩ := Option.bind_eq_some_iff.mp hstep
  have hreached := hsound.reached.perform hmiddle
  obtain ⟨_, client, hclient, rfl⟩ := perform_client_eq_some hmiddle
  have hconsistent := hsound.reached.consistent
  obtain ⟨task, hfind, _, _, hdone⟩ := (step_complete_idle hconsistent.realm).mp hclient
  obtain ⟨hsuccess, hfailure⟩ := hsound.blocks task (List.mem_of_find?_eq_some hfind)
  obtain ⟨callback, hcallback, _⟩ := readReaction_callback hsuccess hfailure completion
  have hcallbacks : client.callbacks = s.system.client.callbacks ++ [callback] := by
    rw [hdone, hcallback]
    rfl
  have hlast : (s.withClient client).system.client.callbacks.drop
      s.system.client.callbacks.length = [callback] := by
    change client.callbacks.drop _ = _
    rw [hcallbacks, List.drop_left]
  rw [hlast, List.foldl_cons, List.foldl_nil] at hnext
  obtain rfl := Option.some.inj hnext
  have hempty : client.session = [] := by
    rw [hdone]
    exact hsound.screen.eraseP_session hfind
  refine ⟨⟨hreached, ?_, ?_, ?_, ?_, .ready hempty (s.controls.setLoading_eq false) ?_⟩,
    client, callback, hclient, hempty, rfl⟩
  · have houtbox := (World.step_refines hconsistent.inv hclient).2
    change client.outbox.pending = _
    rw [houtbox]
    exact hsound.idle
  · have hcalls : client.calls = s.system.client.calls := by rw [hdone]
    change ∀ id ∈ client.calls, id < client.calls.length
    rw [hcalls]
    exact hsound.calls
  · intro waiting hwaiting
    change waiting ∈ client.session at hwaiting
    rw [hempty] at hwaiting
    cases hwaiting
  · change client.projectId = _ ∧ client.shouldLoadIcons = _
    rw [hdone]
    exact hsound.settings
  · change callback.text describe = (client.callbacks.getLast?.map _).getD []
    rw [hcallbacks, List.getLast?_concat]
    rfl

/-- Every event keeps the screen right. -/
theorem Sound.step (hsound : s.Sound describe server) {e : SampleEvent}
    (hstep : s.step describe e = some next) : next.Sound describe server := by
  cases e with
  | editLogin text =>
      obtain rfl := step_editLogin hstep
      exact hsound.of_same_client hsound.reached rfl rfl rfl fun _ hnone => hnone
  | click button => exact (hsound.step_click hstep).2.1
  | dismissAlert =>
      obtain ⟨_, _, rfl⟩ := Option.map_eq_some_iff.mp hstep
      exact hsound.of_same_client hsound.reached rfl rfl rfl fun _ _ => rfl
  | arrive id =>
      have hreached := hsound.reached.perform hstep
      obtain ⟨task, _, _, rfl⟩ := perform_arrive_eq_some hstep
      exact hsound.of_same_client hreached rfl rfl rfl fun _ hnone => hnone
  | complete id completion => exact (hsound.complete hstep).1

theorem run_sound {es : List SampleEvent}
    (hrun : (didFinishLaunching server).run describe es = some s) : s.Sound describe server :=
  Machine.run_invariant (fun _ _ _ hbefore hstep => hbefore.step hstep)
    didFinishLaunching_sound hrun

end

end Sample

section

variable [NumberFormat] {describe : JSONObject → NSString} {server : Server} {s : Sample}

/-- Whatever the user, the network and the server do: the controls are enabled
and show the text of the last callback exactly when no request is in flight;
otherwise one request is, and they are disabled. Nothing waits in the client. -/
theorem screen_follows_client {es : List SampleEvent}
    (hrun : (Sample.didFinishLaunching server).run describe es = some s) :
    s.Screen describe ∧ ∀ kind user, s.system.client.pending kind user = [] := by
  have hsound := Sample.run_sound hrun
  exact ⟨hsound.screen, fun kind user => congrFun hsound.idle (kind, user)⟩

/-- An enabled button can be clicked in every reachable state. The click sends
one request, which asks for what the button says with the user of the login
field and the next value of the button's counter; a button that needs a login
shows an alert instead when the field is empty. -/
theorem click_sends_one {es : List SampleEvent}
    (hrun : (Sample.didFinishLaunching server).run describe es = some s) {button : Button}
    (henabled : s.controls.enabled button = true) (halert : s.alert = none) :
    ∃ next, s.step describe (.click button) = some next ∧
      if button.permits s.login then s.Requests next button
      else next = s.alertLogin := by
  have hsound := Sample.run_sound hrun
  obtain ⟨next, hclick, _, hspec⟩ :=
    hsound.click (hsound.ready_of_enabled henabled) halert button
  exact ⟨next, (if_pos ⟨henabled, halert⟩).trans hclick, hspec⟩

end

/-- One click that the network does not carry, and the next click. -/
def twoClicks : List SampleEvent :=
  [.editLogin (ns "ann"), .click .incrementVariables, .complete 0 (.error (ns "offline")),
    .click .incrementVariables]

theorem screen_follows_client_two_clicks :
    letI := NumberFormat.numerals
    ∃ s, (Sample.didFinishLaunching Server.fresh).run (fun _ => []) twoClicks = some s ∧
      s.Screen (fun _ => []) ∧ ∀ kind user, s.system.client.pending kind user = [] :=
  letI := NumberFormat.numerals
  (Option.isSome_iff_exists.mp (by decide +kernel)).imp fun _ hrun =>
    ⟨hrun, screen_follows_client hrun⟩

theorem click_sends_one_login :
    letI := NumberFormat.numerals
    ∃ s next, (Sample.didFinishLaunching Server.fresh).run (fun _ => [])
        [.editLogin (ns "ann")] = some s ∧
      s.step (fun _ => []) (.click .postVariables) = some next ∧
      if Button.postVariables.permits s.login then s.Requests next .postVariables
      else next = s.alertLogin :=
  letI := NumberFormat.numerals
  ⟨_, (click_sends_one (rfl : (Sample.didFinishLaunching Server.fresh).run (fun _ => [])
    [.editLogin (ns "ann")] = some _) rfl rfl).imp fun _ hnext => ⟨rfl, hnext⟩⟩

end BadgeKeeper
