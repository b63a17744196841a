import BadgeKeeper.Isolation

/-!
Responses never influence what is sent. A completion changes the reward table,
the requests in flight and the history of answers, and none of these is read
by the operations that prepare values and build requests. So a run sends what
the same run without its completions sends, and the order in which responses
come back only permutes the callbacks and the rows of the reward table. The
array of an increment request is the live one of its dictionary; that it has
left the dictionary is what keeps the request from changing afterwards.
-/

namespace BadgeKeeper

/-- The completion that an event delivers. -/
def Event.completion? : Event → Option (Nat × Completion)
  | .complete call completion => some (call, completion)
  | .setProjectId _ | .setUserId _ | .setShouldLoadIcons _ | .prepare _ _ _ | .flush _ _ _
  | .getProjectAchievements _ | .getUserAchievements _ => none

/-- The calls of a run, without the completions. -/
def requestEvents (es : List Event) : List Event :=
  es.filter fun e => e.completion?.isNone

/-- What the operations that send requests read and write. -/
def World.sending (w : World) : World :=
  { w with realm := RLMRealm.empty, session := [], completed := [], callbacks := [] }

/-- The task of a call among some requests. -/
def taskOf (requests : List DataTask) (call : Nat) : Option DataTask :=
  requests.find? fun task => task.call.id = call

section

variable {w w' : World}

@[simp] theorem World.dictionary_sending (w : World) (kind : Kind) :
    w.sending.dictionary kind = w.dictionary kind := by
  cases kind <;> rfl

theorem World.pending_sending (w : World) (kind : Kind) (user : NSString) :
    w.sending.pending kind user = w.pending kind user := by
  apply World.pending_congr
  · rfl
  · rfl
  · rfl

theorem World.sending_eq_iff :
    w.sending = w'.sending ↔
      w.arrays = w'.arrays ∧ w.allocated = w'.allocated ∧ w.projectId = w'.projectId ∧
        w.userId = w'.userId ∧ w.shouldLoadIcons = w'.shouldLoadIcons ∧
        w.postValues = w'.postValues ∧ w.incrementValues = w'.incrementValues ∧
        w.calls = w'.calls ∧ w.requests = w'.requests := by
  simp [World.sending]

theorem World.pending_of_sending (hsame : w.sending = w'.sending) (kind : Kind)
    (user : NSString) : w.pending kind user = w'.pending kind user := by
  rw [← World.pending_sending w, ← World.pending_sending w', hsame]

theorem World.resolve_of_sending (hsame : w.sending = w'.sending) (target : FlushTarget) :
    target.resolve w = target.resolve w' := by
  cases target with
  | active => exact (World.sending_eq_iff.mp hsame).2.2.2.1
  | user userId => rfl

theorem World.sending_register (hsame : w.sending = w'.sending) (call : Call) :
    (w.register call).sending = (w'.register call).sending :=
  (congrArg (fun world : World => world.register call) hsame :)

theorem World.sending_afterPrepare (w : World) (kind : Kind) (user : NSString)
    (pair : BKPair) :
    (w.afterPrepare kind user pair).sending = (w.sending.afterPrepare kind user pair) := by
  unfold World.afterPrepare
  rw [World.dictionary_sending]
  cases (w.dictionary kind).lookup user with
  | some array => rfl
  | none => cases kind <;> rfl

theorem World.sending_resume {task : DataTask} (hsame : w.sending = w'.sending) :
    (w.resume task).sending = (w'.resume task).sending :=
  (congrArg (fun world : World => { world with requests := world.requests ++ [task] })
    hsame :)

variable [NumberFormat]

theorem World.sending_dataTask (hsame : w.sending = w'.sending) (request : BKApiRequest)
    (internalCallback : InternalCallback) (call : Call) :
    w.dataTask request internalCallback call = w'.dataTask request internalCallback call :=
  (congrArg (fun world : World => world.dataTask request internalCallback call) hsame :)

theorem World.sending_afterFlush (hsame : w.sending = w'.sending) (kind : Kind)
    (user : NSString) (array : Heap.Ref) (call : Call) :
    (w.afterFlush kind user array call).sending =
      (w'.afterFlush kind user array call).sending := by
  have hone (world : World) : (world.afterFlush kind user array call).sending =
      (world.sending.afterFlush kind user array call).sending := by
    cases kind <;> rfl
  rw [hone, hsame, ← hone]

/-- The operations that send requests do the same in both worlds. -/
theorem World.step_sending {e : Event} {next : World} (hsame : w.sending = w'.sending)
    (hcall : e.completion? = none) (hstep : w.step e = some next) :
    ∃ next', w'.step e = some next' ∧ next.sending = next'.sending := by
  obtain ⟨harrays, hallocated, hprojectId, huserId, hicons, hpost, hincrement, hcalls,
    hrequests⟩ := World.sending_eq_iff.mp hsame
  cases e with
  | setProjectId projectId =>
      cases hstep
      exact ⟨_, rfl, World.sending_eq_iff.mpr ⟨harrays, hallocated, rfl, huserId, hicons,
        hpost, hincrement, hcalls, hrequests⟩⟩
  | setUserId userId =>
      cases hstep
      exact ⟨_, rfl, World.sending_eq_iff.mpr ⟨harrays, hallocated, hprojectId, rfl, hicons,
        hpost, hincrement, hcalls, hrequests⟩⟩
  | setShouldLoadIcons icons =>
      cases hstep
      exact ⟨_, rfl, World.sending_eq_iff.mpr ⟨harrays, hallocated, hprojectId, huserId, rfl,
        hpost, hincrement, hcalls, hrequests⟩⟩
  | prepare kind value key =>
      obtain ⟨user, huser, rfl⟩ := step_prepare_eq_some.mp hstep
      refine ⟨_, step_prepare_eq_some.mpr ⟨user, huserId ▸ huser, rfl⟩, ?_⟩
      rw [World.sending_afterPrepare, World.sending_afterPrepare, hsame, hallocated]
  | flush kind target call =>
      obtain ⟨hfresh, hcases⟩ := step_flush_eq_some.mp hstep
      rw [hcalls] at hfresh
      rcases hcases with ⟨hnothing, rfl⟩ | ⟨user, array, hresolve, hentry, hget, rfl⟩
      · refine ⟨_, step_flush_eq_some.mpr ⟨hfresh, .inl ⟨?_, rfl⟩⟩,
          World.sending_register hsame call⟩
        intro user huser
        rw [← World.pending_of_sending hsame]
        apply hnothing
        rw [World.resolve_of_sending hsame, huser]
      · have hentry' : (w'.dictionary kind).lookup user = some array := by
          rw [← World.dictionary_sending, ← hsame, World.dictionary_sending]
          exact hentry
        refine ⟨_, step_flush_eq_some.mpr ⟨hfresh, .inr ⟨user, array, ?_, hentry', ?_, rfl⟩⟩,
          World.sending_afterFlush (World.sending_register hsame call) kind user array call⟩
        · rw [← World.resolve_of_sending hsame, hresolve]
        · rwa [← harrays]
  | getProjectAchievements call =>
      obtain ⟨hfresh, rfl⟩ := step_getProjectAchievements_eq_some.mp hstep
      rw [hcalls] at hfresh
      refine ⟨_, step_getProjectAchievements_eq_some.mpr ⟨hfresh, rfl⟩, ?_⟩
      rw [World.sending_dataTask hsame, hprojectId, hicons]
      exact World.sending_resume (World.sending_register hsame call)
  | getUserAchievements call =>
      obtain ⟨hfresh, rfl⟩ := step_getUserAchievements_eq_some.mp hstep
      rw [hcalls] at hfresh
      refine ⟨_, step_getUserAchievements_eq_some.mpr ⟨hfresh, rfl⟩, ?_⟩
      rw [World.sending_dataTask hsame, hprojectId, huserId, hicons]
      exact World.sending_resume (World.sending_register hsame call)
  | complete id completion => cases hcall

theorem World.step_complete_sending {id : Nat} {completion : Completion} {next : World}
    (hstep : w.step (.complete id completion) = some next) : next.sending = w.sending := by
  obtain ⟨_, _, _, _, _, _, rfl⟩ := step_complete_eq_some.mp hstep
  rfl

/-- Deleting the completions of a run leaves a run that does the same sending. -/
theorem World.run_requestEvents {es : List Event} (hrun : w.run es = some w') :
    ∃ final, w.run (requestEvents es) = some final ∧ w'.sending = final.sending := by
  have hhidden : ∀ (s t : World) (e : Event) (next : World), s.sending = t.sending →
      s.step e = some next → e.completion?.isSome = true → next.sending = t.sending := by
    intro s t e next hsame hstep hcompletion
    cases e with
    | complete id completion => exact (World.step_complete_sending hstep).trans hsame
    | _ => cases hcompletion
  have hkept : ∀ (s t : World) (e : Event) (next : World), s.sending = t.sending →
      s.step e = some next → e.completion?.isSome = false →
        ∃ next', t.step e = some next' ∧ next.sending = next'.sending := by
    intro s t e next hsame hstep hcall
    apply World.step_sending hsame _ hstep
    simpa using hcall
  have hunwound := Machine.unwinding hhidden hkept rfl hrun
  rw [Machine.purge_eq_filter hrun] at hunwound
  simp only [Option.not_isSome] at hunwound
  exact hunwound

/-- A client whose responses never come sends the same requests, with the same
contents, and keeps the same values waiting. -/
theorem requests_without_completions {es : List Event}
    (hrun : World.initial.run es = some w) :
    ∃ w', World.initial.run (requestEvents es) = some w' ∧
      w'.requests = w.requests ∧ w'.calls = w.calls ∧
      (∀ task, w'.contents task = w.contents task) ∧
      ∀ kind user, w'.pending kind user = w.pending kind user := by
  obtain ⟨w', hrun', hsame⟩ := World.run_requestEvents hrun
  obtain ⟨harrays, _, _, _, _, _, _, hcalls, hrequests⟩ := World.sending_eq_iff.mp hsame
  refine ⟨w', hrun', hrequests.symm, hcalls.symm, ?_, ?_⟩
  · intro task
    simp only [World.contents, harrays]
  · intro kind user
    exact (World.pending_of_sending hsame kind user).symm

/-- The completions that a run delivers, with the calls they answer. -/
def completions (es : List Event) : List (Nat × Completion) := es.filterMap Event.completion?

/-- The completions that a world has handled, with the calls they answered. -/
def World.handled (w : World) : List (Nat × Completion) :=
  w.completed.map fun entry => (entry.1.call.id, entry.2)

theorem World.step_handled {e : Event} {next : World} (hstep : w.step e = some next) :
    next.handled = w.handled ++ e.completion?.toList := by
  cases e with
  | complete id completion =>
      obtain ⟨task, _, _, hfind, _, _, rfl⟩ := step_complete_eq_some.mp hstep
      have hid : task.call.id = id := by simpa using List.find?_some hfind
      simp [World.handled, Event.completion?, hid]
  | _ =>
      obtain ⟨_, hcompleted, _⟩ := World.step_frame hstep (by simp)
      simp [World.handled, Event.completion?, hcompleted]

theorem World.run_handled {es : List Event} (hrun : w.run es = some w') :
    w'.handled = w.handled ++ completions es := by
  induction es generalizing w with
  | nil =>
      cases hrun
      exact (List.append_nil _).symm
  | cons e rest ih =>
      obtain ⟨next, hnext, hrest⟩ := Machine.run_cons_eq_some.mp hrun
      rw [ih hrest, World.step_handled hnext, List.append_assoc]
      cases hcompletion : e.completion? <;> simp [completions, hcompletion]

theorem taskOf_call (hled : w.Ledger) {task : DataTask} (htask : task ∈ w.requests) :
    taskOf w.requests task.call.id = some task := by
  have honly : (w.requests.filter fun other => other.call.id = task.call.id) = [task] :=
    Pointwise.filter_key_eq_singleton hled.distinct htask
  unfold taskOf
  rw [← List.head?_filter, honly]
  rfl

/-- The completed requests are found again from the completions handled. -/
theorem World.completed_eq (hled : w.Ledger) :
    w.completed = w.handled.filterMap fun delivery =>
      (taskOf w.requests delivery.1).map fun task => (task, delivery.2) := by
  have hsent : ∀ entry ∈ w.completed, entry.1 ∈ w.requests := by
    intro entry hentry
    apply hled.conserved.mem_iff.mpr
    exact List.mem_append_right _ (List.mem_map_of_mem hentry)
  unfold World.handled
  rw [List.filterMap_map]
  apply Eq.symm
  calc
    w.completed.filterMap _ = w.completed.filterMap some := by
      apply List.filterMap_congr
      intro entry hentry
      simp only [Function.comp_apply, taskOf_call hled (hsent entry hentry), Option.map_some]
    _ = w.completed := List.filterMap_some

/-- Two runs that make the same calls and receive the same responses, in
whatever order and at whatever moments, send the same requests, end with the
same ones in flight, and differ in their callbacks and their reward tables by
the order alone. -/
theorem response_order_irrelevant {es es' : List Event}
    (hrun : World.initial.run es = some w) (hrun' : World.initial.run es' = some w')
    (hcalls : requestEvents es = requestEvents es')
    (hresponses : (completions es).Perm (completions es')) :
    w'.requests = w.requests ∧ w.session.Perm w'.session ∧
      w.completed.Perm w'.completed ∧ w.callbacks.Perm w'.callbacks ∧
      w.realm.rows.Perm w'.realm.rows := by
  have hw := World.run_consistent World.initial_consistent hrun
  have hw' := World.run_consistent World.initial_consistent hrun'
  have hrequests : w'.requests = w.requests := by
    obtain ⟨final, hfinal, hrequests, _⟩ := requests_without_completions hrun
    obtain ⟨final', hfinal', hrequests', _⟩ := requests_without_completions hrun'
    rw [← hcalls, hfinal] at hfinal'
    cases hfinal'
    rw [← hrequests, hrequests']
  have hcompleted : w.completed.Perm w'.completed := by
    rw [World.completed_eq hw.ledger, World.completed_eq hw'.ledger, hrequests,
      World.run_handled hrun, World.run_handled hrun']
    exact (hresponses.append_left _).filterMap _
  have hsession : w.session.Perm w'.session := by
    have hleft := hw.ledger.conserved
    have hright := hw'.ledger.conserved
    rw [hrequests] at hright
    have hboth := hleft.symm.trans hright
    apply (List.perm_append_right_iff (w'.completed.map Prod.fst)).mp
    exact (List.Perm.append_left _ (hcompleted.map Prod.fst)).symm.trans hboth
  refine ⟨hrequests, hsession, hcompleted, ?_, ?_⟩
  · rw [hw.callbacks, hw'.callbacks]
    exact hcompleted.flatMap_right _
  · rw [hw.realm, hw'.realm]
    exact hcompleted.flatMap_right _

/-- Requests are only ever appended. -/
theorem World.step_requests_prefix {e : Event} {next : World} (hstep : w.step e = some next) :
    w.requests <+: next.requests := by
  cases e with
  | setProjectId _ | setUserId _ | setShouldLoadIcons _ =>
      cases hstep
      exact List.prefix_refl _
  | prepare kind value key =>
      obtain ⟨user, _, rfl⟩ := step_prepare_eq_some.mp hstep
      rw [World.requests_afterPrepare]
  | flush kind target call =>
      obtain ⟨_, ⟨_, rfl⟩ | ⟨user, array, _, _, _, rfl⟩⟩ := step_flush_eq_some.mp hstep
      · exact List.prefix_refl _
      · rw [World.requests_afterFlush]
        exact List.prefix_append _ _
  | getProjectAchievements call =>
      obtain ⟨_, rfl⟩ := step_getProjectAchievements_eq_some.mp hstep
      exact List.prefix_append _ _
  | getUserAchievements call =>
      obtain ⟨_, rfl⟩ := step_getUserAchievements_eq_some.mp hstep
      exact List.prefix_append _ _
  | complete id completion =>
      obtain ⟨_, _, _, _, _, _, rfl⟩ := step_complete_eq_some.mp hstep
      exact List.prefix_refl _

theorem World.run_requests_prefix {es : List Event} (hinv : w.Inv) (hrun : w.run es = some w') :
    w.requests <+: w'.requests ∧ ∀ task ∈ w.requests, w'.contents task = w.contents task := by
  induction es generalizing w with
  | nil =>
      cases hrun
      exact ⟨List.prefix_refl _, fun _ _ => rfl⟩
  | cons e rest ih =>
      obtain ⟨next, hnext, hrest⟩ := Machine.run_cons_eq_some.mp hrun
      obtain ⟨hgrown, hcontents⟩ := ih (World.step_refines hinv hnext).1 hrest
      refine ⟨(World.step_requests_prefix hnext).trans hgrown, ?_⟩
      intro task htask
      obtain ⟨hkept, hsame⟩ := World.step_contents hinv hnext htask
      rw [hcontents task hkept, hsame]

/-- Whatever happens after a request is sent, the request stays in its place
and its pairs stay what they were; built again from the array it was given, it
would be the same request on the wire. -/
theorem sent_requests_frozen {es es' : List Event} (hrun : World.initial.run es = some w)
    (hlater : w.run es' = some w') :
    w.requests <+: w'.requests ∧
      ∀ task ∈ w.requests, w'.contents task = w.contents task ∧
        task.urlRequest = urlRequestFor w'.arrays task.request := by
  have hsound := World.reachable_sound hrun
  obtain ⟨hgrown, hcontents⟩ := World.run_requests_prefix hsound.1 hlater
  refine ⟨hgrown, ?_⟩
  intro task htask
  refine ⟨hcontents task htask, ?_⟩
  exact (World.run_sound hsound hlater).2.wire task (hgrown.subset htask)

end

/-- Two posts of one user, whose responses come back in the given order. -/
def twoAnswers (answers : List Event) : List Event :=
  [.setUserId (some (ns "ann")),
    .prepare .post Double.one (ns "gold"),
    .flush .post .active ⟨0, true, true⟩,
    .prepare .increment Double.one (ns "wins"),
    .flush .increment .active ⟨1, true, true⟩] ++ answers

def accepted (call : Nat) : Event := .complete call (.json (.object []))

def refused (call : Nat) : Event := .complete call (.error (ns "offline"))

theorem requests_without_completions_two_answers :
    letI := NumberFormat.numerals
    ∃ w w', World.initial.run (twoAnswers [refused 1, accepted 0]) = some w ∧
      World.initial.run (requestEvents (twoAnswers [refused 1, accepted 0])) = some w' ∧
      w'.requests = w.requests ∧ w'.calls = w.calls ∧
      (∀ task, w'.contents task = w.contents task) ∧
      ∀ kind user, w'.pending kind user = w.pending kind user :=
  letI := NumberFormat.numerals
  have hrun : ∃ w, World.initial.run (twoAnswers [refused 1, accepted 0]) = some w := ⟨_, rfl⟩
  hrun.imp fun _ hrun => (requests_without_completions hrun).imp fun _ h => ⟨hrun, h⟩

theorem response_order_irrelevant_two_answers :
    letI := NumberFormat.numerals
    ∃ w w', World.initial.run (twoAnswers [accepted 0, refused 1]) = some w ∧
      World.initial.run (twoAnswers [refused 1, accepted 0]) = some w' ∧
      w'.requests = w.requests ∧ w.session.Perm w'.session ∧
      w.completed.Perm w'.completed ∧ w.callbacks.Perm w'.callbacks ∧
      w.realm.rows.Perm w'.realm.rows :=
  letI := NumberFormat.numerals
  ⟨_, _, rfl, rfl, @response_order_irrelevant _ _ _ (twoAnswers [accepted 0, refused 1])
    (twoAnswers [refused 1, accepted 0]) rfl rfl rfl (.swap _ _ _)⟩

theorem sent_requests_frozen_two_answers :
    letI := NumberFormat.numerals
    ∃ w w', World.initial.run (twoAnswers []) = some w ∧
      w.run [.prepare .increment Double.zero (ns "wins"), accepted 0] = some w' ∧
      w.requests <+: w'.requests ∧
      ∀ task ∈ w.requests, w'.contents task = w.contents task ∧
        task.urlRequest = urlRequestFor w'.arrays task.request :=
  letI := NumberFormat.numerals
  ⟨_, _, rfl, rfl, @sent_requests_frozen _ _ _ (twoAnswers [])
    [.prepare .increment Double.zero (ns "wins"), accepted 0] rfl rfl⟩

end BadgeKeeper
