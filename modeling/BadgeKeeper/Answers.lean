import BadgeKeeper.Dispatch
import BadgeKeeper.Isolation

/-!
Answers to service calls. A call that sends a request is open while the
request is in flight and is answered once by its completion. A flush that
finds nothing pending returns without sending anything, so that neither of its
blocks is ever called.
-/

namespace BadgeKeeper

/-- The service call that an event makes. -/
def Event.call? : Event → Option Call
  | .flush _ _ call | .getProjectAchievements call | .getUserAchievements call => some call
  | .setProjectId _ | .setUserId _ | .setShouldLoadIcons _ | .prepare _ _ _
  | .complete _ _ => none

/-- Whether the call of an event sends a request: a flush does when something
is pending for its user. -/
def Event.sends (w : World) : Event → Bool
  | .flush kind target _ =>
      (target.resolve w).any fun user => !(w.pending kind user).isEmpty
  | .getProjectAchievements _ | .getUserAchievements _ => true
  | .setProjectId _ | .setUserId _ | .setShouldLoadIcons _ | .prepare _ _ _
  | .complete _ _ => false

/-- The callbacks that a call has got. -/
def World.answers (w : World) (call : Call) : List Callback :=
  w.callbacks.filter fun callback => callback.call = call.id

/-- The request of the call is in flight and none of its callbacks has run. -/
structure World.Open (w : World) (call : Call) : Prop where
  inFlight : ∃ task ∈ w.session, task.call = call
  unanswered : w.answers call = []

/-- One callback of the call has run, once, and its request is not in flight. -/
structure World.Answered (w : World) (call : Call) : Prop where
  done : ∀ task ∈ w.session, task.call.id ≠ call.id
  once : ∃ callback, w.answers call = [callback]

/-- The call has sent no request, and none of its callbacks has run. -/
structure World.Silent (w : World) (call : Call) : Prop where
  unsent : ∀ task ∈ w.requests, task.call.id ≠ call.id
  unanswered : w.answers call = []

section

variable [NumberFormat] {w : World}

theorem World.answers_eq (hw : w.Consistent) (call : Call) :
    w.answers call =
      (w.completed.filter fun entry => entry.1.call.id = call.id).flatMap fun entry =>
        (entry.1.readReaction entry.2).callback.toList := by
  apply World.callbacks_filter hw
  intro entry _ callback hcallback
  rw [readReaction_call hcallback]

theorem World.answers_eq_nil (hw : w.Consistent) {call : Call}
    (hnone : ∀ entry ∈ w.completed, entry.1.call.id ≠ call.id) : w.answers call = [] := by
  have hfilter : (w.completed.filter fun entry => entry.1.call.id = call.id) = [] := by
    apply List.filter_eq_nil_iff.mpr
    intro entry hentry
    simpa using hnone entry hentry
  rw [World.answers_eq hw, hfilter]
  rfl

theorem World.open_of_session (hw : w.Consistent) {task : DataTask}
    (htask : task ∈ w.session) : w.Open task.call := by
  refine ⟨⟨task, htask, rfl⟩, ?_⟩
  apply World.answers_eq_nil hw
  intro entry hentry hid
  have hdisjoint := (List.nodup_append.mp hw.ledger.ids_nodup).2.2
  exact hdisjoint _ (List.mem_map_of_mem htask) _ (List.mem_map_of_mem hentry) hid.symm

theorem World.answered_of_completed (hw : w.Consistent) {entry : DataTask × Completion}
    (hentry : entry ∈ w.completed) (hsuccess : entry.1.call.success = true)
    (hfailure : entry.1.call.failure = true) : w.Answered entry.1.call := by
  obtain ⟨_, hdistinct, hdisjoint⟩ := List.nodup_append.mp hw.ledger.ids_nodup
  constructor
  · intro task htask hid
    exact hdisjoint _ (List.mem_map_of_mem htask) _ (List.mem_map_of_mem hentry) hid
  · have honly : (w.completed.filter fun other =>
        other.1.call.id = entry.1.call.id) = [entry] :=
      Pointwise.filter_key_eq_singleton hdistinct hentry
    obtain ⟨callback, hcallback, _⟩ := readReaction_callback hsuccess hfailure entry.2
    refine ⟨callback, ?_⟩
    rw [World.answers_eq hw, honly, List.flatMap_singleton, hcallback]
    rfl

omit [NumberFormat] in
theorem World.Open.not_answered {call : Call} (hopen : w.Open call) : ¬ w.Answered call := by
  rintro ⟨_, callback, honce⟩
  rw [hopen.unanswered] at honce
  cases honce

/-- The call of a request that was sent is open or answered, never both. -/
theorem World.sent_xor (hw : w.Consistent) {task : DataTask} (htask : task ∈ w.requests)
    (hsuccess : task.call.success = true) (hfailure : task.call.failure = true) :
    Xor (w.Open task.call) (w.Answered task.call) := by
  rcases List.mem_append.mp (hw.ledger.conserved.mem_iff.mp htask) with hsession | hcompleted
  · have hopen := World.open_of_session hw hsession
    exact .inl ⟨hopen, hopen.not_answered⟩
  · obtain ⟨entry, hentry, rfl⟩ := List.mem_map.mp hcompleted
    have hanswered := World.answered_of_completed hw hentry hsuccess hfailure
    exact .inr ⟨hanswered, fun hopen => hopen.not_answered hanswered⟩

/-- The call of an event is a new one, and is registered. -/
theorem World.step_calls {w' : World} {e : Event} (hstep : w.step e = some w') :
    w'.calls = w.calls ++ (e.call?.map Call.id).toList ∧
      ∀ call, e.call? = some call → call.id ∉ w.calls := by
  cases e with
  | setProjectId _ | setUserId _ | setShouldLoadIcons _ =>
      cases hstep
      simp [Event.call?]
  | prepare kind value key =>
      obtain ⟨user, _, rfl⟩ := step_prepare_eq_some.mp hstep
      obtain ⟨_, _, _, heq⟩ := w.afterPrepare_eq kind user ⟨w.allocated, key, value⟩
      rw [heq]
      simp [Event.call?]
  | flush kind target call =>
      obtain ⟨hfresh, ⟨_, rfl⟩ | ⟨user, array, _, _, _, rfl⟩⟩ :=
        step_flush_eq_some.mp hstep
      · simpa [Event.call?, World.register] using hfresh
      · obtain ⟨_, _, _, heq⟩ := (w.register call).afterFlush_eq kind user array call
        rw [heq]
        simpa [Event.call?, World.register] using hfresh
  | getProjectAchievements call =>
      obtain ⟨hfresh, rfl⟩ := step_getProjectAchievements_eq_some.mp hstep
      simpa [Event.call?, World.register, World.resume] using hfresh
  | getUserAchievements call =>
      obtain ⟨hfresh, rfl⟩ := step_getUserAchievements_eq_some.mp hstep
      simpa [Event.call?, World.register, World.resume] using hfresh
  | complete id completion =>
      obtain ⟨_, _, _, _, _, _, rfl⟩ := step_complete_eq_some.mp hstep
      simp [Event.call?]

/-- The requests that an event sends belong to its call. -/
theorem World.step_requests {w' : World} {e : Event} (hstep : w.step e = some w') :
    w'.requests.map DataTask.call =
      w.requests.map DataTask.call ++ if e.sends w then e.call?.toList else [] := by
  cases e with
  | setProjectId _ | setUserId _ | setShouldLoadIcons _ =>
      cases hstep
      simp [Event.sends]
  | prepare kind value key =>
      obtain ⟨user, _, rfl⟩ := step_prepare_eq_some.mp hstep
      simp [Event.sends]
  | flush kind target call =>
      obtain ⟨_, ⟨hnothing, rfl⟩ | ⟨user, array, hresolve, hentry, hget, rfl⟩⟩ :=
        step_flush_eq_some.mp hstep
      · cases hresolve : target.resolve w with
        | none => simp [Event.sends, hresolve, World.register]
        | some user => simp [Event.sends, hresolve, hnothing user hresolve, World.register]
      · have hsome : w.pending kind user ≠ [] := by
          rw [World.pending_of_lookup hentry]
          exact hget
        rw [World.requests_afterFlush]
        simp [Event.sends, Event.call?, hresolve, hsome, World.register, World.flushTask]
  | getProjectAchievements call =>
      obtain ⟨_, rfl⟩ := step_getProjectAchievements_eq_some.mp hstep
      simp [Event.sends, Event.call?, World.register, World.resume, World.dataTask]
  | getUserAchievements call =>
      obtain ⟨_, rfl⟩ := step_getUserAchievements_eq_some.mp hstep
      simp [Event.sends, Event.call?, World.register, World.resume, World.dataTask]
  | complete id completion =>
      obtain ⟨_, _, _, _, _, _, rfl⟩ := step_complete_eq_some.mp hstep
      simp [Event.sends]

/-- A run only adds requests of new calls. -/
theorem World.run_requests {w' : World} {es : List Event} (hrun : w.run es = some w') :
    w.calls ⊆ w'.calls ∧ ∃ added,
      w'.requests.map DataTask.call = w.requests.map DataTask.call ++ added ∧
        ∀ call ∈ added, call.id ∉ w.calls := by
  apply @Machine.run_invariant _ _ World.step (fun next => w.calls ⊆ next.calls ∧ ∃ added,
    next.requests.map DataTask.call = w.requests.map DataTask.call ++ added ∧
      ∀ call ∈ added, call.id ∉ w.calls) _ _ _ _ _ hrun
  · rintro before e after ⟨hcalls, added, hadded, hnew⟩ hstep
    obtain ⟨hregistered, hfresh⟩ := World.step_calls hstep
    refine ⟨?_, added ++ if e.sends before then e.call?.toList else [], ?_, ?_⟩
    · rw [hregistered]
      exact List.subset_append_of_subset_left _ hcalls
    · rw [World.step_requests hstep, hadded, List.append_assoc]
    · intro call hcall
      rcases List.mem_append.mp hcall with hold | hsent
      · exact hnew call hold
      · split_ifs at hsent
        · exact fun hmem => hfresh call (Option.mem_toList.mp hsent) (hcalls hmem)
        · cases hsent
  · exact ⟨List.Subset.refl _, [], by simp, by simp⟩

variable {before : World} {past later : List Event} {e : Event} {call : Call}

/-- At any later point of a run, a call with both blocks that sent a request is
open or answered once, and one that found nothing to send stays silent. -/
theorem call_answered_once (hpast : World.initial.run past = some before)
    (hrun : before.run (e :: later) = some w) (hcall : e.call? = some call)
    (hsuccess : call.success = true) (hfailure : call.failure = true) :
    if e.sends before then Xor (w.Open call) (w.Answered call) else w.Silent call := by
  have hbefore := World.run_consistent World.initial_consistent hpast
  have hw := World.run_consistent hbefore hrun
  obtain ⟨after, hstep, hlater⟩ := Machine.run_cons_eq_some.mp hrun
  obtain ⟨hregistered, hfresh⟩ := World.step_calls hstep
  obtain ⟨_, added, hadded, hnew⟩ := World.run_requests hlater
  have hsent := World.step_requests hstep
  split_ifs with hsends
  · rw [if_pos hsends, hcall] at hsent
    have hmem : call ∈ w.requests.map DataTask.call := by
      rw [hadded, hsent]
      simp
    obtain ⟨task, htask, rfl⟩ := List.mem_map.mp hmem
    exact World.sent_xor hw htask hsuccess hfailure
  · rw [if_neg hsends, List.append_nil] at hsent
    have hunsent : ∀ task ∈ w.requests, task.call.id ≠ call.id := by
      intro task htask hid
      have hmem : task.call ∈ w.requests.map DataTask.call := List.mem_map_of_mem htask
      rw [hadded, hsent] at hmem
      rcases List.mem_append.mp hmem with hold | hadd
      · obtain ⟨other, hother, heq⟩ := List.mem_map.mp hold
        apply hfresh call hcall
        rw [← hid, ← heq]
        exact hbefore.ledger.registered other hother
      · apply hnew task.call hadd
        rw [hregistered, hcall, hid]
        simp
    refine ⟨hunsent, World.answers_eq_nil hw ?_⟩
    intro entry hentry
    exact hunsent entry.1 (hw.ledger.sent_of_completed hentry)

end

/-- A call that is answered by a transport error after the user has changed. -/
theorem call_answered_once_offline :
    letI := NumberFormat.numerals
    ∃ before w, World.initial.run [.setUserId (some (ns "ann"))] = some before ∧
      before.run
        [.getUserAchievements ⟨0, true, true⟩, .setUserId (some (ns "bob")),
          .complete 0 (.error (ns "offline"))] = some w ∧
      if (Event.getUserAchievements ⟨0, true, true⟩).sends before then
        Xor (w.Open ⟨0, true, true⟩) (w.Answered ⟨0, true, true⟩)
      else w.Silent ⟨0, true, true⟩ :=
  letI := NumberFormat.numerals
  ⟨_, _, rfl, rfl,
    @call_answered_once _ _ _ [.setUserId (some (ns "ann"))]
      [.setUserId (some (ns "bob")), .complete 0 (.error (ns "offline"))] _ _
      rfl rfl rfl rfl rfl⟩

/-- A flush with nothing pending is neither in flight nor ever answered. -/
theorem idle_flush_unanswered :
    letI := NumberFormat.numerals
    ∃ w, World.initial.run
        [.setUserId (some (ns "ann")), .flush .post .active ⟨0, true, true⟩] = some w ∧
      ¬ Xor (w.Open ⟨0, true, true⟩) (w.Answered ⟨0, true, true⟩) := by
  refine ⟨_, rfl, ?_⟩
  rintro (⟨⟨⟨task, htask, _⟩, _⟩, _⟩ | ⟨⟨_, callback, honce⟩, _⟩)
  · exact absurd htask List.not_mem_nil
  · cases honce

end BadgeKeeper
