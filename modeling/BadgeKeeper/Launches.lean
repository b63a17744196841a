import BadgeKeeper.Sending

/-!
The reward table across launches of the app. A process ends when it is killed
or when a step of it raises; everything in memory goes with it, and so does a
write transaction that was left open. The committed rows stay on the device
and are what the next launch starts from. A completion whose handler returns
has saved all the rewards that it delivers. One whose handler raises has saved
the first few of them, and none of the others will ever be saved, since the
service does not answer twice.
-/

namespace BadgeKeeper

/-- The client of a fresh process on a device that holds these rows. -/
def World.launch (rows : List BKEntityReward) (faults : List Bool) : World :=
  { World.initial with realm := ⟨rows, [], false, faults⟩ }

section

variable [NumberFormat]

def World.attemptCall (w : World) (call : Call) (action : ObjC Unit) :
    Option (EStateM.Result NSException World Unit) :=
  if call.id ∈ w.calls then none else some (action.run (w.register call))

/-- How an event ends, with its exception if it raises. There is no result for
a call that has been made before and for an answer to no task in flight. -/
def World.attempt (w : World) : Event → Option (EStateM.Result NSException World Unit)
  | .setProjectId projectId => some (.ok () { w with projectId := projectId })
  | .setUserId userId => some (.ok () { w with userId := userId })
  | .setShouldLoadIcons shouldLoadIcons =>
      some (.ok () { w with shouldLoadIcons := shouldLoadIcons })
  | .prepare kind value key => some ((prepareEvent value key kind).run w)
  | .flush kind target call => w.attemptCall call (flushEvent call kind target)
  | .getProjectAchievements call =>
      w.attemptCall call (BadgeKeeper.getProjectAchievements call)
  | .getUserAchievements call => w.attemptCall call (BadgeKeeper.getUserAchievements call)
  | .complete call completion =>
      (taskOf w.session call).map fun task =>
        (handler task completion).run
          { w with
            session := w.session.eraseP fun task => task.call.id = call
            completed := w.completed ++ [(task, completion)] }

/-- The task and the completion that an event hands to the handler. -/
def World.handling (w : World) : Event → Option (DataTask × Completion)
  | .complete call completion =>
      (taskOf w.session call).map fun task => (task, completion)
  | .setProjectId _ | .setUserId _ | .setShouldLoadIcons _ | .prepare _ _ _ | .flush _ _ _
  | .getProjectAchievements _ | .getUserAchievements _ => none

end

/-- A device with the app installed. -/
structure Device where
  /-- The rows on disk. -/
  rows : List BKEntityReward
  /-- The client of the running process. -/
  process : Option World
  /-- The completions handled so far, in all processes, and whether the
  handler returned. -/
  handled : List ((DataTask × Completion) × Bool)

inductive DeviceEvent where
  | launch (faults : List Bool)
  | client (event : Event)
  | kill

def Device.fresh : Device := ⟨[], none, []⟩

/-- The device after a step of its process: an exception ends the process. -/
def Device.after (d : Device) (handled : Option (DataTask × Completion)) :
    EStateM.Result NSException World Unit → Device
  | .ok _ w => ⟨w.realm.rows, some w, d.handled ++ handled.toList.map (·, true)⟩
  | .error _ w => ⟨w.realm.rows, none, d.handled ++ handled.toList.map (·, false)⟩

def Device.step [NumberFormat] (d : Device) : DeviceEvent → Option Device
  | .launch faults =>
      match d.process with
      | none => some { d with process := some (World.launch d.rows faults) }
      | some _ => none
  | .client event =>
      d.process.bind fun w => (w.attempt event).map (d.after (w.handling event))
  | .kill =>
      match d.process with
      | none => none
      | some _ => some { d with process := none }

def Device.run [NumberFormat] : Device → List DeviceEvent → Option Device :=
  Machine.run Device.step

section

variable [NumberFormat] {w : World}

theorem World.step_eq_attempt (w : World) (e : Event) :
    w.step e = (w.attempt e).bind finished := by
  cases e with
  | complete call completion =>
      simp only [World.step, World.complete, World.attempt, taskOf]
      cases w.session.find? fun task => task.call.id = call <;> rfl
  | flush kind target call =>
      simp only [World.step, World.makeCall, World.attempt, World.attemptCall]
      split <;> rfl
  | getProjectAchievements call =>
      simp only [World.step, World.makeCall, World.attempt, World.attemptCall]
      split <;> rfl
  | getUserAchievements call =>
      simp only [World.step, World.makeCall, World.attempt, World.attemptCall]
      split <;> rfl
  | _ => rfl

theorem World.step_of_attempt {e : Event} {value : Unit} {next : World}
    (hattempt : w.attempt e = some (.ok value next)) : w.step e = some next := by
  rw [World.step_eq_attempt, hattempt]
  rfl

omit [NumberFormat] in
theorem prepareEvent_run_nil_eq (kind : Kind) (value : Double) (key : NSString)
    (huser : w.userId = none) :
    ∃ arrays, (prepareEvent value key kind).run w =
      .error .invalidArgument { w with allocated := w.allocated + 1, arrays := arrays } := by
  simp only [prepareEvent_eq, prepareValue]
  exact ⟨_, by simp [huser]; rfl⟩

omit [NumberFormat] in
/-- The rewards of one response are saved in order, up to the first failure. -/
theorem saveRewardsForUser_rows (user : Option NSString)
    (list : List BKUnlockedAchievement) {realm : RLMRealm}
    (hclosed : realm.inWriteTransaction = false) :
    ∃ final saved, final.rows = realm.rows ++ saved ∧
      saved <+: (rewardsOf list).map (BKReward.row user) ∧
      ((saveRewardsForUser user list).run realm = .ok () final ∧
          final.inWriteTransaction = false ∧
          saved = (rewardsOf list).map (BKReward.row user) ∨
        ∃ exception, (saveRewardsForUser user list).run realm = .error exception final) := by
  have hshorter (faults : List Bool) (rewards : List BKReward) :
      beforeFailure faults rewards <+: rewards := by
    induction rewards generalizing faults with
    | nil => exact List.prefix_refl _
    | cons reward rest ih =>
        unfold beforeFailure
        split
        · exact List.nil_prefix
        · exact (List.prefix_cons_inj reward).mpr (ih _)
  rw [saveRewardsForUser_eq]
  obtain ⟨final, hcases, hrows⟩ := saveRewards_run user (rewardsOf list) hclosed
  refine ⟨final, _, hrows, (hshorter _ _).map _, ?_⟩
  rcases hcases with ⟨hok, hall, hdone⟩ | ⟨exception, herror, _⟩
  · exact .inl ⟨hok, hdone, by rw [hall]⟩
  · exact .inr ⟨exception, herror⟩

/-- A flush never raises. -/
theorem flushForUserId_returns (w : World) (kind : Kind) (userId : Option NSString)
    (call : Call) : ∃ next, (flushForUserId userId call kind).run w = .ok () next := by
  cases hresolve : userId with
  | none =>
      exact ⟨w, flushForUserId_run_nothing w kind call none (by simp)⟩
  | some user =>
      cases hpending : w.pending kind user with
      | nil =>
          refine ⟨w, flushForUserId_run_nothing w kind call (some user) ?_⟩
          rintro _ ⟨⟩
          exact hpending
      | cons pair rest =>
          have hsome : w.pending kind user ≠ [] := by simp [hpending]
          obtain ⟨array, hentry, hget⟩ := World.exists_array hsome
          exact ⟨_, flushForUserId_run_pending w kind call hentry hget⟩

/-- The calls of the client leave the store alone when they raise. -/
theorem World.attempt_error {e : Event} {exception : NSException} {next : World}
    (hcall : e.completion? = none) (hattempt : w.attempt e = some (.error exception next)) :
    next.realm = w.realm := by
  cases e with
  | setProjectId _ | setUserId _ | setShouldLoadIcons _ => cases hattempt
  | prepare kind value key =>
      cases huser : w.userId with
      | none =>
          obtain ⟨arrays, hrun⟩ := prepareEvent_run_nil_eq kind value key huser
          rw [World.attempt, hrun] at hattempt
          cases hattempt
          rfl
      | some user =>
          rw [World.attempt, prepareEvent_run w kind value key huser] at hattempt
          cases hattempt
  | flush kind target call =>
      simp only [World.attempt, World.attemptCall] at hattempt
      split_ifs at hattempt
      rw [flushEvent_run] at hattempt
      obtain ⟨final, hreturns⟩ := flushForUserId_returns (w.register call) kind
        (target.resolve (w.register call)) call
      rw [hreturns] at hattempt
      cases hattempt
  | getProjectAchievements call | getUserAchievements call =>
      simp only [World.attempt, World.attemptCall] at hattempt
      split_ifs at hattempt
      cases hattempt
  | complete id completion => cases hcall

/-- What an event that is to save some rows does to the table: it saves them all
when it returns, and the first few of them when it raises. -/
def SavedBy (rows delivered saved : List BKEntityReward) :
    EStateM.Result NSException World Unit → Prop
  | .ok _ next =>
      saved = delivered ∧ next.realm.rows = rows ++ saved ∧
        next.realm.inWriteTransaction = false
  | .error _ next => saved <+: delivered ∧ next.realm.rows = rows ++ saved

theorem handler_rows {task : DataTask}
    (hcaptured : task.internalCallback = task.request.internalCallback)
    (howned : task.request.pairs?.isSome = task.request.channel?.isSome)
    (hclosed : w.realm.inWriteTransaction = false) (completion : Completion) :
    ∃ saved, SavedBy w.realm.rows (task.delivered completion) saved
      ((handler task completion).run w) := by
  have hdelivered := readReaction_rows hcaptured howned completion
  rw [handler_run]
  cases hreaction : task.reaction completion with
  | error exception => exact ⟨[], List.nil_prefix, (List.append_nil _).symm⟩
  | ok reaction =>
      obtain ⟨_, rfl⟩ := task.decodes_reaction.eq_ok_iff.mp hreaction
      obtain ⟨final, saved, hrows, hshort, hcases⟩ := saveRewardsForUser_rows
        (task.readReaction completion).user (task.readReaction completion).unlocked hclosed
      rw [hdelivered] at hshort hcases
      refine ⟨saved, ?_⟩
      simp only [Reaction.perform_run]
      rcases hcases with ⟨hok, hdone, hall⟩ | ⟨exception, herror⟩
      · rw [hok]
        exact ⟨hall, hrows, hdone⟩
      · rw [herror]
        exact ⟨hshort, hrows⟩

/-- The rows that an event is to save. -/
def World.delivers (w : World) (e : Event) : List BKEntityReward :=
  (w.handling e).elim [] fun entry => entry.1.delivered entry.2

theorem World.attempt_rows {e : Event} {result : EStateM.Result NSException World Unit}
    (hled : w.Ledger) (hclosed : w.realm.inWriteTransaction = false)
    (hattempt : w.attempt e = some result) :
    ∃ saved, SavedBy w.realm.rows (w.delivers e) saved result := by
  cases e with
  | complete id completion =>
      obtain ⟨task, hfind, rfl⟩ := Option.map_eq_some_iff.mp hattempt
      have hsent : task ∈ w.requests :=
        hled.conserved.mem_iff.mpr (List.mem_append_left _ (List.mem_of_find?_eq_some hfind))
      have hdelivers : w.delivers (.complete id completion) = task.delivered completion := by
        simp [World.delivers, World.handling, hfind]
      let handed : World :=
        { w with
          session := w.session.eraseP fun task => task.call.id = id
          completed := w.completed ++ [(task, completion)] }
      have hhanded : handed.realm.inWriteTransaction = false := hclosed
      rw [hdelivers]
      exact handler_rows (hled.captured task hsent) (hled.owned task hsent) hhanded completion
  | _ =>
      refine ⟨[], ?_⟩
      cases result with
      | ok value next =>
          obtain ⟨hrealm, _⟩ := World.step_frame (World.step_of_attempt hattempt) (by simp)
          refine ⟨rfl, ?_, ?_⟩
          · rw [hrealm, List.append_nil]
          · rw [hrealm, hclosed]
      | error exception next =>
          have hrealm := World.attempt_error rfl hattempt
          exact ⟨List.nil_prefix, by rw [hrealm, List.append_nil]⟩

end

/-- What a handled completion has left in the table. -/
def Saved [NumberFormat] (entry : (DataTask × Completion) × Bool) (saved : List BKEntityReward) :
    Prop :=
  saved <+: entry.1.1.delivered entry.1.2 ∧
    (entry.2 = true → saved = entry.1.1.delivered entry.1.2)

structure Device.Sound [NumberFormat] (d : Device) : Prop where
  process : ∀ w, d.process = some w →
    (w.Inv ∧ w.Ledger) ∧ w.realm.rows = d.rows ∧ w.realm.inWriteTransaction = false
  rows : ∃ saved, List.Forall₂ Saved d.handled saved ∧ d.rows = saved.flatten

section

variable [NumberFormat] {d next : Device}

theorem World.launch_sound (rows : List BKEntityReward) (faults : List Bool) :
    (World.launch rows faults).Inv ∧ (World.launch rows faults).Ledger :=
  ⟨World.inv_congr World.initial_inv rfl rfl rfl rfl,
    World.ledger_congr World.initial_ledger (fun _ _ _ _ => rfl) rfl rfl rfl
      (List.Subset.refl _)⟩

/-- One more completion handled, or none. -/
theorem saved_append {handled : List ((DataTask × Completion) × Bool)}
    {saved : List (List BKEntityReward)} (hsaved : List.Forall₂ Saved handled saved)
    (entry : Option (DataTask × Completion)) (returned : Bool) {rows : List BKEntityReward}
    (hshort : rows <+: entry.elim [] fun entry => entry.1.delivered entry.2)
    (hall : returned = true → rows = entry.elim [] fun entry => entry.1.delivered entry.2) :
    ∃ more, List.Forall₂ Saved (handled ++ entry.toList.map (·, returned)) more ∧
      saved.flatten ++ rows = more.flatten := by
  cases entry with
  | none =>
      refine ⟨saved, by simpa using hsaved, ?_⟩
      rw [List.prefix_nil.mp hshort, List.append_nil]
  | some entry =>
      refine ⟨saved ++ [rows], List.rel_append hsaved (.cons ⟨hshort, hall⟩ .nil), ?_⟩
      rw [List.flatten_append, List.flatten_singleton]

theorem Device.client_sound {w : World} {e : Event}
    {result : EStateM.Result NSException World Unit} (hsound : d.Sound)
    (hprocess : d.process = some w) (hattempt : w.attempt e = some result) :
    (d.after (w.handling e) result).Sound := by
  obtain ⟨hworld, hsame, hclosed⟩ := hsound.process w hprocess
  obtain ⟨before, hbefore, hrows⟩ := hsound.rows
  obtain ⟨saved, hsaved⟩ := World.attempt_rows hworld.2 hclosed hattempt
  cases result with
  | ok value next =>
      obtain ⟨hall, hnext, hdone⟩ := hsaved
      constructor
      · rintro _ ⟨⟩
        exact ⟨World.step_sound hworld (World.step_of_attempt hattempt), rfl, hdone⟩
      · obtain ⟨more, hmore, hflat⟩ := saved_append hbefore (w.handling e) true
          (hall ▸ List.prefix_refl _) (fun _ => hall)
        refine ⟨more, hmore, ?_⟩
        rw [← hflat, ← hrows, ← hsame]
        exact hnext
  | error exception next =>
      obtain ⟨hshort, hnext⟩ := hsaved
      constructor
      · rintro _ ⟨⟩
      · obtain ⟨more, hmore, hflat⟩ := saved_append hbefore (w.handling e) false hshort
          (fun hreturned => nomatch hreturned)
        refine ⟨more, hmore, ?_⟩
        rw [← hflat, ← hrows, ← hsame]
        exact hnext

theorem Device.step_sound {e : DeviceEvent} (hsound : d.Sound) (hstep : d.step e = some next) :
    next.Sound := by
  cases e with
  | launch faults =>
      cases hprocess : d.process with
      | some w => simp [Device.step, hprocess] at hstep
      | none =>
          simp only [Device.step, hprocess, Option.some.injEq] at hstep
          subst hstep
          refine ⟨?_, hsound.rows⟩
          rintro _ ⟨⟩
          exact ⟨World.launch_sound d.rows faults, rfl, rfl⟩
  | client event =>
      obtain ⟨w, hprocess, hattempt⟩ := Option.bind_eq_some_iff.mp hstep
      obtain ⟨result, hresult, rfl⟩ := Option.map_eq_some_iff.mp hattempt
      exact Device.client_sound hsound hprocess hresult
  | kill =>
      cases hprocess : d.process with
      | none => simp [Device.step, hprocess] at hstep
      | some w =>
          simp only [Device.step, hprocess, Option.some.injEq] at hstep
          subst hstep
          refine ⟨?_, hsound.rows⟩
          rintro _ ⟨⟩

end

end BadgeKeeper
