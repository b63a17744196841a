import BadgeKeeper.Ledger

/-!
Conservation of prepared values over whole runs. For each kind and user, the
pairs of the requests sent so far followed by the pairs still waiting are the
values prepared while that user was active, in that order. Where a request is
in flight or has completed, the same values split accordingly; since a flush
removes its pairs before the request is sent and no completion brings them
back, a failed change request is exactly what loses values.
-/

namespace BadgeKeeper

/-- The active user after an event. -/
def Event.userAfter (active : Option NSString) : Event → Option NSString
  | .setUserId userId => userId
  | _ => active

/-- What an event prepares with a kind for a user. -/
def Event.prepares (kind : Kind) (user : NSString) (active : Option NSString) :
    Event → List (NSString × Double)
  | .prepare prepared value key =>
      if prepared = kind ∧ active = some user then [(key, value)] else []
  | _ => []

/-- The keys and values prepared with a kind while a user is the active one,
in the order of the run. -/
def preparedFor (kind : Kind) (user : NSString) :
    Option NSString → List Event → List (NSString × Double)
  | _, [] => []
  | active, e :: es =>
      e.prepares kind user active ++ preparedFor kind user (e.userAfter active) es

/-- The pairs that some of the requests carry for a channel. -/
def World.carried (w : World) (tasks : List DataTask) (channel : Channel) :
    List BKPair :=
  (tasks.filter fun task => task.request.channel? = some channel).flatMap w.contents

/-- A transport error, data that does not parse, or a response whose `Error`
is neither absent nor null. -/
def Completion.failed : Completion → Bool
  | .error _ | .unparsable _ => true
  | .json value => (JSONObject.unlessNull (value.member? (ns "Error"))).isSome

def World.succeeded (w : World) : List DataTask :=
  (w.completed.filter fun entry => !entry.2.failed).map Prod.fst

def World.failed (w : World) : List DataTask :=
  (w.completed.filter fun entry => entry.2.failed).map Prod.fst

section

variable {w : World}

@[simp] theorem World.carried_append (first second : List DataTask)
    (channel : Channel) :
    w.carried (first ++ second) channel =
      w.carried first channel ++ w.carried second channel := by
  simp [World.carried]

theorem World.carried_perm {first second : List DataTask} (h : first.Perm second)
    (channel : Channel) :
    (w.carried first channel).Perm (w.carried second channel) :=
  (h.filter _).flatMap_right _

theorem World.sentTo_outbox (w : World) (tasks : List DataTask) (channel : Channel) :
    Outbox.sentTo channel (tasks.filterMap w.batch?) = w.carried tasks channel := by
  induction tasks with
  | nil => rfl
  | cons task rest ih =>
      have hsplit : w.carried (task :: rest) channel =
          w.carried [task] channel ++ w.carried rest channel := by
        simpa using World.carried_append (w := w) [task] rest channel
      rw [hsplit, ← ih]
      cases hchannel : task.request.channel? with
      | none => simp [World.batch?, World.carried, hchannel]
      | some other =>
          by_cases hsame : other = channel
          · simp [World.batch?, World.carried, hchannel, hsame, Outbox.sentTo]
          · simp [World.batch?, World.carried, hchannel, hsame, Outbox.sentTo]

theorem World.taken_outbox (w : World) (kind : Kind) (user : NSString) :
    Outbox.taken w.outbox (kind, user) =
      w.carried w.requests (kind, user) ++ w.pending kind user := by
  simp [Outbox.taken, World.outbox, World.sentTo_outbox]

variable [NumberFormat]

def World.run : World → List Event → Option World := Machine.run World.step

theorem World.step_userId {w' : World} {e : Event} (hstep : w.step e = some w') :
    w'.userId = e.userAfter w.userId := by
  cases e with
  | setProjectId _ | setUserId _ | setShouldLoadIcons _ =>
      cases hstep
      rfl
  | prepare kind value key =>
      obtain ⟨user, _, rfl⟩ := step_prepare_eq_some.mp hstep
      obtain ⟨_, _, _, heq⟩ := w.afterPrepare_eq kind user ⟨w.allocated, key, value⟩
      rw [heq]
      rfl
  | flush kind target call =>
      obtain ⟨_, ⟨_, rfl⟩ | ⟨user, array, _, _, _, rfl⟩⟩ := step_flush_eq_some.mp hstep
      · rfl
      · cases kind <;> rfl
  | getProjectAchievements call =>
      obtain ⟨_, rfl⟩ := step_getProjectAchievements_eq_some.mp hstep
      rfl
  | getUserAchievements call =>
      obtain ⟨_, rfl⟩ := step_getUserAchievements_eq_some.mp hstep
      rfl
  | complete id completion =>
      obtain ⟨_, _, _, _, _, _, rfl⟩ := step_complete_eq_some.mp hstep
      rfl

/-- The moves of an event put exactly what it prepares. -/
theorem Event.puts_moves {w' : World} {e : Event} (hstep : w.step e = some w')
    (kind : Kind) (user : NSString) :
    ((e.moves w).flatMap (Outbox.Op.puts (kind, user))).map BKPair.entry =
      e.prepares kind user w.userId := by
  cases e with
  | prepare prepared value key =>
      obtain ⟨active, hactive, _⟩ := step_prepare_eq_some.mp hstep
      by_cases hsame : prepared = kind ∧ active = user
      · obtain ⟨rfl, rfl⟩ := hsame
        simp [Event.moves, Event.prepares, hactive, Outbox.Op.puts, BKPair.entry]
      · simp [Event.moves, Event.prepares, hactive, Outbox.Op.puts, hsame]
  | flush kind' target call =>
      cases hresolve : target.resolve w <;>
        simp [Event.moves, Event.prepares, hresolve, Outbox.Op.puts]
  | setProjectId _ | setUserId _ | setShouldLoadIcons _ | getProjectAchievements _
  | getUserAchievements _ | complete _ _ => rfl

theorem World.step_sound {w' : World} {e : Event} (hsound : w.Inv ∧ w.Ledger)
    (hstep : w.step e = some w') : w'.Inv ∧ w'.Ledger :=
  ⟨(World.step_refines hsound.1 hstep).1,
    World.step_ledger hsound.1 hsound.2 hstep⟩

theorem World.run_sound {w' : World} {es : List Event} (hsound : w.Inv ∧ w.Ledger)
    (hrun : w.run es = some w') : w'.Inv ∧ w'.Ledger :=
  Machine.run_invariant (fun _ _ _ => World.step_sound) hsound hrun

theorem World.reachable_sound {es : List Event} (hrun : World.initial.run es = some w) :
    w.Inv ∧ w.Ledger :=
  World.run_sound ⟨World.initial_inv, World.initial_ledger⟩ hrun

theorem World.run_taken {w' : World} {es : List Event} (hinv : w.Inv)
    (hrun : w.run es = some w') (kind : Kind) (user : NSString) :
    (Outbox.taken w'.outbox (kind, user)).map BKPair.entry =
      (Outbox.taken w.outbox (kind, user)).map BKPair.entry ++
        preparedFor kind user w.userId es := by
  induction es generalizing w with
  | nil =>
      cases hrun
      simp [preparedFor]
  | cons e rest ih =>
      obtain ⟨next, hnext, hrest⟩ := Machine.run_cons_eq_some.mp hrun
      obtain ⟨hinv', houtbox⟩ := World.step_refines hinv hnext
      have htail := ih hinv' hrest
      rw [htail, houtbox, Outbox.run_taken, List.map_append, Event.puts_moves hnext,
        World.step_userId hnext, List.append_assoc]
      rfl

/-- No batch of a reachable world is empty. -/
theorem World.run_sent_nonempty {w' : World} {es : List Event} (hinv : w.Inv)
    (hsent : ∀ batch ∈ w.outbox.sent, batch.2 ≠ []) (hrun : w.run es = some w') :
    ∀ batch ∈ w'.outbox.sent, batch.2 ≠ [] := by
  induction es generalizing w with
  | nil =>
      cases hrun
      exact hsent
  | cons e rest ih =>
      obtain ⟨next, hnext, hrest⟩ := Machine.run_cons_eq_some.mp hrun
      obtain ⟨hinv', houtbox⟩ := World.step_refines hinv hnext
      refine ih hinv' ?_ hrest
      rw [houtbox]
      generalize e.moves w = ops
      have hkeep (ops : List (Outbox.Op Channel BKPair)) (s : Outbox.State Channel BKPair)
          (hs : ∀ batch ∈ s.sent, batch.2 ≠ []) :
          ∀ batch ∈ (ops.foldl Outbox.step s).sent, batch.2 ≠ [] := by
        induction ops generalizing s with
        | nil => exact hs
        | cons op rest ihops => exact ihops _ (Outbox.step_sent_nonempty s op hs)
      exact hkeep ops _ hsent

/-- A change request of a reachable world belongs to a channel and carries at
least one pair. -/
theorem World.contents_ne_nil {es : List Event}
    (hrun : World.initial.run es = some w) {task : DataTask} (htask : task ∈ w.requests)
    (hchange : task.request.pairs?.isSome) :
    (∃ channel, task.request.channel? = some channel) ∧ w.contents task ≠ [] := by
  obtain ⟨_, hled⟩ := World.reachable_sound hrun
  rw [hled.owned task htask] at hchange
  obtain ⟨channel, hchannel⟩ := Option.isSome_iff_exists.mp hchange
  refine ⟨⟨channel, hchannel⟩, ?_⟩
  have hbatch : (channel, w.contents task) ∈ w.outbox.sent := by
    apply List.mem_filterMap.mpr
    exact ⟨task, htask, by simp [World.batch?, hchannel]⟩
  exact World.run_sent_nonempty World.initial_inv (by simp [World.outbox, World.initial])
    hrun _ hbatch

theorem World.carried_append_pending {es : List Event}
    (hrun : World.initial.run es = some w) (kind : Kind) (user : NSString) :
    (w.carried w.requests (kind, user) ++ w.pending kind user).map BKPair.entry =
      preparedFor kind user none es := by
  have hstart : Outbox.taken World.initial.outbox (kind, user) = [] := by
    cases kind <;> rfl
  have htaken := World.run_taken World.initial_inv hrun kind user
  rw [World.taken_outbox, hstart] at htaken
  exact htaken

/-- Sent pairs followed by waiting pairs are the prepared pairs, for every
kind and user of every run; and no change request is sent empty. -/
theorem prepared_values_conserved {es : List Event}
    (hrun : World.initial.run es = some w) :
    (∀ kind user,
      (w.carried w.requests (kind, user) ++ w.pending kind user).map BKPair.entry =
        preparedFor kind user none es) ∧
    ∀ task ∈ w.requests, task.request.pairs?.isSome →
      (∃ channel, task.request.channel? = some channel) ∧ w.contents task ≠ [] := by
  constructor
  · intro kind user
    exact World.carried_append_pending hrun kind user
  · intro task htask hchange
    exact World.contents_ne_nil hrun htask hchange

end

/-- Two users, both kinds, and a completion that arrives late. -/
def twoUsers : List Event :=
  [.setUserId (some (ns "ann")),
    .prepare .post Double.one (ns "gold"),
    .prepare .increment Double.one (ns "wins"),
    .flush .post .active ⟨0, true, true⟩,
    .setUserId (some (ns "bob")),
    .prepare .post Double.zero (ns "gold"),
    .flush .increment (.user (some (ns "ann"))) ⟨1, true, true⟩,
    .complete 0 (.json (.object []))]

theorem prepared_values_conserved_two_users :
    letI := NumberFormat.numerals
    ∃ w, World.initial.run twoUsers = some w ∧
      (∀ kind user,
        (w.carried w.requests (kind, user) ++ w.pending kind user).map BKPair.entry =
          preparedFor kind user none twoUsers) ∧
      ∀ task ∈ w.requests, task.request.pairs?.isSome →
        (∃ channel, task.request.channel? = some channel) ∧ w.contents task ≠ [] :=
  letI := NumberFormat.numerals
  ⟨_, rfl, prepared_values_conserved rfl⟩

section

variable {w : World}

/-- The values that are still to be sent, in flight, or sent with success. -/
def World.kept (w : World) (channel : Channel) : List BKPair :=
  w.pending channel.1 channel.2 ++ w.carried w.session channel ++
    w.carried w.succeeded channel

theorem World.completed_perm (w : World) :
    (w.completed.map Prod.fst).Perm (w.succeeded ++ w.failed) := by
  have hsplit := (List.filter_append_perm
    (fun entry : DataTask × Completion => !entry.2.failed) w.completed).map Prod.fst
  simpa [World.succeeded, World.failed] using hsplit.symm

variable [NumberFormat]

/-- Every prepared value is kept or was carried by a failed request. -/
theorem World.prepared_perm {es : List Event} (hrun : World.initial.run es = some w)
    (kind : Kind) (user : NSString) :
    (preparedFor kind user none es).Perm
      ((w.kept (kind, user) ++ w.carried w.failed (kind, user)).map BKPair.entry) := by
  obtain ⟨_, hled⟩ := World.reachable_sound hrun
  have hrequests : w.requests.Perm (w.session ++ (w.succeeded ++ w.failed)) :=
    hled.conserved.trans (w.completed_perm.append_left w.session)
  have hcarried := World.carried_perm (w := w) hrequests (kind, user)
  simp only [World.carried_append] at hcarried
  rw [← World.carried_append_pending hrun]
  apply List.Perm.map
  refine List.perm_append_comm.trans ((hcarried.append_left _).trans ?_)
  simp only [World.kept, List.append_assoc, List.Perm.refl]

/-- A failed request carries no values only if it is not a change request. -/
theorem World.carried_failed_eq_nil {es : List Event}
    (hrun : World.initial.run es = some w) :
    (∀ kind user, w.carried w.failed (kind, user) = []) ↔
      ∀ task ∈ w.failed, task.request.pairs? = none := by
  obtain ⟨_, hled⟩ := World.reachable_sound hrun
  have hsent : ∀ task ∈ w.failed, task ∈ w.requests := by
    intro task htask
    apply hled.conserved.mem_iff.mpr
    apply List.mem_append_right
    exact w.completed_perm.mem_iff.mpr (List.mem_append_right _ htask)
  constructor
  · intro hempty task htask
    by_contra hpairs
    obtain ⟨⟨⟨kind, user⟩, hchannel⟩, hcontents⟩ := World.contents_ne_nil hrun
      (hsent task htask) (Option.isSome_iff_ne_none.mpr hpairs)
    have hnone := List.flatMap_eq_nil_iff.mp (hempty kind user) task
      (List.mem_filter.mpr ⟨htask, by simpa using hchannel⟩)
    exact hcontents hnone
  · intro hgets kind user
    apply List.flatMap_eq_nil_iff.mpr
    intro task htask
    simp [World.contents, hgets task (List.mem_of_mem_filter htask)]

/-- In every reachable state, all prepared values are kept if and only if no
change request has completed with a failure. -/
theorem prepared_values_kept_iff {es : List Event}
    (hrun : World.initial.run es = some w) :
    (∀ kind user,
      (preparedFor kind user none es).Perm ((w.kept (kind, user)).map BKPair.entry)) ↔
      ∀ entry ∈ w.completed, entry.2.failed = true → entry.1.request.pairs? = none := by
  have hcondition : (∀ task ∈ w.failed, task.request.pairs? = none) ↔
      ∀ entry ∈ w.completed, entry.2.failed = true → entry.1.request.pairs? = none := by
    simp [World.failed]
  rw [← hcondition, ← World.carried_failed_eq_nil hrun]
  constructor
  · intro hkept kind user
    have hlength := ((hkept kind user).symm.trans (World.prepared_perm hrun kind user)).length_eq
    simpa using hlength
  · intro hempty kind user
    have hprepared := World.prepared_perm hrun kind user
    rwa [hempty kind user, List.append_nil] at hprepared

end

theorem prepared_values_kept_iff_two_users :
    letI := NumberFormat.numerals
    ∃ w, World.initial.run twoUsers = some w ∧
      ((∀ kind user, (preparedFor kind user none twoUsers).Perm
          ((w.kept (kind, user)).map BKPair.entry)) ↔
        ∀ entry ∈ w.completed, entry.2.failed = true →
          entry.1.request.pairs? = none) :=
  letI := NumberFormat.numerals
  ⟨_, rfl, prepared_values_kept_iff rfl⟩

/-- A transport error loses the value that the request carried. -/
theorem transport_error_loses_value :
    letI := NumberFormat.numerals
    ∃ es w, World.initial.run es = some w ∧
      ¬ ∀ kind user, (preparedFor kind user none es).Perm
        ((w.kept (kind, user)).map BKPair.entry) :=
  letI := NumberFormat.numerals
  ⟨[.setUserId (some (ns "ann")),
      .prepare .increment Double.one (ns "wins"),
      .flush .increment .active ⟨0, true, true⟩,
      .complete 0 (.error (ns "offline"))],
    _, rfl, fun hkept =>
      absurd (hkept .increment (ns "ann")).length_eq (by decide)⟩

end BadgeKeeper
