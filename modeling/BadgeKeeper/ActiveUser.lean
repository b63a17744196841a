import BadgeKeeper.Conservation

/-!
The user id of a flush. The header of the client says that nil stands for the
active user, but both flush operations look nil up as it is, which finds no
array. So a flush for nil never sends anything, and it is the same as a flush
for the active user only when nothing waits for that user.
-/

namespace BadgeKeeper

/-- Two worlds that nobody outside the client can tell apart: the requests on
the wire, the waiting values, the callbacks and the rewards are the same. -/
structure World.SameEffect (w w' : World) : Prop where
  requests : w.requests.map DataTask.urlRequest = w'.requests.map DataTask.urlRequest
  pending : ∀ kind user,
    (w.pending kind user).map BKPair.entry = (w'.pending kind user).map BKPair.entry
  callbacks : w.callbacks = w'.callbacks
  rewards : w.realm.rows = w'.realm.rows

theorem World.SameEffect.refl (w : World) : w.SameEffect w :=
  ⟨rfl, fun _ _ => rfl, rfl, rfl⟩

section

variable [NumberFormat] {w : World} {kind : Kind} {user : NSString} {call : Call}

/-- A flush for nil only registers the call. -/
theorem step_flush_nil (hfresh : call.id ∉ w.calls) :
    w.step (.flush kind (.user none) call) = some (w.register call) := by
  apply step_flush_eq_some.mpr
  refine ⟨hfresh, .inl ⟨?_, rfl⟩⟩
  intro other hother
  cases hother

/-- So does a flush for a user with nothing pending. -/
theorem step_flush_nothing (hfresh : call.id ∉ w.calls) (hnothing : w.pending kind user = []) :
    w.step (.flush kind (.user (some user)) call) = some (w.register call) := by
  apply step_flush_eq_some.mpr
  refine ⟨hfresh, .inl ⟨?_, rfl⟩⟩
  intro other hother
  cases hother
  exact hnothing

/-- A flush for a user with something pending sends one request. -/
theorem step_flush_something (hfresh : call.id ∉ w.calls)
    (hsome : w.pending kind user ≠ []) :
    ∃ next, w.step (.flush kind (.user (some user)) call) = some next ∧
      next.requests.length = w.requests.length + 1 := by
  obtain ⟨array, hentry, hget⟩ := World.exists_array hsome
  refine ⟨_, step_flush_eq_some.mpr ⟨hfresh, .inr ⟨user, array, rfl, hentry, hget, rfl⟩⟩, ?_⟩
  rw [World.requests_afterFlush]
  simp [World.register]

/-- When something waits, the two flushes can be told apart at once. -/
theorem flush_nil_differs (hfresh : call.id ∉ w.calls) (hsome : w.pending kind user ≠ []) :
    ¬ Option.Rel World.SameEffect (w.run [.flush kind (.user none) call])
      (w.run [.flush kind (.user (some user)) call]) := by
  intro hsame
  have hnil : w.step (.flush kind (.user none) call) = some (w.register call) :=
    step_flush_nil hfresh
  obtain ⟨next, hnext, hsent⟩ := step_flush_something hfresh hsome
  simp only [World.run, Machine.run, hnil, hnext, Option.bind_some] at hsame
  cases hsame with
  | some heffect =>
      have hlength := congrArg List.length heffect.requests
      simp only [List.length_map] at hlength
      change w.requests.length = _ at hlength
      omega

/-- In any state with an active user, a flush for nil has the effect of a flush
for the active user, now and whatever happens later, if and only if nothing
waits for that user. -/
theorem nil_user_is_active_iff (hactive : w.userId = some user) (hfresh : call.id ∉ w.calls) :
    (∀ later, Option.Rel World.SameEffect
        (w.run (.flush kind (.user none) call :: later))
        (w.run (.flush kind (.user w.userId) call :: later))) ↔
      w.pending kind user = [] := by
  rw [hactive]
  constructor
  · intro hsame
    by_contra hsome
    exact flush_nil_differs hfresh hsome (hsame [])
  · intro hnothing later
    have hnil : w.step (.flush kind (.user none) call) = some (w.register call) :=
      step_flush_nil hfresh
    have hnamed := step_flush_nothing hfresh hnothing
    simp only [World.run, Machine.run, hnil, hnamed, Option.bind_some]
    cases Machine.run World.step (w.register call) later with
    | none => exact .none
    | some final => exact .some (World.SameEffect.refl final)

end

/-- Ann is the active user; her increment is waiting, and no post. -/
def waitingIncrement : List Event :=
  [.setUserId (some (ns "ann")), .prepare .increment Double.one (ns "wins")]

theorem nil_user_is_active_iff_waiting_increment :
    letI := NumberFormat.numerals
    ∃ w, World.initial.run waitingIncrement = some w ∧
      ((∀ later, Option.Rel World.SameEffect
          (w.run (.flush .post (.user none) ⟨0, true, true⟩ :: later))
          (w.run (.flush .post (.user w.userId) ⟨0, true, true⟩ :: later))) ↔
        w.pending .post (ns "ann") = []) :=
  letI := NumberFormat.numerals
  ⟨_, rfl, nil_user_is_active_iff rfl List.not_mem_nil⟩

/-- A flush for nil leaves the increment of the active user unsent. -/
theorem nil_flush_sends_nothing :
    letI := NumberFormat.numerals
    ∃ w call later, World.initial.run waitingIncrement = some w ∧
      w.userId = some (ns "ann") ∧ call.id ∉ w.calls ∧
      ¬ Option.Rel World.SameEffect
          (w.run (.flush .increment (.user none) call :: later))
          (w.run (.flush .increment (.user w.userId) call :: later)) :=
  letI := NumberFormat.numerals
  ⟨_, ⟨0, true, true⟩, [], rfl, rfl, List.not_mem_nil,
    flush_nil_differs List.not_mem_nil (by decide)⟩

end BadgeKeeper
