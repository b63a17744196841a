import Mathlib.Tactic

/-!
Deterministic machines with refused events. A step either yields the next
state or refuses the event, and a run is a list of accepted events. This
module packages the inductions used by the larger developments: invariants
over runs, runs in lockstep, and the unwinding argument which compares a run
with the same run after some of its events have been removed.
-/

namespace Machine

variable {σ ε : Type*}

/-- The state after a list of events, or `none` as soon as one is refused. -/
def run (step : σ → ε → Option σ) : σ → List ε → Option σ
  | s, [] => some s
  | s, e :: es => (step s e).bind fun next => run step next es

section

variable {step : σ → ε → Option σ}

theorem run_cons_eq_some {s final : σ} {e : ε} {es : List ε} :
    run step s (e :: es) = some final ↔
      ∃ next, step s e = some next ∧ run step next es = some final := by
  simp [run, Option.bind_eq_some_iff]

theorem run_append (s : σ) (first second : List ε) :
    run step s (first ++ second) =
      (run step s first).bind fun middle => run step middle second := by
  induction first generalizing s with
  | nil => rfl
  | cons e rest ih =>
      simp only [List.cons_append, run, Option.bind_assoc]
      exact congrArg (Option.bind (step s e)) (funext ih)

theorem run_append_eq_some {s final : σ} {first second : List ε} :
    run step s (first ++ second) = some final ↔
      ∃ middle, run step s first = some middle ∧ run step middle second = some final := by
  rw [run_append, Option.bind_eq_some_iff]

/-- A property kept by every accepted event is kept by every run. -/
theorem run_invariant {P : σ → Prop}
    (hstep : ∀ s e next, P s → step s e = some next → P next)
    {s final : σ} {es : List ε} (hstart : P s)
    (hrun : run step s es = some final) : P final := by
  induction es generalizing s with
  | nil =>
      cases hrun
      exact hstart
  | cons e rest ih =>
      obtain ⟨next, hnext, hrest⟩ := run_cons_eq_some.mp hrun
      exact ih (hstep s e next hstart hnext) hrest

/-- Two machines that go from related states to related states, and refuse
related events together, do so in every run. -/
theorem run_related {τ δ : Type*} {step' : τ → δ → Option τ} {f : ε → δ} {R : σ → τ → Prop}
    (hstep : ∀ s t e, R s t → Option.Rel R (step s e) (step' t (f e))) {s : σ} {t : τ}
    (hstart : R s t) (es : List ε) :
    Option.Rel R (run step s es) (run step' t (es.map f)) := by
  induction es generalizing s t with
  | nil => exact .some hstart
  | cons e rest ih =>
      simp only [List.map_cons, run]
      have hnext := hstep s t e hstart
      revert hnext
      generalize step s e = next
      generalize step' t (f e) = next'
      intro hnext
      cases hnext with
      | none => exact .none
      | some hrelated => exact ih hrelated

/-- A condition on events, in each state that a run meets them in. -/
def Along (step : σ → ε → Option σ) (G : σ → ε → Prop) : σ → List ε → Prop
  | _, [] => True
  | s, e :: es => G s e ∧ ∀ next, step s e = some next → Along step G next es

theorem Along.cons {step : σ → ε → Option σ} {G : σ → ε → Prop} {s next : σ} {e : ε}
    {es : List ε} (hguard : G s e) (hstep : step s e = some next)
    (hlater : Along step G next es) : Along step G s (e :: es) := by
  refine ⟨hguard, fun other hother => ?_⟩
  obtain rfl := Option.some.inj (hstep.symm.trans hother)
  exact hlater

/-- Where an abstraction commutes with each step under the condition, the run seen
through the abstraction is the run of the abstract machine. -/
theorem run_abstraction {τ δ : Type*} {step' : τ → δ → Option τ} (abstract : σ → τ)
    (concrete : δ → ε) {P : σ → Prop} {G : τ → δ → Prop}
    (hkeep : ∀ s e next, P s → step s e = some next → P next)
    (hstep : ∀ s d, P s → G (abstract s) d →
      (step s (concrete d)).map abstract = step' (abstract s) d)
    {s : σ} {ds : List δ} (hs : P s) (hguard : Along step' G (abstract s) ds) :
    (run step s (ds.map concrete)).map abstract = run step' (abstract s) ds := by
  induction ds generalizing s with
  | nil => rfl
  | cons d rest ih =>
      obtain ⟨hd, hlater⟩ := hguard
      have hone := hstep s d hs hd
      rw [List.map_cons, run, run, ← hone]
      cases hnext : step s (concrete d) with
      | none => rfl
      | some next =>
          rw [hnext] at hone
          exact ih (hkeep s _ next hs hnext) (hlater _ hone.symm)

/-- The events of a run that are not hidden in the state they happen in. -/
def purge (step : σ → ε → Option σ) (hidden : σ → ε → Bool) : σ → List ε → List ε
  | _, [] => []
  | s, e :: es =>
      match step s e with
      | none => []
      | some next =>
          if hidden s e then purge step hidden next es
          else e :: purge step hidden next es

/-- Unwinding: when hidden events keep the relation on the left alone and
every other event can be repeated on the right, the purged run exists and
ends in a related state. -/
theorem unwinding {hidden : σ → ε → Bool} {R : σ → σ → Prop}
    (hhidden : ∀ s t e next, R s t → step s e = some next →
      hidden s e = true → R next t)
    (hkept : ∀ s t e next, R s t → step s e = some next →
      hidden s e = false → ∃ next', step t e = some next' ∧ R next next')
    {s t final : σ} {es : List ε} (hstart : R s t)
    (hrun : run step s es = some final) :
    ∃ final', run step t (purge step hidden s es) = some final' ∧
      R final final' := by
  induction es generalizing s t with
  | nil =>
      cases hrun
      exact ⟨t, rfl, hstart⟩
  | cons e rest ih =>
      obtain ⟨next, hnext, hrest⟩ := run_cons_eq_some.mp hrun
      cases hid : hidden s e with
      | true =>
          obtain ⟨final', hfinal, hrel⟩ :=
            ih (hhidden s t e next hstart hnext hid) hrest
          exact ⟨final', by simpa [purge, hnext, hid] using hfinal, hrel⟩
      | false =>
          obtain ⟨next', hnext', hrel'⟩ := hkept s t e next hstart hnext hid
          obtain ⟨final', hfinal, hrel⟩ := ih hrel' hrest
          refine ⟨final', ?_, hrel⟩
          simp only [purge, hnext, hid]
          exact run_cons_eq_some.mpr ⟨next', hnext', hfinal⟩

/-- Hiding by the event alone leaves the other events of an accepted run. -/
theorem purge_eq_filter {hidden : ε → Bool} {s final : σ} {es : List ε}
    (hrun : run step s es = some final) :
    purge step (fun _ => hidden) s es = es.filter fun e => !hidden e := by
  induction es generalizing s with
  | nil => rfl
  | cons e rest ih =>
      obtain ⟨next, hnext, hrest⟩ := run_cons_eq_some.mp hrun
      cases hid : hidden e with
      | true => simpa [purge, hnext, hid] using ih hrest
      | false => simpa [purge, hnext, hid] using ih hrest

end

end Machine
