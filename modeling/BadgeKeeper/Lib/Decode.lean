import Mathlib.Tactic

/-!
Decoders with one way to fail. `Decodes f shape read e` splits a decoder into
the inputs that it accepts and the value that it reads from them; a decoder
for a list or for a part of a larger input is put together from those of its
pieces.
-/

/-- `f` reads `read a` from every `a` of the right shape and fails on the rest. -/
def Decodes {α β ε : Type*} (f : α → Except ε β) (shape : α → Bool) (read : α → β)
    (e : ε) : Prop :=
  ∀ a, f a = bif shape a then .ok (read a) else .error e

namespace Decodes

variable {α β ε : Type*} {f : α → Except ε β} {shape : α → Bool} {read : α → β} {e : ε}

theorem of_shape (h : Decodes f shape read e) {a : α} (ha : shape a = true) :
    f a = .ok (read a) := by
  rw [h a, ha]
  rfl

theorem of_not_shape (h : Decodes f shape read e) {a : α} (ha : shape a = false) :
    f a = .error e := by
  rw [h a, ha]
  rfl

theorem eq_ok_iff (h : Decodes f shape read e) {a : α} {b : β} :
    f a = .ok b ↔ shape a = true ∧ read a = b := by
  cases ha : shape a with
  | true => simp [h.of_shape ha]
  | false => simp [h.of_not_shape ha]

/-- A decoder as the first step of another one. -/
theorem bind {γ : Type*} (h : Decodes f shape read e) (a : α) (k : β → Except ε γ) :
    (f a).bind k = bif shape a then k (read a) else .error e := by
  cases ha : shape a with
  | true => rw [h.of_shape ha]; rfl
  | false => rw [h.of_not_shape ha]; rfl

/-- A list is accepted when all of its elements are. -/
theorem list (h : Decodes f shape read e) :
    Decodes (fun items : List α => items.mapM f) (fun items => items.all shape)
      (fun items => items.map read) e := by
  intro items
  induction items with
  | nil => rfl
  | cons item rest ih =>
      dsimp only at ih ⊢
      cases hitem : shape item with
      | false =>
          rw [List.mapM_cons, h.of_not_shape hitem, List.all_cons, hitem]
          rfl
      | true =>
          rw [List.mapM_cons, h.of_shape hitem, ih, List.all_cons, hitem, Bool.true_and]
          cases rest.all shape <;> rfl

end Decodes
