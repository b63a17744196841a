import Mathlib.Tactic

/-!
Keyed updates that arrive as batches. An overwriting store keeps for each key
the last value that arrived for it, so the order of the batches matters, but
only through the last batch that mentions the key. An accumulating store keeps
a sum in a commutative monoid, so neither the order of the updates nor the way
they are cut into batches matters.
-/

namespace Delivery

variable {K V : Type*} [DecidableEq K]

/-- The values that the entries give to one key, in order. -/
def valuesAt (key : K) (entries : List (K × V)) : List V :=
  (entries.filter fun entry => entry.1 = key).map Prod.snd

@[simp] theorem valuesAt_nil (key : K) : valuesAt key ([] : List (K × V)) = [] := rfl

@[simp] theorem valuesAt_append (key : K) (first second : List (K × V)) :
    valuesAt key (first ++ second) = valuesAt key first ++ valuesAt key second := by
  simp [valuesAt]

theorem valuesAt_cons (key : K) (entry : K × V) (entries : List (K × V)) :
    valuesAt key (entry :: entries) =
      if entry.1 = key then entry.2 :: valuesAt key entries
      else valuesAt key entries := by
  by_cases h : entry.1 = key <;> simp [valuesAt, h]

theorem valuesAt_perm (key : K) {first second : List (K × V)}
    (h : first.Perm second) : (valuesAt key first).Perm (valuesAt key second) :=
  (h.filter _).map _

/-- A part of the batches carries a part of the values, up to their order. -/
theorem valuesAt_flatMap_subperm {β : Type*} (key : K) {part whole : List β}
    (h : part.Subperm whole) (entries : β → List (K × V)) :
    (valuesAt key (part.flatMap entries)).Subperm (valuesAt key (whole.flatMap entries)) := by
  obtain ⟨chosen, hperm, hsublist⟩ := h
  refine ⟨valuesAt key (chosen.flatMap entries), ?_, ?_⟩
  · exact valuesAt_perm key (hperm.flatMap_right entries)
  · exact ((hsublist.flatMap entries).filter _).map _

/-- Renaming the keys injectively, or applying a function to the values. -/
theorem valuesAt_map {K' V' : Type*} [DecidableEq K'] {f : K → K'}
    (hf : Function.Injective f) (g : V → V') (key : K) (entries : List (K × V)) :
    valuesAt (f key) (entries.map fun entry => (f entry.1, g entry.2)) =
      (valuesAt key entries).map g := by
  induction entries with
  | nil => rfl
  | cons entry rest ih =>
      rw [List.map_cons, valuesAt_cons, valuesAt_cons, ih]
      by_cases h : entry.1 = key
      · simp [h]
      · simp [h, hf.ne h]

/-- Store each entry's value under its key, one after the other. -/
def overwrite (store : K → Option V) (entries : List (K × V)) : K → Option V :=
  entries.foldl (fun store entry => Function.update store entry.1 (some entry.2)) store

theorem overwrite_append (store : K → Option V) (first second : List (K × V)) :
    overwrite store (first ++ second) = overwrite (overwrite store first) second := by
  simp [overwrite]

theorem overwrite_apply (store : K → Option V) (entries : List (K × V)) (key : K) :
    overwrite store entries key = (valuesAt key entries).getLast?.or (store key) := by
  induction entries generalizing store with
  | nil => rfl
  | cons entry rest ih =>
      have htail : overwrite store (entry :: rest) =
          overwrite (Function.update store entry.1 (some entry.2)) rest := rfl
      rw [htail, ih, valuesAt_cons]
      by_cases h : entry.1 = key
      · subst h
        cases hlast : (valuesAt entry.1 rest).getLast? <;>
          simp [List.getLast?_cons, hlast]
      · have hne : key ≠ entry.1 := fun heq => h heq.symm
        simp [h, Function.update_of_ne hne]

/-- Among batches, the last one that mentions the key decides. -/
theorem getLast?_valuesAt_flatMap {β : Type*} (key : K) (batches : List β)
    (entries : β → List (K × V)) :
    (valuesAt key (batches.flatMap entries)).getLast? =
      ((batches.filter fun batch => valuesAt key (entries batch) ≠ []).getLast?).bind
        fun batch => (valuesAt key (entries batch)).getLast? := by
  induction batches using List.reverseRecOn with
  | nil => rfl
  | append_singleton rest batch ih =>
      have hone : valuesAt key ([batch].flatMap entries) = valuesAt key (entries batch) := by
        simp
      rw [List.flatMap_append, valuesAt_append, List.getLast?_append, hone, ih,
        List.filter_append]
      by_cases h : valuesAt key (entries batch) = []
      · simp [h]
      · obtain ⟨value, hvalue⟩ := Option.ne_none_iff_exists'.mp
          (mt List.getLast?_eq_none_iff.mp h)
        simp [h, hvalue]

section

variable {M : Type*} [AddCommMonoid M]

/-- Add each entry's value to the sum under its key. -/
def accumulate (totals : K → M) (entries : List (K × M)) : K → M :=
  entries.foldl
    (fun totals entry => Function.update totals entry.1 (totals entry.1 + entry.2)) totals

theorem accumulate_append (totals : K → M) (first second : List (K × M)) :
    accumulate totals (first ++ second) =
      accumulate (accumulate totals first) second := by
  simp [accumulate]

theorem accumulate_apply (totals : K → M) (entries : List (K × M)) (key : K) :
    accumulate totals entries key = totals key + (valuesAt key entries).sum := by
  induction entries generalizing totals with
  | nil => simp [accumulate]
  | cons entry rest ih =>
      have htail : accumulate totals (entry :: rest) =
          accumulate (Function.update totals entry.1 (totals entry.1 + entry.2)) rest :=
        rfl
      rw [htail, ih, valuesAt_cons]
      by_cases h : entry.1 = key
      · subst h
        simp [add_assoc]
      · have hne : key ≠ entry.1 := fun heq => h heq.symm
        simp [h, Function.update_of_ne hne]

/-- The order of the updates does not change any sum. -/
theorem accumulate_perm (totals : K → M) {first second : List (K × M)}
    (h : first.Perm second) : accumulate totals first = accumulate totals second := by
  funext key
  rw [accumulate_apply, accumulate_apply, (valuesAt_perm key h).sum_eq]

end

end Delivery
