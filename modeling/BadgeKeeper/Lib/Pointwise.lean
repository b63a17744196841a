import Mathlib.Tactic

/-!
Views of a list. A view keeps the elements that satisfy a predicate; removing
the first element found by another predicate either does not touch the view or
removes the same element from it. Two lists that are related element by
element are searched with related results.
-/

namespace Pointwise

variable {α β : Type*}

/-- Removing an element that the view hides. -/
theorem filter_eraseP_of_hidden {view found : α → Bool} {l : List α} {a : α}
    (hfind : l.find? found = some a) (hhidden : view a = false) :
    (l.eraseP found).filter view = l.filter view := by
  induction l with
  | nil => rfl
  | cons b rest ih =>
      cases hb : found b with
      | true =>
          rw [List.find?_cons_of_pos hb] at hfind
          cases hfind
          simp [hb, hhidden]
      | false =>
          rw [List.find?_cons_of_neg (by simp [hb])] at hfind
          rw [List.eraseP_cons_of_neg (by simp [hb]), List.filter_cons, List.filter_cons,
            ih hfind]

/-- Removing an element that the view shows. -/
theorem filter_eraseP_of_shown {view found : α → Bool} {l : List α} {a : α}
    (hfind : l.find? found = some a) (hshown : view a = true) :
    (l.filter view).find? found = some a ∧
      (l.eraseP found).filter view = (l.filter view).eraseP found := by
  induction l with
  | nil => simp at hfind
  | cons b rest ih =>
      cases hb : found b with
      | true =>
          rw [List.find?_cons_of_pos hb] at hfind
          cases hfind
          simp [hb, hshown]
      | false =>
          rw [List.find?_cons_of_neg (by simp [hb])] at hfind
          obtain ⟨hfound, herase⟩ := ih hfind
          cases hview : view b with
          | true => simp [hb, hview, hfound, herase]
          | false => simp [hb, hview, hfound, herase]

/-- Of the elements with distinct keys, one has the key of a given element. -/
theorem filter_key_eq_singleton {κ : Type*} [DecidableEq κ] {key : α → κ} {l : List α}
    (hdistinct : (l.map key).Nodup) {a : α} (ha : a ∈ l) :
    (l.filter fun b => key b = key a) = [a] := by
  induction l with
  | nil => cases ha
  | cons b rest ih =>
      obtain ⟨hfresh, hrest⟩ := List.nodup_cons.mp hdistinct
      rcases List.mem_cons.mp ha with rfl | hmem
      · have hnone : (rest.filter fun b => key b = key a) = [] := by
          apply List.filter_eq_nil_iff.mpr
          intro b hb hsame
          apply hfresh
          rw [← of_decide_eq_true hsame]
          exact List.mem_map_of_mem hb
        simp [hnone]
      · have hne : key b ≠ key a := by
          intro hsame
          exact hfresh (hsame ▸ List.mem_map_of_mem hmem)
        simp [hne, ih hrest hmem]

/-- A search in related lists finds and removes related elements. -/
theorem find_of_related {R : α → β → Prop} {found : α → Bool} {found' : β → Bool}
    (hfound : ∀ a b, R a b → found a = found' b) {l : List α} {l' : List β}
    (hrelated : List.Forall₂ R l l') {a : α} (hfind : l.find? found = some a) :
    ∃ b, l'.find? found' = some b ∧ R a b ∧
      List.Forall₂ R (l.eraseP found) (l'.eraseP found') := by
  induction hrelated with
  | nil => simp at hfind
  | @cons first second rest rest' hfirst hrest ih =>
      have hsame := hfound first second hfirst
      cases hb : found first with
      | true =>
          rw [List.find?_cons_of_pos hb] at hfind
          cases hfind
          rw [hb] at hsame
          exact ⟨second, by simp [← hsame], hfirst, by simpa [hb, ← hsame] using hrest⟩
      | false =>
          rw [List.find?_cons_of_neg (by simp [hb])] at hfind
          rw [hb] at hsame
          obtain ⟨b, hb', hab, herase⟩ := ih hfind
          exact ⟨b, by simpa [← hsame] using hb', hab,
            by simpa [hb, ← hsame] using List.Forall₂.cons hfirst herase⟩

/-- Views of related lists look the same under a function that cannot tell
related elements apart. -/
theorem map_filter_of_related {γ : Type*} {R : α → β → Prop} {view : α → Bool}
    {view' : β → Bool} {f : α → γ} {f' : β → γ}
    (hview : ∀ a b, R a b → view a = view' b) (hf : ∀ a b, R a b → f a = f' b)
    {l : List α} {l' : List β} (hrelated : List.Forall₂ R l l') :
    (l.filter view).map f = (l'.filter view').map f' := by
  have hfiltered : List.Forall₂ R (l.filter view) (l'.filter view') :=
    List.rel_filter (fun a b hab => by simp [hview a b hab]) hrelated
  have hmapped : List.Forall₂ Eq ((l.filter view).map f) ((l'.filter view').map f') :=
    List.rel_map (fun a b hab => hf a b hab) hfiltered
  rwa [List.forall₂_eq_eq_eq] at hmapped

theorem flatMap_filter_of_related {γ : Type*} {R : α → β → Prop} {view : α → Bool}
    {view' : β → Bool} {f : α → List γ} {f' : β → List γ}
    (hview : ∀ a b, R a b → view a = view' b) (hf : ∀ a b, R a b → f a = f' b)
    {l : List α} {l' : List β} (hrelated : List.Forall₂ R l l') :
    (l.filter view).flatMap f = (l'.filter view').flatMap f' := by
  simpa only [List.flatMap_def] using
    congrArg List.flatten (map_filter_of_related hview hf hrelated)

/-- Elements from which nothing is collected can be left out of the view. -/
theorem flatMap_filter_of_nil {γ : Type*} {view : α → Bool} {f : α → List γ}
    {l : List α} (hnil : ∀ a ∈ l, view a = false → f a = []) :
    (l.filter view).flatMap f = l.flatMap f := by
  induction l with
  | nil => rfl
  | cons a rest ih =>
      have htail := ih fun b hb => hnil b (List.mem_cons_of_mem a hb)
      cases ha : view a with
      | true => simp [ha, htail]
      | false => simp [ha, htail, hnil a List.mem_cons_self ha]

end Pointwise
