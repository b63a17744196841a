import Mathlib.Tactic

/-!
Paths as texts and as lists of segments. Splitting at the separator is
injective, and it turns joining with a separator into appending lists, so an
equation between paths becomes one between lists of segments.
-/

namespace Path

variable {α : Type*} [DecidableEq α] (separator : α)

def segments (path : List α) : List (List α) := path.splitOn separator

theorem segments_ne_nil (path : List α) : segments separator path ≠ [] :=
  List.splitOn_ne_nil separator path

theorem segments_injective : Function.Injective (segments separator) := by
  intro first second h
  have hjoin := congrArg (List.intercalate [separator]) h
  simpa [segments] using hjoin

/-- A separator between two paths. -/
theorem segments_append (first second : List α) :
    segments separator (first ++ separator :: second) =
      segments separator first ++ segments separator second :=
  List.splitOn_append_cons_self first second

theorem segments_cons_separator (path : List α) :
    segments separator (separator :: path) = [] :: segments separator path :=
  segments_append separator [] path

theorem segments_of_not_mem {path : List α} (h : separator ∉ path) :
    segments separator path = [path] :=
  List.splitOn_eq_singleton h

/-- No segment contains the separator. -/
theorem not_mem_of_mem_segments {path segment : List α} (h : segment ∈ segments separator path) :
    separator ∉ segment := by
  induction path generalizing segment with
  | nil =>
      rw [segments, List.splitOn_nil, List.mem_singleton] at h
      rw [h]
      exact List.not_mem_nil
  | cons x rest ih =>
      rw [segments, List.splitOn_cons_eq_if_modifyHead] at h
      split at h
      · rcases List.mem_cons.mp h with rfl | hlater
        · exact List.not_mem_nil
        · exact ih hlater
      · next hdiffer =>
          obtain ⟨first, others, hcons⟩ :=
            List.exists_cons_of_ne_nil (segments_ne_nil separator rest)
          rw [segments] at hcons
          rw [hcons, List.modifyHead_cons] at h
          have hfirst : first ∈ segments separator rest := by simp [segments, hcons]
          rcases List.mem_cons.mp h with rfl | hlater
          · rw [List.mem_cons, not_or]
            refine ⟨?_, ih hfirst⟩
            rintro rfl
            exact hdiffer (beq_self_eq_true _)
          · apply ih
            simp [segments, hcons, hlater]

omit [DecidableEq α] in
theorem intercalate_cons (segment : List α) (rest : List (List α)) :
    [separator].intercalate (segment :: rest) =
      segment ++ rest.flatMap (separator :: ·) := by
  induction rest generalizing segment with
  | nil => simp
  | cons next rest ih => simp [List.intercalate_cons_cons, ih]

/-- What follows when the segments of one path extend those of another. -/
theorem eq_append_of_segments {first second : List α} {rest : List (List α)}
    (h : segments separator first = segments separator second ++ rest) :
    first = second ++ rest.flatMap (separator :: ·) := by
  obtain ⟨segment, others, hcons⟩ :=
    List.exists_cons_of_ne_nil (segments_ne_nil separator second)
  calc
    first = [separator].intercalate (segments separator first) := by simp [segments]
    _ = [separator].intercalate (segments separator second) ++
        rest.flatMap (separator :: ·) := by
      rw [h, hcons, List.cons_append, intercalate_cons, intercalate_cons,
        List.flatMap_append, List.append_assoc]
    _ = second ++ rest.flatMap (separator :: ·) := by simp [segments]

end Path
