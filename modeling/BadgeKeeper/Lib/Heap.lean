import Mathlib.Tactic

/-!
A heap of mutable lists. A reference is a position; a list that nothing refers
to any more keeps its cell. Two references alias exactly when they are equal,
so a mutation is visible through every holder of the same reference and
through no other.
-/

structure Heap (α : Type*) where
  cells : List (List α)

namespace Heap

abbrev Ref := Nat

variable {α : Type*}

def empty : Heap α := ⟨[]⟩

def size (heap : Heap α) : Nat := heap.cells.length

/-- The current contents of a list. -/
def get (heap : Heap α) (ref : Ref) : List α := heap.cells.getD ref []

/-- A fresh list with the given contents; its reference is `heap.size`. -/
def alloc (heap : Heap α) (contents : List α) : Heap α :=
  ⟨heap.cells ++ [contents]⟩

/-- Add an element at the end of an existing list, in place. -/
def push (heap : Heap α) (ref : Ref) (item : α) : Heap α :=
  ⟨heap.cells.modify ref (· ++ [item])⟩

@[simp] theorem size_alloc (heap : Heap α) (contents : List α) :
    (heap.alloc contents).size = heap.size + 1 := by
  simp [size, alloc]

@[simp] theorem size_push (heap : Heap α) (ref : Ref) (item : α) :
    (heap.push ref item).size = heap.size := by
  simp [size, push]

@[simp] theorem get_alloc_self (heap : Heap α) (contents : List α) :
    (heap.alloc contents).get heap.size = contents := by
  simp [get, alloc, size, List.getD_eq_getElem?_getD]

theorem get_alloc_of_lt (heap : Heap α) (contents : List α) {ref : Ref}
    (hlive : ref < heap.size) : (heap.alloc contents).get ref = heap.get ref := by
  have hcell : ref < heap.cells.length := hlive
  simp [get, alloc, List.getD_eq_getElem?_getD, List.getElem?_append_left hcell]

theorem get_push_self (heap : Heap α) (item : α) {ref : Ref}
    (hlive : ref < heap.size) :
    (heap.push ref item).get ref = heap.get ref ++ [item] := by
  have hcell : ref < heap.cells.length := hlive
  simp [get, push, List.getD_eq_getElem?_getD,
    List.getElem?_eq_getElem hcell]

theorem get_push_of_ne (heap : Heap α) (item : α) {ref other : Ref}
    (hne : other ≠ ref) : (heap.push ref item).get other = heap.get other := by
  simp [get, push, List.getD_eq_getElem?_getD, hne.symm]

end Heap
