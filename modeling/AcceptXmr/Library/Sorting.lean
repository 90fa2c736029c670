import Mathlib.Data.List.Sort
import Mathlib.Data.List.Infix

/-! # Unstable sorting

A sort that may leave equal elements in any order is a function that returns a sorted permutation.
Its last element is a greatest one, and which of them is not determined.

* **`UnstableSort.getLast?_greatest`** — the last element is in the list, and none is greater.
* **`UnstableSort.insertion`** — insertion sort is one. -/

namespace AcceptXmr

variable {α : Type*} [Ord α]

/-- A sort, of which nothing is known about equal elements. -/
structure UnstableSort (α : Type*) [Ord α] where
  sort : List α → List α
  perm : ∀ l, (sort l).Perm l
  sorted : ∀ l, (sort l).Pairwise fun a b => (compare a b).isLE

namespace UnstableSort

variable (self : UnstableSort α) {l : List α} {x : α}

/-- Only an empty list has no last element after sorting. -/
theorem getLast?_eq_none_iff : (self.sort l).getLast? = none ↔ l = [] := by
  rw [List.getLast?_eq_none_iff]
  constructor
  · intro h
    exact (h ▸ self.perm l).nil_eq.symm
  · rintro rfl
    exact (self.perm []).eq_nil

/-- **The last element** after sorting is one of the greatest. -/
theorem getLast?_greatest [Std.ReflOrd α] (h : (self.sort l).getLast? = some x) :
    x ∈ l ∧ ∀ y ∈ l, (compare y x).isLE := by
  have hmem : x ∈ self.sort l := List.mem_of_getLast? h
  refine ⟨(self.perm l).mem_iff.mp hmem, ?_⟩
  intro y hy
  obtain ⟨front, hfront⟩ := List.getLast?_eq_some_iff.mp h
  have hsorted := self.sorted l
  rw [hfront, List.pairwise_append] at hsorted
  have hy : y ∈ front ++ [x] := hfront ▸ (self.perm l).mem_iff.mpr hy
  rcases List.mem_append.mp hy with hy | hy
  · exact hsorted.2.2 y hy x (List.mem_singleton_self x)
  · rw [List.mem_singleton.mp hy, Std.ReflOrd.compare_self]
    rfl

/-- Insertion sort. -/
def insertion (α : Type*) [Ord α] [Std.TransOrd α] : UnstableSort α where
  sort := List.insertionSort fun a b => (compare a b).isLE
  perm := List.perm_insertionSort _
  sorted := by
    have htotal : Std.Total fun a b : α => ((compare a b).isLE : Prop) := by
      refine ⟨fun a b => ?_⟩
      rw [Std.OrientedOrd.eq_swap (a := b) (b := a)]
      cases compare a b <;> simp
    have htrans : IsTrans α fun a b => ((compare a b).isLE : Prop) :=
      ⟨fun _ _ _ => Std.TransOrd.isLE_trans⟩
    exact List.pairwise_insertionSort _

end UnstableSort

end AcceptXmr
