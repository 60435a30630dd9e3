import Mathlib.Data.Finset.Sort
import Mathlib.Data.List.Sort

/-!
# Sorting a set

`sorted s` lists the members of a finite set in ascending order. It is Mathlib's `Finset.sort`,
computed by insertion so that it can be evaluated.
-/

namespace Lib

variable {α : Type*} [LinearOrder α]

/-- The members of a set in ascending order. -/
def sorted (s : Finset α) : List α :=
  Quot.liftOn s.1 (List.insertionSort (· ≤ ·)) fun l l' (h : l.Perm l') =>
    have hperm := ((List.perm_insertionSort _ l).trans h).trans (List.perm_insertionSort _ l').symm
    hperm.eq_of_pairwise (fun _ _ _ _ => le_antisymm) (List.pairwise_insertionSort _ l)
      (List.pairwise_insertionSort _ l')

theorem sorted_eq_sort (s : Finset α) : sorted s = s.sort := by
  obtain ⟨m, hm⟩ := s
  induction m using Quot.ind with
  | mk l => exact (List.mergeSort_eq_insertionSort (· ≤ ·) l).symm

@[simp] theorem mem_sorted {s : Finset α} {a : α} : a ∈ sorted s ↔ a ∈ s := by
  rw [sorted_eq_sort, Finset.mem_sort]

theorem nodup_sorted (s : Finset α) : (sorted s).Nodup := by
  rw [sorted_eq_sort]
  exact s.sort_nodup _

end Lib
