import Mathlib.Algebra.Order.Monoid.Defs
import Mathlib.Algebra.Group.Basic
import Mathlib.Data.List.Chain
import Mathlib.Tactic.Common
import Mathlib.Tactic.GCongr

/-!
# Moments that keep a distance

A list of moments is spaced by `d` when each comes at least `d` after the one before. What is
done at spaced moments, and after a given end at most once, is done a bounded number of times.
-/

namespace Lib

/-- Each moment comes at least `d` after the one before. -/
def Spaced {α : Type*} [Add α] [LE α] (d : α) (times : List α) : Prop :=
  times.IsChain fun a b => a + d ≤ b

namespace Spaced

/-- Another moment, far enough from the last one. -/
theorem concat {α : Type*} [Add α] [LE α] {d b : α} {times : List α} (h : Spaced d times)
    (hlast : ∀ a ∈ times.getLast?, a + d ≤ b) : Spaced d (times ++ [b]) := by
  refine List.isChain_append.mpr ⟨h, .singleton b, fun a ha c hc => ?_⟩
  obtain rfl := Option.some.inj hc
  exact hlast a ha

variable {α : Type*} [AddCommMonoid α] [PartialOrder α] [IsOrderedAddMonoid α]
variable {d a start stop : α} {times : List α}

/-- From the first moment to the last one, every step takes at least `d`. -/
theorem first_add_le (h : Spaced d (a :: times)) :
    a + times.length • d ≤ (a :: times).getLast (List.cons_ne_nil a times) := by
  induction times generalizing a with
  | nil => rw [List.length_nil, zero_nsmul, add_zero, List.getLast_singleton]
  | cons c times ih =>
    obtain ⟨hstep, hrest⟩ := List.isChain_cons_cons.mp h
    rw [List.getLast_cons_cons]
    calc a + (c :: times).length • d
        = a + d + times.length • d := by rw [List.length_cons, succ_nsmul', add_assoc]
      _ ≤ c + times.length • d := by gcongr
      _ ≤ _ := ih hrest

/-- When all moments but the last are before `stop`, there are not many of them. -/
theorem add_nsmul_lt (h : Spaced d times) (hstart : ∀ a ∈ times, start ≤ a)
    (hstop : ∀ a ∈ times.dropLast, a < stop) (hlength : 2 ≤ times.length) :
    start + (times.length - 2) • d < stop := by
  match times with
  | [] | [_] => simp at hlength
  | a :: b :: rest =>
    rw [List.dropLast_cons_cons] at hstop
    have hspaced : Spaced d (a :: (b :: rest).dropLast) := by
      rw [← List.dropLast_cons_cons]
      exact h.prefix (List.dropLast_prefix _)
    have hcount : (b :: rest).dropLast.length = (a :: b :: rest).length - 2 := by
      rw [List.length_dropLast]
      rfl
    calc start + ((a :: b :: rest).length - 2) • d
        ≤ a + (b :: rest).dropLast.length • d := by
          rw [hcount]
          gcongr
          exact hstart a List.mem_cons_self
      _ ≤ _ := hspaced.first_add_le
      _ < stop := hstop _ (List.getLast_mem _)

end Spaced

end Lib
