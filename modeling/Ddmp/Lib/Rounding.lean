import Mathlib.Algebra.Order.Field.Basic
import Mathlib.Algebra.Order.Ring.Abs
import Mathlib.Algebra.Ring.Int.Parity
import Mathlib.Tactic.Linarith
import Mathlib.Tactic.NormNum
import Mathlib.Tactic.Ring

/-!
# Rounding to integers and to a grid of integers

Rounding as a relation between a number and the integer it is rounded to, so that every choice
on a tie is allowed unless it is asked for. `NearestMultiple g` is rounding to the multiples of
`g`. A window of radius a little over `g / 2` holds a multiple of `g`, and a second one exactly
near the middle between two of them.
-/

namespace Lib.Rounding

variable {K : Type} [Field K] [LinearOrder K] [IsStrictOrderedRing K] {x : K} {m n g : ℤ}

/-- `m` is a nearest integer of `x`. -/
def Nearest (x : K) (m : ℤ) : Prop := |x - m| ≤ 1 / 2

/-- `m` is the nearest integer of `x`, the even one on a tie. -/
def NearestEven (x : K) (m : ℤ) : Prop := Nearest x m ∧ (|x - m| = 1 / 2 → Even m)

/-- Rounding does not leave a range with integer bounds. -/
theorem Nearest.le (h : Nearest x m) (hx : x ≤ n) : m ≤ n := by
  have habs := (abs_le.mp h).1
  have hlt : (m : K) < n + 1 := by linarith
  exact_mod_cast Int.lt_add_one_iff.mp (by exact_mod_cast hlt)

theorem Nearest.ge (h : Nearest x m) (hx : n ≤ x) : n ≤ m := by
  have habs := (abs_le.mp h).2
  have hlt : (n : K) < m + 1 := by linarith
  exact_mod_cast Int.lt_add_one_iff.mp (by exact_mod_cast hlt)

theorem nearest_intCast (n : ℤ) : Nearest (n : K) n := by
  rw [Nearest, sub_self, abs_zero]
  norm_num

/-- `m` is a nearest multiple of `g` to `n`. -/
def NearestMultiple (g n m : ℤ) : Prop := g ∣ m ∧ 2 * |n - m| ≤ g

/-- The nearest multiple above a tie. -/
theorem nearestMultiple_floor (hg : 0 < g) (heven : 2 ∣ g) (n : ℤ) :
    NearestMultiple g n ((n + g / 2) / g * g) := by
  obtain ⟨h, rfl⟩ := heven
  have hhalf : 2 * h / 2 = h := Int.mul_ediv_cancel_left h (by norm_num)
  have hmod := Int.emod_add_mul_ediv (n + h) (2 * h)
  have hnonneg := Int.emod_nonneg (n + h) hg.ne'
  have hlt := Int.emod_lt_of_pos (n + h) hg
  refine ⟨Dvd.intro_left _ rfl, ?_⟩
  rw [hhalf, mul_comm ((n + h) / (2 * h))]
  have habs : |n - 2 * h * ((n + h) / (2 * h))| ≤ h := abs_le.mpr ⟨by linarith, by linarith⟩
  linarith

/-- Two multiples of `g` lie in a window of radius `r < g` exactly if its middle is near the
middle between two neighbours. -/
theorem exists_two_multiples_iff (hg : 0 < g) {r : K} (hr : r < g) :
    (∃ a b : ℤ, g ∣ a ∧ g ∣ b ∧ a ≠ b ∧ |x - a| ≤ r ∧ |x - b| ≤ r)
      ↔ ∃ k : ℤ, (g * (k + 1) : ℤ) - r ≤ x ∧ x ≤ (g * k : ℤ) + r := by
  constructor
  · -- the smaller one first
    have hordered : ∀ a b : ℤ, g ∣ a → g ∣ b → a < b → |x - a| ≤ r → |x - b| ≤ r →
        ∃ k : ℤ, (g * (k + 1) : ℤ) - r ≤ x ∧ x ≤ (g * k : ℤ) + r := by
      rintro _ _ ⟨k, rfl⟩ ⟨l, rfl⟩ hlt ha hb
      have hkl : k + 1 ≤ l := Int.add_one_le_of_lt (lt_of_mul_lt_mul_left hlt hg.le)
      have hstep : (g * (k + 1) : ℤ) ≤ g * l := mul_le_mul_of_nonneg_left hkl hg.le
      have hcast : ((g * (k + 1) : ℤ) : K) ≤ ((g * l : ℤ) : K) := by exact_mod_cast hstep
      refine ⟨k, ?_, ?_⟩
      · linarith [(abs_le.mp hb).1]
      · linarith [(abs_le.mp ha).2]
    rintro ⟨a, b, hga, hgb, hne, ha, hb⟩
    rcases lt_or_gt_of_ne hne with hlt | hlt
    · exact hordered a b hga hgb hlt ha hb
    · exact hordered b a hgb hga hlt hb ha
  · rintro ⟨k, hlo, hhi⟩
    have hgap : ((g * (k + 1) : ℤ) : K) = (g * k : ℤ) + g := by
      push_cast
      ring
    refine ⟨g * k, g * (k + 1), Dvd.intro k rfl, Dvd.intro _ rfl, ?_, ?_, ?_⟩
    · intro heq
      have hk : k = k + 1 := Int.eq_of_mul_eq_mul_left hg.ne' heq
      omega
    · exact abs_le.mpr ⟨by linarith, by linarith⟩
    · exact abs_le.mpr ⟨by linarith, by linarith⟩

end Lib.Rounding
