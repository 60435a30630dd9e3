import Ddmp.Lib.Utf8

/-!
# The ASCII case of texts

`asciiLower` puts the ASCII letters of a text in lower case and leaves all other characters alone.
Texts that differ in their ASCII case are equally long in UTF-8.
-/

namespace Lib

/-- A text with its ASCII letters in lower case. -/
def asciiLower (s : List Char) : List Char := s.map Char.toLower

namespace AsciiCase

variable {c c' : Char} {s s' : List Char}

theorem toNat_toLower (c : Char) :
    c.toLower.toNat = if 65 ≤ c.toNat ∧ c.toNat ≤ 90 then c.toNat + 32 else c.toNat := by
  have hupper : c.val ≥ 'A'.val ∧ c.val ≤ 'Z'.val ↔ 65 ≤ c.toNat ∧ c.toNat ≤ 90 := by
    rw [ge_iff_le, UInt32.le_iff_toNat_le, UInt32.le_iff_toNat_le]
    rfl
  unfold Char.toLower
  split
  · rename_i h
    have hrange := hupper.mp h
    have hsum : (c.val + ('a'.val - 'A'.val)).toNat = (c.toNat + 32) % 2 ^ 32 :=
      UInt32.toNat_add _ _
    rw [if_pos hrange]
    exact hsum.trans (Nat.mod_eq_of_lt (by omega))
  · rename_i h
    rw [if_neg (mt hupper.mpr h)]

theorem toLower_toLower (c : Char) : c.toLower.toLower = c.toLower := by
  refine Char.toNat_inj.mp ?_
  rw [toNat_toLower c.toLower, toNat_toLower c]
  split_ifs <;> omega

theorem isAlpha_iff (c : Char) :
    c.isAlpha ↔ 65 ≤ c.toNat ∧ c.toNat ≤ 90 ∨ 97 ≤ c.toNat ∧ c.toNat ≤ 122 := by
  have hupper : c.isUpper ↔ 65 ≤ c.toNat ∧ c.toNat ≤ 90 := decide_eq_true_iff
  have hlower : c.isLower ↔ 97 ≤ c.toNat ∧ c.toNat ≤ 122 := by
    show (decide (c.val ≥ 'a'.val) && decide (c.val ≤ 'z'.val)) = true ↔ _
    rw [Bool.and_eq_true, decide_eq_true_iff, decide_eq_true_iff]
    rfl
  show (c.isUpper || c.isLower) = true ↔ _
  rw [Bool.or_eq_true, hupper, hlower]

/-- A character that is no letter has no case. -/
theorem eq_of_toLower (hc : ¬ c.isAlpha) (h : c'.toLower = c.toLower) : c' = c := by
  have hnat := congrArg Char.toNat h
  rw [toNat_toLower, toNat_toLower] at hnat
  rw [isAlpha_iff] at hc
  refine Char.toNat_inj.mp ?_
  split_ifs at hnat <;> omega

theorem utf8Size_eq_of_toLower (h : c'.toLower = c.toLower) : c'.utf8Size = c.utf8Size := by
  have hnat := congrArg Char.toNat h
  rw [toNat_toLower, toNat_toLower] at hnat
  have hone {c : Char} (hc : c.toNat ≤ 127) : c.utf8Size = 1 := Char.utf8Size_eq_one_iff.mpr hc
  by_cases hsame : c'.toNat = c.toNat
  · rw [Char.toNat_inj.mp hsame]
  · split_ifs at hnat
    · omega
    · rw [hone (by omega), hone (by omega)]
    · rw [hone (by omega), hone (by omega)]
    · omega

theorem asciiLower_asciiLower (s : List Char) : asciiLower (asciiLower s) = asciiLower s := by
  rw [asciiLower, asciiLower, List.map_map]
  exact List.map_congr_left fun c _ => toLower_toLower c

theorem length_encode_eq (h : asciiLower s' = asciiLower s) :
    (Utf8.encode s').length = (Utf8.encode s).length := by
  rw [Utf8.encode, Utf8.encode, List.length_flatMap, List.length_flatMap]
  refine congrArg List.sum ?_
  induction s generalizing s' with
  | nil => rw [List.map_eq_nil_iff.mp h]
  | cons c s ih =>
    obtain ⟨c', s', rfl, hc, hs⟩ := List.map_eq_cons_iff.mp h
    rw [List.map_cons, List.map_cons, ih hs, String.length_utf8EncodeChar,
      String.length_utf8EncodeChar, utf8Size_eq_of_toLower hc]

end AsciiCase

end Lib
