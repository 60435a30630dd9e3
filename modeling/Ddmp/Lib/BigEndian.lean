import Mathlib.Tactic.Common

/-!
# Big-endian integers in byte strings

Unsigned 16-bit integers, high byte first: the bytes of a number, and the number at an offset of
a byte string.
-/

namespace Lib.BigEndian

/-- The two bytes of a natural number modulo `2 ^ 16`. -/
def u16Bytes (n : ℕ) : List UInt8 := [UInt8.ofNat (n / 256 % 256), UInt8.ofNat (n % 256)]

/-- The 16-bit number at an offset; `none` when the byte string is too short. -/
def u16At (data : List UInt8) (offset : ℕ) : Option ℕ :=
  match data[offset]?, data[offset + 1]? with
  | some high, some low => some (high.toNat * 256 + low.toNat)
  | _, _ => none

theorem u16At_eq_some_iff {data : List UInt8} {offset word : ℕ} : u16At data offset = some word
    ↔ ∃ high low, data[offset]? = some high ∧ data[offset + 1]? = some low
      ∧ word = high.toNat * 256 + low.toNat := by
  unfold u16At
  split
  · rename_i high low hhigh hlow
    simp [hhigh, hlow, eq_comm]
  · rename_i hnone
    constructor
    · intro h
      cases h
    · rintro ⟨high, low, hhigh, hlow, -⟩
      exact absurd hlow (hnone high low hhigh)

theorem u16At_eq_none_iff {data : List UInt8} {offset : ℕ} :
    u16At data offset = none ↔ data.length ≤ offset + 1 := by
  unfold u16At
  split
  · rename_i hhigh hlow
    have hlt := (List.getElem?_eq_some_iff.mp hlow).1
    simp only [reduceCtorEq, false_iff]
    omega
  · rename_i hnone
    refine ⟨fun _ => ?_, fun _ => rfl⟩
    by_contra hlt
    exact hnone _ _ (List.getElem?_eq_getElem (by omega)) (List.getElem?_eq_getElem (by omega))

theorem lt_length_of_u16At {data : List UInt8} {offset word : ℕ}
    (h : u16At data offset = some word) : offset + 1 < data.length := by
  by_contra hshort
  have hnone : u16At data offset = none := u16At_eq_none_iff.mpr (by omega)
  cases hnone.symm.trans h

theorem lt_of_u16At {data : List UInt8} {offset word : ℕ} (h : u16At data offset = some word) :
    word < 65536 := by
  obtain ⟨high, low, -, -, rfl⟩ := u16At_eq_some_iff.mp h
  have hhigh := high.toNat_lt
  have hlow := low.toNat_lt
  omega

theorem exists_u16At {data : List UInt8} {offset : ℕ} (h : offset + 1 < data.length) :
    ∃ word, u16At data offset = some word := by
  rw [← Option.ne_none_iff_exists', Ne, u16At_eq_none_iff]
  omega

/-- A number inside a part of a byte string. -/
theorem u16At_take_drop {data : List UInt8} {start length offset : ℕ}
    (h : offset + 1 < length) :
    u16At ((data.drop start).take length) offset = u16At data (start + offset) := by
  have hget (i : ℕ) (hi : i < length) :
      ((data.drop start).take length)[i]? = data[start + i]? := by
    rw [List.getElem?_take_of_lt hi, List.getElem?_drop]
  rw [u16At, u16At, hget offset (by omega), hget (offset + 1) h, Nat.add_assoc]

/-- A number that has been written is the number that is read. -/
theorem u16At_of_drop {data rest : List UInt8} {offset n : ℕ} (hn : n < 65536)
    (h : data.drop offset = u16Bytes n ++ rest) : u16At data offset = some n := by
  have hget (i : ℕ) : data[offset + i]? = (u16Bytes n ++ rest)[i]? := by
    rw [← List.getElem?_drop, h]
  refine u16At_eq_some_iff.mpr ⟨_, _, hget 0, hget 1, ?_⟩
  rw [UInt8.toNat_ofNat', UInt8.toNat_ofNat']
  omega

/-! ## The beginning of a byte string -/

theorem getElem?_of_take {data : List UInt8} {n i : ℕ} {b : UInt8}
    (h : (data.take n)[i]? = some b) : data[i]? = some b := by
  rw [List.getElem?_take] at h
  split at h
  · exact h
  · cases h

theorem u16At_of_take {data : List UInt8} {n offset word : ℕ}
    (h : u16At (data.take n) offset = some word) : u16At data offset = some word := by
  obtain ⟨high, low, hhigh, hlow, hvalue⟩ := u16At_eq_some_iff.mp h
  exact u16At_eq_some_iff.mpr
    ⟨high, low, getElem?_of_take hhigh, getElem?_of_take hlow, hvalue⟩

end Lib.BigEndian
