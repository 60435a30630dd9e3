import Mathlib.Algebra.Ring.Int.Defs
import Mathlib.Algebra.Ring.Nat
import Mathlib.Tactic.Common

/-!
# Little-endian integers in byte strings

Two's complement 32-bit integers and unsigned 16-bit integers, low byte first: one value,
and the list of values a byte string holds when an incomplete tail is dropped.
-/

namespace Lib.LittleEndian

/-- The integers a signed 32-bit word can hold. -/
def InI32 (n : ℤ) : Prop := -2 ^ 31 ≤ n ∧ n < 2 ^ 31

instance (n : ℤ) : Decidable (InI32 n) := inferInstanceAs (Decidable (_ ∧ _))

/-- The four bytes of an integer modulo `2 ^ 32`. -/
def i32Bytes (n : ℤ) : List UInt8 :=
  let m := (n % 2 ^ 32).toNat
  [UInt8.ofNat (m % 256), UInt8.ofNat (m / 256 % 256), UInt8.ofNat (m / 65536 % 256),
    UInt8.ofNat (m / 16777216 % 256)]

/-- The integer of four bytes. -/
def i32Of (a b c d : UInt8) : ℤ :=
  let m := a.toNat + b.toNat * 256 + c.toNat * 65536 + d.toNat * 16777216
  if m < 2 ^ 31 then (m : ℤ) else (m : ℤ) - 2 ^ 32

/-- The integers of a byte string; up to three trailing bytes are dropped. -/
def i32s : List UInt8 → List ℤ
  | a :: b :: c :: d :: rest => i32Of a b c d :: i32s rest
  | _ => []

/-- The two bytes of a natural number modulo `2 ^ 16`. -/
def u16Bytes (n : ℕ) : List UInt8 := [UInt8.ofNat (n % 256), UInt8.ofNat (n / 256 % 256)]

/-- The 16-bit values of a byte string; a trailing byte is dropped. -/
def u16s : List UInt8 → List ℕ
  | a :: b :: rest => (a.toNat + b.toNat * 256) :: u16s rest
  | _ => []

theorem inI32_i32Of (a b c d : UInt8) : InI32 (i32Of a b c d) := by
  have ha := a.toNat_lt
  have hb := b.toNat_lt
  have hc := c.toNat_lt
  have hd := d.toNat_lt
  simp only [InI32, i32Of]
  split <;> omega

@[simp] theorem length_i32Bytes (n : ℤ) : (i32Bytes n).length = 4 := rfl

/-- Reading four written bytes gives the integer back, if it fits. -/
theorem i32s_i32Bytes_append {n : ℤ} (h : InI32 n) (rest : List UInt8) :
    i32s (i32Bytes n ++ rest) = n :: i32s rest := by
  have hm : ((n % 2 ^ 32).toNat : ℤ) = n % 2 ^ 32 := Int.toNat_of_nonneg (by omega)
  -- the four bytes are the digits of the word to the base 256
  have hword : i32Of (UInt8.ofNat ((n % 2 ^ 32).toNat % 256))
      (UInt8.ofNat ((n % 2 ^ 32).toNat / 256 % 256))
      (UInt8.ofNat ((n % 2 ^ 32).toNat / 65536 % 256))
      (UInt8.ofNat ((n % 2 ^ 32).toNat / 16777216 % 256)) = n := by
    simp only [i32Of, UInt8.toNat_ofNat', InI32] at h ⊢
    split <;> omega
  rw [i32Bytes]
  simp only [List.cons_append, List.nil_append, i32s, hword]

/-- Different integers are written differently. -/
theorem i32Bytes_inj {m n : ℤ} (hm : InI32 m) (hn : InI32 n) (h : i32Bytes m = i32Bytes n) :
    m = n := by
  have hcons : m :: i32s [] = n :: i32s [] := by
    rw [← i32s_i32Bytes_append hm, ← i32s_i32Bytes_append hn, h]
  exact (List.cons.inj hcons).1

/-- Every integer read fits a word. -/
theorem inI32_of_mem_i32s {p : List UInt8} {n : ℤ} (h : n ∈ i32s p) : InI32 n := by
  induction p using i32s.induct with
  | case1 a b c d rest ih =>
    rw [i32s, List.mem_cons] at h
    rcases h with rfl | h
    · exact inI32_i32Of a b c d
    · exact ih h
  | case2 p hp =>
    rw [i32s] at h
    · exact absurd h List.not_mem_nil
    · exact hp

theorem lt_of_mem_u16s {p : List UInt8} {n : ℕ} (h : n ∈ u16s p) : n < 2 ^ 16 := by
  induction p using u16s.induct with
  | case1 a b rest ih =>
    rw [u16s, List.mem_cons] at h
    rcases h with rfl | h
    · have ha := a.toNat_lt
      have hb := b.toNat_lt
      omega
    · exact ih h
  | case2 p hp =>
    rw [u16s] at h
    · exact absurd h List.not_mem_nil
    · exact hp

theorem length_flatMap_i32Bytes (ns : List ℤ) : (ns.flatMap i32Bytes).length = 4 * ns.length := by
  induction ns with
  | nil => rfl
  | cons n ns ih =>
    rw [List.flatMap_cons, List.length_append, length_i32Bytes, ih, List.length_cons]
    omega

/-- The words written for a list are read back. -/
theorem i32s_flatMap {ns : List ℤ} (h : ∀ n ∈ ns, InI32 n) : i32s (ns.flatMap i32Bytes) = ns := by
  induction ns with
  | nil => rfl
  | cons n ns ih =>
    rw [List.flatMap_cons, i32s_i32Bytes_append (h n List.mem_cons_self),
      ih fun m hm => h m (List.mem_cons_of_mem _ hm)]

/-- The 16-bit values written for a list are read back. -/
theorem u16s_flatMap {ns : List ℕ} (h : ∀ n ∈ ns, n < 2 ^ 16) :
    u16s (ns.flatMap u16Bytes) = ns := by
  induction ns with
  | nil => rfl
  | cons n ns ih =>
    have hn := h n List.mem_cons_self
    have hvalue :
        (UInt8.ofNat (n % 256)).toNat + (UInt8.ofNat (n / 256 % 256)).toNat * 256 = n := by
      simp only [UInt8.toNat_ofNat']
      omega
    rw [List.flatMap_cons, u16Bytes]
    simp only [List.cons_append, List.nil_append, u16s, hvalue]
    rw [ih fun m hm => h m (List.mem_cons_of_mem _ hm)]

/-- The four bytes at position `4 * k` are those of the `k`-th word. -/
theorem take_drop_flatMap_i32Bytes {ns : List ℤ} {k : ℕ} {n : ℤ} (h : ns[k]? = some n) :
    ((ns.flatMap i32Bytes).drop (4 * k)).take 4 = i32Bytes n := by
  induction ns generalizing k with
  | nil => exact nomatch h
  | cons m ns ih =>
    rw [List.flatMap_cons]
    cases k with
    | zero =>
      rw [List.getElem?_cons_zero, Option.some_inj] at h
      rw [h]
      rfl
    | succ k =>
      rw [List.getElem?_cons_succ] at h
      rw [← ih h, List.drop_append, length_i32Bytes,
        List.drop_eq_nil_of_le (by rw [length_i32Bytes]; omega), List.nil_append,
        show 4 * (k + 1) - 4 = 4 * k by omega]

end Lib.LittleEndian
