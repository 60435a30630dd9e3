import Ddmp.Python.Text
import Mathlib.Data.List.Forall2

/-!
# Text of hexadecimal digits

`bytes.fromhex` reads pairs of digits and passes over the ASCII white space around them:
`fromHex?_eq_some_iff`. A text with white space has fewer bytes than it has pairs of characters.
-/

namespace Ddmp

/-! ## Digits -/

/-- A digit is below 16, and is not written by one of the first characters. -/
theorem hexDigit?_bounds {c : Char} {n : ℕ} (h : hexDigit? c = some n) : n < 16 ∧ 48 ≤ c.toNat := by
  have hdecimal : '0' ≤ c ∧ c ≤ '9' ↔ 48 ≤ c.toNat ∧ c.toNat ≤ 57 := Iff.rfl
  have hlower : 'a' ≤ c ∧ c ≤ 'f' ↔ 97 ≤ c.toNat ∧ c.toNat ≤ 102 := Iff.rfl
  have hupper : 'A' ≤ c ∧ c ≤ 'F' ↔ 65 ≤ c.toNat ∧ c.toNat ≤ 70 := Iff.rfl
  simp only [hexDigit?, hdecimal, hlower, hupper] at h
  split_ifs at h
  all_goals
    have hn := Option.some.inj h
    omega

theorem isAsciiSpace_of_hexDigit? {c : Char} {n : ℕ} (h : hexDigit? c = some n) :
    isAsciiSpace c = false := by
  have hle := (hexDigit?_bounds h).2
  simp only [isAsciiSpace, Bool.or_eq_false_iff, Bool.and_eq_false_imp, decide_eq_true_eq,
    decide_eq_false_iff_not, beq_eq_false_iff_ne]
  omega

/-- The values of the two digits of a byte. -/
def nibbles (b : UInt8) : List ℕ := [b.toNat / 16, b.toNat % 16]

theorem nibbles_ofNat {hi lo : ℕ} (hhi : hi < 16) (hlo : lo < 16) :
    nibbles (UInt8.ofNat (hi * 16 + lo)) = [hi, lo] := by
  have hbyte : (UInt8.ofNat (hi * 16 + lo)).toNat = hi * 16 + lo := by
    rw [UInt8.toNat_ofNat']
    exact Nat.mod_eq_of_lt (by omega)
  have hdiv : (hi * 16 + lo) / 16 = hi := by omega
  have hmod : (hi * 16 + lo) % 16 = lo := by omega
  rw [nibbles, hbyte, hdiv, hmod]

theorem ofNat_nibbles (b : UInt8) : UInt8.ofNat (b.toNat / 16 * 16 + b.toNat % 16) = b := by
  rw [Nat.div_add_mod', UInt8.ofNat_toNat]

/-- The text is the digits of the bytes, lower or upper case. -/
def HexDigits (s : List Char) (raw : Bytes) : Prop :=
  List.Forall₂ (fun c n => hexDigit? c = some n) s (raw.flatMap nibbles)

/-- Digits that are written by a function which `hexDigit?` inverts. -/
theorem hexDigits_map {digit : ℕ → Char} (h : ∀ n < 16, hexDigit? (digit n) = some n)
    (raw : Bytes) : HexDigits ((raw.flatMap nibbles).map digit) raw := by
  unfold HexDigits
  rw [List.forall₂_map_left_iff, List.forall₂_same]
  intro n hn
  apply h
  obtain ⟨b, -, hn⟩ := List.mem_flatMap.mp hn
  have hb := b.toNat_lt
  simp only [nibbles, List.mem_cons, List.not_mem_nil, or_false] at hn
  omega

/-! ## Digits and white space -/

/-- What `bytes.fromhex` reads: pairs of digits, with ASCII white space around them. -/
inductive HexText : List Char → Bytes → Prop
  | nil : HexText [] []
  | space {c : Char} {s : List Char} {raw : Bytes} (hc : isAsciiSpace c = true)
      (hs : HexText s raw) : HexText (c :: s) raw
  | pair {c d : Char} {hi lo : ℕ} {s : List Char} {raw : Bytes} (hc : hexDigit? c = some hi)
      (hd : hexDigit? d = some lo) (hs : HexText s raw) :
      HexText (c :: d :: s) (UInt8.ofNat (hi * 16 + lo) :: raw)

theorem fromHex?_cons_space {c : Char} (hc : isAsciiSpace c = true) (s : List Char) :
    fromHex? (c :: s) = fromHex? s := by
  rw [fromHex?.eq_def (c :: s)]
  exact if_pos hc

theorem HexText.fromHex?_eq {s : List Char} {raw : Bytes} (h : HexText s raw) :
    fromHex? s = some raw := by
  induction h with
  | nil => rfl
  | space hc _ ih => rw [fromHex?_cons_space hc, ih]
  | pair hc hd _ ih =>
    have hnot := isAsciiSpace_of_hexDigit? hc
    unfold fromHex?
    simp only [hnot, Bool.false_eq_true, if_false, hc, hd, ih]
    rfl

theorem fromHex?_eq_some_iff {s : List Char} {raw : Bytes} :
    fromHex? s = some raw ↔ HexText s raw := by
  refine ⟨?_, HexText.fromHex?_eq⟩
  induction s using fromHex?.induct generalizing raw with
  | case1 =>
    intro h
    obtain rfl := Option.some.inj h
    exact .nil
  | case2 c rest hc ih =>
    intro h
    rw [fromHex?_cons_space hc] at h
    exact .space hc (ih h)
  | case3 c hc =>
    intro h
    rw [fromHex?, if_neg hc] at h
    cases h
  | case4 c hc d rest ih =>
    intro h
    rw [fromHex?, if_neg hc] at h
    simp only [Option.bind_eq_bind, Option.bind_eq_some_iff] at h
    obtain ⟨hi, hhi, lo, hlo, more, hmore, hraw⟩ := h
    obtain rfl := Option.some.inj hraw
    exact .pair hhi hlo (ih hmore)

/-- Digits without white space. -/
theorem HexDigits.hexText {s : List Char} {raw : Bytes} (h : HexDigits s raw) : HexText s raw := by
  induction raw generalizing s with
  | nil =>
    cases h
    exact .nil
  | cons b raw ih =>
    cases h with
    | cons hhi htail =>
      cases htail with
      | cons hlo hrest =>
        have hpair := HexText.pair hhi hlo (ih hrest)
        rwa [ofNat_nibbles] at hpair

theorem HexText.two_mul_length_le {s : List Char} {raw : Bytes} (h : HexText s raw) :
    2 * raw.length ≤ s.length := by
  induction h with
  | nil => rfl
  | space _ _ ih =>
    rw [List.length_cons]
    omega
  | pair _ _ _ ih =>
    simp only [List.length_cons]
    omega

theorem length_flatMap_nibbles (raw : Bytes) : (raw.flatMap nibbles).length = 2 * raw.length := by
  induction raw with
  | nil => rfl
  | cons b raw ih =>
    rw [List.flatMap_cons, List.length_append, ih]
    simp only [nibbles, List.length_cons, List.length_nil]
    omega

theorem HexDigits.length_eq {s : List Char} {raw : Bytes} (h : HexDigits s raw) :
    s.length = 2 * raw.length :=
  (List.Forall₂.length_eq h).trans (length_flatMap_nibbles raw)

/-- A text with white space has more characters than its bytes have digits. -/
theorem HexText.hexDigits_iff {s : List Char} {raw : Bytes} (h : HexText s raw) :
    HexDigits s raw ↔ s.length = 2 * raw.length := by
  refine ⟨HexDigits.length_eq, ?_⟩
  induction h with
  | nil => exact fun _ => .nil
  | space hc hs _ =>
    intro hlength
    have hle := hs.two_mul_length_le
    rw [List.length_cons] at hlength
    omega
  | @pair c d hi lo s raw hc hd _ ih =>
    intro hlength
    simp only [List.length_cons] at hlength
    unfold HexDigits
    rw [List.flatMap_cons, nibbles_ofNat (hexDigit?_bounds hc).1 (hexDigit?_bounds hd).1]
    exact .cons hc (.cons hd (ih (by omega)))

end Ddmp
