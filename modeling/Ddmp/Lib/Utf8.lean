import Mathlib.Tactic.Common

/-!
# UTF-8 with replacement

`decodeReplace` reads any byte string: each maximal ill-formed part becomes one U+FFFD, as
Unicode recommends and `bytes.decode("utf-8", errors="replace")` does. `encode` is the
UTF-8 encoder of the core library, over character lists. `decodeReplace_encode` is the round
trip.
-/

namespace Lib.Utf8

/-- U+FFFD, written for an ill-formed part. -/
def replacement : Char := Char.ofNat 0xFFFD

/-- A continuation byte. -/
def isCont (b : UInt8) : Bool := 0x80 ≤ b.toNat && b.toNat ≤ 0xBF

/-- The bytes that may follow the lead byte `b`: overlong forms, surrogates and values above
U+10FFFF are already excluded by the second byte. -/
def isSecond (b c : UInt8) : Bool :=
  isCont c && !(b.toNat == 0xE0 && c.toNat < 0xA0) && !(b.toNat == 0xED && 0xA0 ≤ c.toNat)
    && !(b.toNat == 0xF0 && c.toNat < 0x90) && !(b.toNat == 0xF4 && 0x90 ≤ c.toNat)

/-- UTF-8 decoding that replaces ill-formed parts. -/
def decodeReplace : List UInt8 → List Char
  | [] => []
  | b :: rest =>
    if b.toNat < 0x80 then Char.ofNat b.toNat :: decodeReplace rest
    else if b.toNat < 0xC2 ∨ 0xF4 < b.toNat then replacement :: decodeReplace rest
    else match rest with
      | [] => [replacement]
      | c :: rest₁ =>
        if !isSecond b c then replacement :: decodeReplace (c :: rest₁)
        else if b.toNat < 0xE0 then
          Char.ofNat (b.toNat % 32 * 64 + c.toNat % 64) :: decodeReplace rest₁
        else match rest₁ with
          | [] => [replacement]
          | e :: rest₂ =>
            if !isCont e then replacement :: decodeReplace (e :: rest₂)
            else if b.toNat < 0xF0 then
              Char.ofNat (b.toNat % 16 * 4096 + c.toNat % 64 * 64 + e.toNat % 64)
                :: decodeReplace rest₂
            else match rest₂ with
              | [] => [replacement]
              | f :: rest₃ =>
                if !isCont f then replacement :: decodeReplace (f :: rest₃)
                else
                  Char.ofNat (b.toNat % 8 * 262144 + c.toNat % 64 * 4096 + e.toNat % 64 * 64
                    + f.toNat % 64) :: decodeReplace rest₃

/-- UTF-8 encoding. -/
def encode (s : List Char) : List UInt8 := s.flatMap String.utf8EncodeChar

/-! ## One character -/

theorem isCont_iff {b : UInt8} : isCont b = true ↔ 0x80 ≤ b.toNat ∧ b.toNat ≤ 0xBF := by
  simp only [isCont, Bool.and_eq_true, decide_eq_true_eq]

theorem isSecond_iff {b c : UInt8} : isSecond b c = true ↔ (0x80 ≤ c.toNat ∧ c.toNat ≤ 0xBF)
    ∧ (b.toNat = 0xE0 → 0xA0 ≤ c.toNat) ∧ (b.toNat = 0xED → c.toNat < 0xA0)
    ∧ (b.toNat = 0xF0 → 0x90 ≤ c.toNat) ∧ (b.toNat = 0xF4 → c.toNat < 0x90) := by
  simp only [isSecond, Bool.and_eq_true, isCont_iff, Bool.not_eq_true', Bool.and_eq_false_iff,
    beq_eq_false_iff_ne, decide_eq_false_iff_not, ne_eq]
  omega

theorem decodeReplace_ascii {b : UInt8} (hb : b.toNat < 0x80) (rest : List UInt8) :
    decodeReplace (b :: rest) = Char.ofNat b.toNat :: decodeReplace rest := by
  rw [decodeReplace.eq_def]
  simp only [if_pos hb]

theorem decodeReplace_two {b c : UInt8} (hlo : 0xC2 ≤ b.toNat) (hhi : b.toNat < 0xE0)
    (hc : isSecond b c = true) (rest : List UInt8) :
    decodeReplace (b :: c :: rest)
      = Char.ofNat (b.toNat % 32 * 64 + c.toNat % 64) :: decodeReplace rest := by
  have hascii : ¬ b.toNat < 0x80 := by omega
  have hlead : ¬ (b.toNat < 0xC2 ∨ 0xF4 < b.toNat) := by omega
  rw [decodeReplace.eq_def]
  simp only [if_neg hascii, if_neg hlead, hc, Bool.not_true, Bool.false_eq_true, if_false,
    if_pos hhi]

theorem decodeReplace_three {b c e : UInt8} (hlo : 0xE0 ≤ b.toNat) (hhi : b.toNat < 0xF0)
    (hc : isSecond b c = true) (he : isCont e = true) (rest : List UInt8) :
    decodeReplace (b :: c :: e :: rest)
      = Char.ofNat (b.toNat % 16 * 4096 + c.toNat % 64 * 64 + e.toNat % 64)
        :: decodeReplace rest := by
  have hascii : ¬ b.toNat < 0x80 := by omega
  have hlead : ¬ (b.toNat < 0xC2 ∨ 0xF4 < b.toNat) := by omega
  have htwo : ¬ b.toNat < 0xE0 := by omega
  rw [decodeReplace.eq_def]
  simp only [if_neg hascii, if_neg hlead, hc, he, Bool.not_true, Bool.false_eq_true, if_false,
    if_neg htwo, if_pos hhi]

theorem decodeReplace_four {b c e f : UInt8} (hlo : 0xF0 ≤ b.toNat) (hhi : b.toNat ≤ 0xF4)
    (hc : isSecond b c = true) (he : isCont e = true) (hf : isCont f = true) (rest : List UInt8) :
    decodeReplace (b :: c :: e :: f :: rest)
      = Char.ofNat (b.toNat % 8 * 262144 + c.toNat % 64 * 4096 + e.toNat % 64 * 64 + f.toNat % 64)
        :: decodeReplace rest := by
  have hascii : ¬ b.toNat < 0x80 := by omega
  have hlead : ¬ (b.toNat < 0xC2 ∨ 0xF4 < b.toNat) := by omega
  have htwo : ¬ b.toNat < 0xE0 := by omega
  have hthree : ¬ b.toNat < 0xF0 := by omega
  rw [decodeReplace.eq_def]
  simp only [if_neg hascii, if_neg hlead, hc, he, hf, Bool.not_true, Bool.false_eq_true, if_false,
    if_neg htwo, if_neg hthree]

/-- The byte of a number below 256. -/
theorem toNat_ofNat {n : ℕ} (h : n < 256) : (UInt8.ofNat n).toNat = n := by
  rw [UInt8.toNat_ofNat']
  omega

theorem isCont_ofNat {n : ℕ} (h : n < 64) : isCont (UInt8.ofNat (n + 0x80)) = true := by
  rw [isCont_iff, toNat_ofNat (by omega)]
  omega

/-- The second byte that the encoder writes for a character is allowed after its first one. -/
theorem isSecond_ofNat {b : UInt8} {n : ℕ} (h : n < 64) (hE0 : b.toNat = 0xE0 → 0x20 ≤ n)
    (hED : b.toNat = 0xED → n < 0x20) (hF0 : b.toNat = 0xF0 → 0x10 ≤ n)
    (hF4 : b.toNat = 0xF4 → n < 0x10) : isSecond b (UInt8.ofNat (n + 0x80)) = true := by
  rw [isSecond_iff, toNat_ofNat (by omega)]
  omega

/-- Decoding the bytes of one character. -/
theorem decodeReplace_encodeChar (c : Char) (rest : List UInt8) :
    decodeReplace (String.utf8EncodeChar c ++ rest) = c :: decodeReplace rest := by
  have hchar : Char.ofNat c.val.toNat = c := Char.ofNat_toNat c
  have hvalid : c.val.toNat < 0xD800 ∨ 0xDFFF < c.val.toNat ∧ c.val.toNat < 0x110000 := c.valid
  rw [String.utf8EncodeChar]
  generalize c.val.toNat = v at *
  split
  · have hbyte := toNat_ofNat (n := v) (by omega)
    rw [List.singleton_append, decodeReplace_ascii (by omega), hbyte, hchar]
  · split
    · have hb := toNat_ofNat (n := v / 64 % 0x20 + 0xC0) (by omega)
      have hc := toNat_ofNat (n := v % 0x40 + 0x80) (by omega)
      have hsecond := isSecond_ofNat (b := UInt8.ofNat (v / 64 % 0x20 + 0xC0)) (n := v % 0x40)
        (by omega) (by omega) (by omega) (by omega) (by omega)
      rw [List.cons_append, List.singleton_append,
        decodeReplace_two (by omega) (by omega) hsecond, hb, hc]
      have hvalue : (v / 64 % 0x20 + 0xC0) % 32 * 64 + (v % 0x40 + 0x80) % 64 = v := by omega
      rw [hvalue, hchar]
    · split
      · have hb := toNat_ofNat (n := v / 4096 % 0x10 + 0xE0) (by omega)
        have hc := toNat_ofNat (n := v / 64 % 0x40 + 0x80) (by omega)
        have he := toNat_ofNat (n := v % 0x40 + 0x80) (by omega)
        have hsecond := isSecond_ofNat (b := UInt8.ofNat (v / 4096 % 0x10 + 0xE0))
          (n := v / 64 % 0x40) (by omega) (by omega) (by omega) (by omega) (by omega)
        rw [List.cons_append, List.cons_append, List.singleton_append,
          decodeReplace_three (by omega) (by omega) hsecond (isCont_ofNat (by omega)), hb, hc, he]
        have hvalue : (v / 4096 % 0x10 + 0xE0) % 16 * 4096 + (v / 64 % 0x40 + 0x80) % 64 * 64
            + (v % 0x40 + 0x80) % 64 = v := by omega
        rw [hvalue, hchar]
      · have hb := toNat_ofNat (n := v / 262144 % 0x08 + 0xF0) (by omega)
        have hc := toNat_ofNat (n := v / 4096 % 0x40 + 0x80) (by omega)
        have he := toNat_ofNat (n := v / 64 % 0x40 + 0x80) (by omega)
        have hf := toNat_ofNat (n := v % 0x40 + 0x80) (by omega)
        have hsecond := isSecond_ofNat (b := UInt8.ofNat (v / 262144 % 0x08 + 0xF0))
          (n := v / 4096 % 0x40) (by omega) (by omega) (by omega) (by omega) (by omega)
        rw [List.cons_append, List.cons_append, List.cons_append, List.singleton_append,
          decodeReplace_four (by omega) (by omega) hsecond (isCont_ofNat (by omega))
            (isCont_ofNat (by omega)), hb, hc, he, hf]
        have hvalue : (v / 262144 % 0x08 + 0xF0) % 8 * 262144
            + (v / 4096 % 0x40 + 0x80) % 64 * 4096 + (v / 64 % 0x40 + 0x80) % 64 * 64
            + (v % 0x40 + 0x80) % 64 = v := by omega
        rw [hvalue, hchar]

/-- Decoding an encoded text gives the text back. -/
theorem decodeReplace_encode (s : List Char) : decodeReplace (encode s) = s := by
  induction s with
  | nil => rfl
  | cons c s ih =>
    rw [encode, List.flatMap_cons, decodeReplace_encodeChar]
    exact congrArg (c :: ·) ih

/-! ## NUL -/

theorem ofNat_ne_nul {n : ℕ} (hvalid : n.isValidChar) (h : n ≠ 0) :
    Char.ofNat n ≠ Char.ofNat 0 := by
  intro heq
  have htoNat : (Char.ofNat n).toNat = n := by
    rw [Char.ofNat, dif_pos hvalid]
    rfl
  rw [heq] at htoNat
  exact h htoNat.symm

/-- A text without NUL is encoded without the byte 0. -/
theorem zero_not_mem_encode {s : List Char} (h : ∀ c ∈ s, c ≠ Char.ofNat 0) : 0 ∉ encode s := by
  intro hmem
  obtain ⟨c, hc, hzero⟩ := List.mem_flatMap.mp hmem
  have hne : ∀ n : ℕ, 0 < n → n < 256 → (0 : UInt8) ≠ UInt8.ofNat n := by
    intro n hpos hlt heq
    have htoNat := congrArg UInt8.toNat heq
    rw [toNat_ofNat hlt, UInt8.toNat_zero] at htoNat
    omega
  have hnul : c.val.toNat ≠ 0 := by
    intro hval
    exact h c hc ((Char.ofNat_toNat c).symm.trans (congrArg Char.ofNat hval))
  rw [String.utf8EncodeChar] at hzero
  generalize c.val.toNat = v at *
  split at hzero
  · exact hne v (by omega) (by omega) (List.mem_singleton.mp hzero)
  · split at hzero
    · simp only [List.mem_cons, List.not_mem_nil, or_false] at hzero
      rcases hzero with hzero | hzero <;> exact hne _ (by omega) (by omega) hzero
    · split at hzero
      · simp only [List.mem_cons, List.not_mem_nil, or_false] at hzero
        rcases hzero with hzero | hzero | hzero <;> exact hne _ (by omega) (by omega) hzero
      · simp only [List.mem_cons, List.not_mem_nil, or_false] at hzero
        rcases hzero with hzero | hzero | hzero | hzero <;> exact hne _ (by omega) (by omega) hzero

/-- Bytes other than 0 are never decoded to NUL. -/
theorem ne_nul_of_mem_decodeReplace {bs : List UInt8} (h : 0 ∉ bs) :
    ∀ c ∈ decodeReplace bs, c ≠ Char.ofNat 0 := by
  have hreplacement : replacement ≠ Char.ofNat 0 := ofNat_ne_nul (by decide) (by decide)
  have hne : ∀ {b : UInt8} {rest : List UInt8}, 0 ∉ b :: rest → b.toNat ≠ 0 ∧ 0 ∉ rest := by
    intro b rest h
    rw [List.mem_cons, not_or] at h
    exact ⟨fun hb => h.1 (UInt8.toNat_inj.mp hb).symm, h.2⟩
  -- an ill-formed part becomes the replacement, a character is what its bytes say
  fun_induction decodeReplace bs with
  | case1 => exact fun c hc => absurd hc List.not_mem_nil
  | case2 b rest hb ih =>
    refine List.forall_mem_cons.mpr ⟨ofNat_ne_nul (.inl (by omega)) (hne h).1, ih (hne h).2⟩
  | case3 b rest _ _ ih => exact List.forall_mem_cons.mpr ⟨hreplacement, ih (hne h).2⟩
  | case4 | case7 | case10 =>
    exact List.forall_mem_cons.mpr ⟨hreplacement, fun c hc => absurd hc List.not_mem_nil⟩
  | case5 b _ _ c rest _ ih => exact List.forall_mem_cons.mpr ⟨hreplacement, ih (hne h).2⟩
  | case6 b _ _ c rest hc _ ih =>
    have hsecond := isSecond_iff.mp (by simpa using hc)
    refine List.forall_mem_cons.mpr ⟨ofNat_ne_nul (.inl (by omega)) (by omega), ?_⟩
    exact ih (hne (hne h).2).2
  | case8 b _ _ c _ _ e rest _ ih =>
    exact List.forall_mem_cons.mpr ⟨hreplacement, ih (hne (hne h).2).2⟩
  | case9 b _ _ c hc _ e rest he _ ih =>
    have hsecond := isSecond_iff.mp (by simpa using hc)
    have hcont := isCont_iff.mp (by simpa using he)
    refine List.forall_mem_cons.mpr ⟨ofNat_ne_nul (by unfold Nat.isValidChar; omega) (by omega), ?_⟩
    exact ih (hne (hne (hne h).2).2).2
  | case11 b _ _ c _ _ e _ _ f rest _ ih =>
    exact List.forall_mem_cons.mpr ⟨hreplacement, ih (hne (hne (hne h).2).2).2⟩
  | case12 b _ _ c hc _ e he _ f rest hf ih =>
    have hsecond := isSecond_iff.mp (by simpa using hc)
    have hcont := isCont_iff.mp (by simpa using he)
    have hlast := isCont_iff.mp (by simpa using hf)
    refine List.forall_mem_cons.mpr ⟨ofNat_ne_nul (by unfold Nat.isValidChar; omega) (by omega), ?_⟩
    exact ih (hne (hne (hne (hne h).2).2).2).2

end Lib.Utf8
