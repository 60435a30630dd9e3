import Mathlib.Data.List.DropRight
import Mathlib.Tactic.Common

/-!
# Base64

`encode` writes three bytes as four characters and pads the last group; `decode?` is the
strict reader: only the alphabet, padding only in the last group, nothing after it, and a
whole number of groups. It does not ask the unused low bits of a padded group to be zero.
`decodeExcess?` is the strict reader of an interpreter that passes over pads behind whole groups.

The results other developments need are the round trip `decode?_encode`, the alphabet of an
encoding (`mem_encode`), and the two shapes no accepted text has: a length that is not a
multiple of four (`length_of_decode?`) and a pad before the last two characters
(`no_pad_of_decode?`). `decodeExcess?_append` says which texts in front of an encoding spoil it
for both readers.
-/

namespace Lib.Base64

/-- The pad character `=`. -/
def pad : UInt8 := 61

/-- The character for a six-bit value. -/
def charOf (n : ℕ) : UInt8 :=
  if n < 26 then UInt8.ofNat (65 + n)
  else if n < 52 then UInt8.ofNat (71 + n)
  else if n < 62 then UInt8.ofNat (n - 4)
  else if n = 62 then 43
  else 47

/-- The six-bit value of a character of the alphabet. -/
def valueOf? (c : UInt8) : Option ℕ :=
  let n := c.toNat
  if 65 ≤ n ∧ n ≤ 90 then some (n - 65)
  else if 97 ≤ n ∧ n ≤ 122 then some (n - 71)
  else if 48 ≤ n ∧ n ≤ 57 then some (n + 4)
  else if n = 43 then some 62
  else if n = 47 then some 63
  else none

/-- Base64 of a byte string. -/
def encode : List UInt8 → List UInt8
  | [] => []
  | [a] => [charOf (a.toNat / 4), charOf (a.toNat % 4 * 16), pad, pad]
  | [a, b] =>
    [charOf (a.toNat / 4), charOf (a.toNat % 4 * 16 + b.toNat / 16),
      charOf (b.toNat % 16 * 4), pad]
  | a :: b :: c :: rest =>
    charOf (a.toNat / 4) :: charOf (a.toNat % 4 * 16 + b.toNat / 16)
      :: charOf (b.toNat % 16 * 4 + c.toNat / 64) :: charOf (c.toNat % 64) :: encode rest

/-- The byte made of two six-bit values, the first shifted left by `up` and the second right
by as much as is missing to eight bits. -/
def byteOf (v w up down : ℕ) : UInt8 := UInt8.ofNat (v % (256 / up) * up + w / down)

/-- Strict base64 decoding. -/
def decode? : List UInt8 → Option (List UInt8)
  | [] => some []
  | c₀ :: c₁ :: c₂ :: c₃ :: rest => do
    let v₀ ← valueOf? c₀
    let v₁ ← valueOf? c₁
    if c₂ = pad then
      -- one byte is left; nothing may follow the two pads
      if c₃ = pad ∧ rest = [] then some [byteOf v₀ v₁ 4 16] else none
    else
      let v₂ ← valueOf? c₂
      if c₃ = pad then
        -- two bytes are left; nothing may follow the pad
        if rest = [] then some [byteOf v₀ v₁ 4 16, byteOf v₁ v₂ 16 4] else none
      else
        let v₃ ← valueOf? c₃
        let more ← decode? rest
        some (byteOf v₀ v₁ 4 16 :: byteOf v₁ v₂ 16 4 :: byteOf v₂ v₃ 64 1 :: more)
  | _ => none

/-- Strict base64 decoding that passes over any pads behind whole groups. -/
def decodeExcess? (cs : List UInt8) : Option (List UInt8) :=
  match decode? cs, cs.rdropWhile (· = pad) with
  | some bs, _ => some bs
  -- a text of pads only is no base64
  | none, [] => none
  | none, text => decode? text

/-! ## The alphabet -/

theorem valueOf?_charOf : ∀ n < 64, valueOf? (charOf n) = some n := by decide

theorem charOf_ne_pad : ∀ n < 64, charOf n ≠ pad := by decide

theorem valueOf?_pad : valueOf? pad = none := by decide

/-- The characters an encoding is made of. -/
def IsChar (c : UInt8) : Prop := c = pad ∨ ∃ n < 64, c = charOf n

theorem isChar_charOf {n : ℕ} (h : n < 64) : IsChar (charOf n) := Or.inr ⟨n, h, rfl⟩

/-- Every character of an encoding is above the control characters and the blank. -/
theorem IsChar.lt {c : UInt8} (h : IsChar c) : 32 < c.toNat := by
  have hchar : ∀ n < 64, 32 < (charOf n).toNat := by decide
  rcases h with rfl | ⟨n, hn, rfl⟩
  · decide
  · exact hchar n hn

section Groups

variable (a b c : UInt8)

lemma lead_lt : a.toNat / 4 < 64 := by have := a.toNat_lt; omega
lemma low_two_lt : a.toNat % 4 * 16 < 64 := by omega
lemma second_lt : a.toNat % 4 * 16 + b.toNat / 16 < 64 := by have := b.toNat_lt; omega
lemma low_four_lt : b.toNat % 16 * 4 < 64 := by omega
lemma third_lt : b.toNat % 16 * 4 + c.toNat / 64 < 64 := by have := c.toNat_lt; omega
lemma fourth_lt : c.toNat % 64 < 64 := by omega

end Groups

/-- The characters of an encoding. -/
theorem mem_encode {bs : List UInt8} {c : UInt8} (h : c ∈ encode bs) : IsChar c := by
  induction bs using encode.induct with
  | case1 => simp [encode] at h
  | case2 a =>
    simp only [encode, List.mem_cons, List.not_mem_nil, or_false] at h
    rcases h with rfl | rfl | rfl | rfl
    · exact isChar_charOf (lead_lt a)
    · exact isChar_charOf (low_two_lt a)
    · exact Or.inl rfl
    · exact Or.inl rfl
  | case3 a b =>
    simp only [encode, List.mem_cons, List.not_mem_nil, or_false] at h
    rcases h with rfl | rfl | rfl | rfl
    · exact isChar_charOf (lead_lt a)
    · exact isChar_charOf (second_lt a b)
    · exact isChar_charOf (low_four_lt b)
    · exact Or.inl rfl
  | case4 a b d rest ih =>
    simp only [encode, List.mem_cons] at h
    rcases h with rfl | rfl | rfl | rfl | h
    · exact isChar_charOf (lead_lt a)
    · exact isChar_charOf (second_lt a b)
    · exact isChar_charOf (third_lt b d)
    · exact isChar_charOf (fourth_lt d)
    · exact ih h

/-- An encoding is a whole number of groups. -/
theorem length_encode (bs : List UInt8) : (encode bs).length = (bs.length + 2) / 3 * 4 := by
  induction bs using encode.induct with
  | case1 => rfl
  | case2 a => simp [encode]
  | case3 a b => simp [encode]
  | case4 a b c rest ih =>
    rw [encode]
    simp only [List.length_cons, ih]
    omega

/-! ## Round trip -/

/-- Putting the leading six bits and the next two back together. -/
lemma byteOf_lead (a : UInt8) (lo : ℕ) (hlo : lo < 16) :
    byteOf (a.toNat / 4) (a.toNat % 4 * 16 + lo) 4 16 = a := by
  have ha := a.toNat_lt
  have hval : a.toNat / 4 % (256 / 4) * 4 + (a.toNat % 4 * 16 + lo) / 16 = a.toNat := by omega
  rw [byteOf, hval, UInt8.ofNat_toNat]

lemma byteOf_middle (b : UInt8) (hi lo : ℕ) (hlo : lo < 4) :
    byteOf (hi * 16 + b.toNat / 16) (b.toNat % 16 * 4 + lo) 16 4 = b := by
  have hb := b.toNat_lt
  have hval : (hi * 16 + b.toNat / 16) % (256 / 16) * 16 + (b.toNat % 16 * 4 + lo) / 4
      = b.toNat := by omega
  rw [byteOf, hval, UInt8.ofNat_toNat]

lemma byteOf_last (c : UInt8) (hi : ℕ) :
    byteOf (hi * 4 + c.toNat / 64) (c.toNat % 64) 64 1 = c := by
  have hc := c.toNat_lt
  have hval : (hi * 4 + c.toNat / 64) % (256 / 64) * 64 + c.toNat % 64 / 1 = c.toNat := by
    omega
  rw [byteOf, hval, UInt8.ofNat_toNat]

/-- Decoding an encoding gives the bytes back. -/
theorem decode?_encode (bs : List UInt8) : decode? (encode bs) = some bs := by
  induction bs using encode.induct with
  | case1 => rfl
  | case2 a =>
    have hlead := byteOf_lead a 0 (by omega)
    rw [Nat.add_zero] at hlead
    simp [encode, decode?, valueOf?_charOf _ (lead_lt a), valueOf?_charOf _ (low_two_lt a),
      hlead]
  | case3 a b =>
    have hmid := byteOf_middle b (a.toNat % 4) 0 (by omega)
    rw [Nat.add_zero] at hmid
    have hb : b.toNat / 16 < 16 := by have := b.toNat_lt; omega
    simp [encode, decode?, valueOf?_charOf _ (lead_lt a), valueOf?_charOf _ (second_lt a b),
      valueOf?_charOf _ (low_four_lt b), charOf_ne_pad _ (low_four_lt b),
      byteOf_lead a _ hb, hmid]
  | case4 a b c rest ih =>
    have hb : b.toNat / 16 < 16 := by have := b.toNat_lt; omega
    have hc : c.toNat / 64 < 4 := by have := c.toNat_lt; omega
    simp [encode, decode?, valueOf?_charOf _ (lead_lt a), valueOf?_charOf _ (second_lt a b),
      valueOf?_charOf _ (third_lt b c), valueOf?_charOf _ (fourth_lt c),
      charOf_ne_pad _ (third_lt b c), charOf_ne_pad _ (fourth_lt c), byteOf_lead a _ hb,
      byteOf_middle b _ _ hc, byteOf_last c, ih]

/-! ## What no accepted text looks like -/

/-- The texts with a full group in front that are accepted. -/
theorem decode?_group {c₀ c₁ c₂ c₃ : UInt8} {rest : List UInt8}
    (h : (decode? (c₀ :: c₁ :: c₂ :: c₃ :: rest)).isSome) :
    c₀ ≠ pad ∧ c₁ ≠ pad ∧ ((c₂ = pad ∨ c₃ = pad) → rest = []) ∧ (c₂ = pad → c₃ = pad)
      ∧ (decode? rest).isSome := by
  have hval : ∀ {c : UInt8} {v : ℕ}, valueOf? c = some v → c ≠ pad := by
    rintro c v hc rfl
    simp [valueOf?_pad] at hc
  obtain ⟨out, hout⟩ := Option.isSome_iff_exists.mp h
  simp only [decode?, Option.bind_eq_bind, Option.bind_eq_some_iff] at hout
  obtain ⟨v₀, h₀, v₁, h₁, hout⟩ := hout
  refine ⟨hval h₀, hval h₁, ?_⟩
  by_cases hc₂ : c₂ = pad
  · rw [if_pos hc₂] at hout
    by_cases hlast : c₃ = pad ∧ rest = []
    · exact ⟨fun _ => hlast.2, fun _ => hlast.1, by rw [hlast.2]; rfl⟩
    · rw [if_neg hlast] at hout
      cases hout
  · -- the third character is in the alphabet, the fourth may still be a pad
    rw [if_neg hc₂, Option.bind_eq_some_iff] at hout
    obtain ⟨v₂, -, hout⟩ := hout
    by_cases hc₃ : c₃ = pad
    · rw [if_pos hc₃] at hout
      by_cases hrest : rest = []
      · exact ⟨fun _ => hrest, fun h => absurd h hc₂, by rw [hrest]; rfl⟩
      · rw [if_neg hrest] at hout
        cases hout
    · rw [if_neg hc₃] at hout
      simp only [Option.bind_eq_some_iff] at hout
      obtain ⟨v₃, -, more, hmore, -⟩ := hout
      exact ⟨fun h => absurd h (not_or.mpr ⟨hc₂, hc₃⟩), fun h => absurd h hc₂,
        by rw [hmore]; rfl⟩

/-- Fewer than four characters are no group. -/
theorem decode?_short {cs : List UInt8} (hne : cs = [] → False)
    (hgroup : ∀ c₀ c₁ c₂ c₃ rest, cs = c₀ :: c₁ :: c₂ :: c₃ :: rest → False) :
    decode? cs = none := by
  match cs, hne, hgroup with
  | [], hne, _ => exact absurd rfl hne
  | [_], _, _ | [_, _], _, _ | [_, _, _], _, _ => rfl
  | c₀ :: c₁ :: c₂ :: c₃ :: rest, _, hgroup => exact absurd rfl (hgroup c₀ c₁ c₂ c₃ rest)

/-- An accepted text is a whole number of groups. -/
theorem length_of_decode? {cs : List UInt8} (h : (decode? cs).isSome) : cs.length % 4 = 0 := by
  induction cs using decode?.induct with
  | case1 => rfl
  | case2 c₀ c₁ c₂ c₃ rest ih =>
    have := ih (decode?_group h).2.2.2.2
    simp only [List.length_cons]
    omega
  | case3 cs h₁ h₂ =>
    rw [decode?_short h₁ h₂] at h
    exact nomatch h

/-- A pad of an accepted text is one of its last two characters. -/
theorem length_le_of_pad {cs : List UInt8} (h : (decode? cs).isSome) {i : ℕ}
    (hi : cs[i]? = some pad) : cs.length ≤ i + 2 := by
  induction cs using decode?.induct generalizing i with
  | case1 => simp at hi
  | case2 c₀ c₁ c₂ c₃ rest ih =>
    obtain ⟨hc₀, hc₁, hlast, -, hrest⟩ := decode?_group h
    match i with
    | 0 | 1 => simp_all
    | 2 | 3 =>
      -- a pad in the third or fourth place ends the text
      have hnil : rest = [] := hlast (by simp_all)
      simp [hnil]
    | i + 4 =>
      have := ih hrest (i := i) (by simpa using hi)
      simp only [List.length_cons]
      omega
  | case3 cs h₁ h₂ =>
    rw [decode?_short h₁ h₂] at h
    exact nomatch h

/-- In an accepted text at most one character follows a pad. -/
theorem no_pad_of_decode? {p t : List UInt8} (h : (decode? (p ++ t)).isSome) (hp : pad ∈ p) :
    t.length ≤ 1 := by
  obtain ⟨i, hi, hpad⟩ := List.mem_iff_getElem.mp hp
  have hget : (p ++ t)[i]? = some pad := by
    rw [List.getElem?_append_left hi, List.getElem?_eq_getElem hi, hpad]
  have := length_le_of_pad h hget
  rw [List.length_append] at this
  omega

/-! ## An encoding behind other text -/

/-- An encoding is at least two characters of the alphabet and up to two pads. -/
theorem exists_encode_eq {bs : List UInt8} (hbs : bs ≠ []) :
    ∃ body k, encode bs = body ++ List.replicate k pad ∧ pad ∉ body ∧ 2 ≤ body.length ∧ k ≤ 2 := by
  have hne {n : ℕ} (hn : n < 64) : pad ≠ charOf n := (charOf_ne_pad n hn).symm
  induction bs using encode.induct with
  | case1 => exact absurd rfl hbs
  | case2 a =>
    refine ⟨[charOf (a.toNat / 4), charOf (a.toNat % 4 * 16)], 2, rfl, ?_, le_refl 2, le_refl 2⟩
    simp [hne (lead_lt a), hne (low_two_lt a)]
  | case3 a b =>
    refine ⟨[charOf (a.toNat / 4), charOf (a.toNat % 4 * 16 + b.toNat / 16),
      charOf (b.toNat % 16 * 4)], 1, rfl, ?_, by simp, by omega⟩
    simp [hne (lead_lt a), hne (second_lt a b), hne (low_four_lt b)]
  | case4 a b c rest ih =>
    have hgroup : pad ∉ [charOf (a.toNat / 4), charOf (a.toNat % 4 * 16 + b.toNat / 16),
        charOf (b.toNat % 16 * 4 + c.toNat / 64), charOf (c.toNat % 64)] := by
      simp [hne (lead_lt a), hne (second_lt a b), hne (third_lt b c), hne (fourth_lt c)]
    by_cases hrest : rest = []
    -- the pads are those of the last group
    · exact ⟨_, 0, by rw [hrest]; rfl, hgroup, by simp, Nat.zero_le 2⟩
    · obtain ⟨body, k, heq, hpad, hlen, hk⟩ := ih hrest
      refine ⟨_ :: _ :: _ :: _ :: body, k, by rw [encode, heq]; rfl, ?_, ?_, hk⟩
      · simp only [List.mem_cons, List.not_mem_nil, or_false, not_or] at hgroup ⊢
        exact ⟨hgroup.1, hgroup.2.1, hgroup.2.2.1, hgroup.2.2.2, hpad⟩
      · simp only [List.length_cons]
        omega

theorem decodeExcess?_of_decode? {cs bs : List UInt8} (h : decode? cs = some bs) :
    decodeExcess? cs = some bs := by
  rw [decodeExcess?, h]

/-- What the reader of excess pads drops is the pads at the end. -/
theorem rdropWhile_pads {body : List UInt8} (hbody : body ≠ []) (hpad : pad ∉ body)
    (p : List UInt8) (k : ℕ) :
    (p ++ (body ++ List.replicate k pad)).rdropWhile (· = pad) = p ++ body := by
  induction k with
  | zero =>
    -- the last character is the last of the body
    rw [List.replicate_zero, List.append_nil, List.rdropWhile_eq_self_iff]
    intro hne hlast
    rw [List.getLast_append_of_ne_nil hne hbody, decide_eq_true_eq] at hlast
    exact hpad (hlast ▸ List.getLast_mem hbody)
  | succ k ih =>
    have hdrop := List.rdropWhile_concat_pos (fun c => decide (c = pad))
      (p ++ (body ++ List.replicate k pad)) pad (decide_eq_true rfl)
    rw [List.replicate_succ', ← List.append_assoc, ← List.append_assoc, List.append_assoc p,
      hdrop, ih]

/-- A text in front of an encoding that has a pad, or does not make its characters other than
pads whole groups, spoils it for both readers. -/
theorem decodeExcess?_append {p bs : List UInt8} (hbs : bs ≠ [])
    (h : pad ∈ p ∨ p.length % 4 ≠ 0 ∧ p.length % 4 ≠ (encode bs).count pad) :
    decode? (p ++ encode bs) = none ∧ decodeExcess? (p ++ encode bs) = none := by
  obtain ⟨body, k, heq, hpad, hlen, hk⟩ := exists_encode_eq hbs
  have hgroups := length_encode bs
  have hcount : (encode bs).count pad = k := by
    rw [heq, List.count_append, List.count_eq_zero_of_not_mem hpad, List.count_replicate_self,
      Nat.zero_add]
  have htotal : (encode bs).length = body.length + k := by
    rw [heq, List.length_append, List.length_replicate]
  -- the whole text has a pad before its end, or no whole number of groups
  have hnone : decode? (p ++ encode bs) = none := by
    refine Option.not_isSome_iff_eq_none.mp fun hsome => ?_
    rcases h with hp | ⟨hzero, -⟩
    · have := no_pad_of_decode? hsome hp
      omega
    · have := length_of_decode? hsome
      rw [List.length_append] at this
      omega
  -- nor is what is left when the pads at its end are dropped
  have hbody : decode? (p ++ body) = none := by
    refine Option.not_isSome_iff_eq_none.mp fun hsome => ?_
    rcases h with hp | ⟨-, hpads⟩
    · have := no_pad_of_decode? hsome hp
      omega
    · have := length_of_decode? hsome
      rw [List.length_append] at this
      omega
  refine ⟨hnone, ?_⟩
  -- without the pads at its end the text is no base64 either
  have hne : body ≠ [] := List.ne_nil_of_length_pos (by omega)
  have htext : (p ++ encode bs).rdropWhile (· = pad) = p ++ body := by
    rw [heq, rdropWhile_pads hne hpad]
  rw [decodeExcess?, hnone, htext]
  split
  · rename_i hsome
    cases hsome
  · rfl
  · exact hbody

example : encode [0x12, 4, 0, 0, 0x1a] = [69, 103, 81, 65, 65, 66, 111, 61] := by decide

end Lib.Base64
