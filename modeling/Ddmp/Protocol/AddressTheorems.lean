import Ddmp.Lib.Pieces
import Ddmp.Protocol.LineDecoderTheorems
import Ddmp.Protocol.Topics
import Ddmp.Python.TextTheorems

/-!
# Addresses and topics as text

`Address.parse` takes any eight characters for eight digits, but `bytes.fromhex` passes over white
space, and then there are fewer than four bytes. `resolves_iff` says that this is the only way for
an exception to get past `topic`.
-/

namespace Ddmp

open Lib

namespace Address

/-! ## Parsing -/

/-- The text without colons, blanks and the white space around it. -/
def cleaned (text : String) : List Char :=
  strStrip ((text.toList.filter (· ≠ ':')).filter (· ≠ ' '))

/-- Without colons, blanks and the white space around it, the text is the eight digits of the four
bytes of the address. -/
def SpelledBy (a : Address) (text : String) : Prop :=
  ∃ p i s c : UInt8, HexDigits (cleaned text) [p, i, s, c]
    ∧ a = ⟨p.toNat, i.toNat, s.toNat, c.toNat⟩

/-- Without colons, blanks and the white space around it, the text has eight characters, which are
fewer than four pairs of digits, and white space around the pairs. -/
def Gapped (text : String) : Prop :=
  (cleaned text).length = 8 ∧ ∃ raw, HexText (cleaned text) raw ∧ raw.length < 4

variable {text : String} {a : Address}

theorem parse_of_length_ne (h : (cleaned text).length ≠ 8) : parse text
    = .error (.valueError [.lit "address must be 4 hex bytes: ", .val (.str text)]) := if_pos h

theorem parse_of_length_eq (h : (cleaned text).length = 8) :
    parse text = orRaise (.valueError []) (fromHex? (cleaned text)) >>= fromBytes :=
  if_neg (not_not.mpr h)

theorem fromBytes_of_lt {raw : Bytes} (h : raw.length < 4) : fromBytes raw
    = .error (.decodeError [.lit "address needs 4 bytes, got ", .val (.int raw.length)]) := by
  match raw, h with
  | [], _ | [_], _ | [_, _], _ | [_, _, _], _ => rfl

theorem SpelledBy.parse_eq (h : a.SpelledBy text) : parse text = .ok a := by
  obtain ⟨p, i, s, c, hdigits, rfl⟩ := h
  rw [parse_of_length_eq hdigits.length_eq, hdigits.hexText.fromHex?_eq]
  rfl

theorem SpelledBy.exists_hexText (h : a.SpelledBy text) : ∃ raw, HexText (cleaned text) raw := by
  obtain ⟨p, i, s, c, hdigits, -⟩ := h
  exact ⟨_, hdigits.hexText⟩

theorem parse_of_hexText {raw : Bytes} (hlength : (cleaned text).length = 8)
    (htext : HexText (cleaned text) raw) (hlt : raw.length < 4) : parse text
      = .error (.decodeError [.lit "address needs 4 bytes, got ", .val (.int raw.length)]) := by
  rw [parse_of_length_eq hlength, htext.fromHex?_eq]
  exact fromBytes_of_lt hlt

theorem Gapped.exists_parse_eq (h : Gapped text) :
    ∃ msg, parse text = .error (.decodeError msg) := by
  obtain ⟨hlength, raw, htext, hlt⟩ := h
  exact ⟨_, parse_of_hexText hlength htext hlt⟩

/-- There is nothing else than digits, digits with gaps, and what is refused by `ValueError`. -/
theorem spelledBy_or_gapped_or (text : String) :
    (∃ a : Address, a.SpelledBy text) ∨ Gapped text
      ∨ ∃ msg, parse text = .error (.valueError msg) := by
  by_cases hlength : (cleaned text).length = 8
  · cases hraw : fromHex? (cleaned text) with
    | none =>
      right
      right
      refine ⟨[], ?_⟩
      rw [parse_of_length_eq hlength, hraw]
      rfl
    | some raw =>
      have htext := fromHex?_eq_some_iff.mp hraw
      have hle := htext.two_mul_length_le
      by_cases hlt : raw.length < 4
      · right
        left
        exact ⟨hlength, raw, htext, hlt⟩
      · left
        have hdigits := htext.hexDigits_iff.mpr (by omega)
        have hfour : raw.length = 4 := by omega
        obtain ⟨p, i, s, c, rfl⟩ := List.length_eq_four.mp hfour
        exact ⟨_, p, i, s, c, hdigits, rfl⟩
  · right
    right
    exact ⟨_, parse_of_length_ne hlength⟩

theorem parse_eq_ok_iff : parse text = .ok a ↔ a.SpelledBy text := by
  constructor
  · intro h
    rcases spelledBy_or_gapped_or text with ⟨a', hspelled⟩ | hgapped | ⟨msg, herror⟩
    · obtain rfl := Except.ok.inj (hspelled.parse_eq.symm.trans h)
      exact hspelled
    · obtain ⟨msg, herror⟩ := hgapped.exists_parse_eq
      cases herror.symm.trans h
    · cases herror.symm.trans h
  · exact SpelledBy.parse_eq

/-! ## The text of an address -/

/-- The digit of a number below 16, upper case. -/
def hexUpper (n : ℕ) : Char := n.digitChar.toUpper

theorem hexDigit?_hexUpper {n : ℕ} (h : n < 16) : hexDigit? (hexUpper n) = some n := by
  revert n
  decide

theorem isSpace_hexUpper {n : ℕ} (h : n < 16) : isSpace (hexUpper n) = false := by
  revert n
  decide

theorem hexUpper_ne_colon {n : ℕ} (h : n < 16) : hexUpper n ≠ ':' := by
  revert n
  decide

theorem hexUpper_ne_blank {n : ℕ} (h : n < 16) : hexUpper n ≠ ' ' := by
  revert n
  decide

theorem mem_map_hexUpper {b : UInt8} {c : Char} (hc : c ∈ (nibbles b).map hexUpper) :
    ∃ n < 16, c = hexUpper n := by
  have hb := b.toNat_lt
  simp only [nibbles, List.map_cons, List.map_nil, List.mem_cons, List.not_mem_nil, or_false] at hc
  rcases hc with rfl | rfl
  · exact ⟨_, by omega, rfl⟩
  · exact ⟨_, by omega, rfl⟩

/-- `f"{b:02X}"` of a byte is its two digits. -/
theorem toList_hex02X (b : UInt8) : (hex02X b.toNat).toList = (nibbles b).map hexUpper := by
  have hb := b.toNat_lt
  have hnot : ¬ (b.toNat : ℤ) < 0 := by omega
  unfold hex02X
  rw [Int.natAbs_natCast]
  dsimp only
  rw [if_neg hnot, String.toList_ofList, Nat.toDigits_eq_if (by decide)]
  split
  · rename_i hlt
    have hdiv : b.toNat / 16 = 0 := by omega
    have hmod : b.toNat % 16 = b.toNat := by omega
    rw [nibbles, hdiv, hmod]
    rfl
  · have hdigits : Nat.toDigits 16 (b.toNat / 16) = [(b.toNat / 16).digitChar] :=
      Nat.toDigits_of_lt_base (by omega)
    rw [hdigits]
    rfl

/-- Apart from the blanks, the text of an address is its digits. -/
theorem cleaned_str (p i s c : UInt8) : cleaned (str ⟨p.toNat, i.toNat, s.toNat, c.toNat⟩)
    = ([p, i, s, c].flatMap nibbles).map hexUpper := by
  have htext : (str ⟨p.toNat, i.toNat, s.toNat, c.toNat⟩).toList
      = [' '].intercalate ([p, i, s, c].map fun b => (nibbles b).map hexUpper) := by
    rw [str, String.toList_intercalate]
    simp only [toList, List.map_cons, List.map_nil, toList_hex02X]
    rfl
  have hfilter : ((str ⟨p.toNat, i.toNat, s.toNat, c.toNat⟩).toList.filter (· ≠ ':')).filter
      (· ≠ ' ') = ([p, i, s, c].flatMap nibbles).map hexUpper := by
    rw [htext, List.filter_filter, Pieces.filter_intercalate (by decide), ← List.flatMap_def,
      List.map_flatMap]
    rw [List.forall_mem_map]
    intro b _ x hx
    obtain ⟨n, hn, rfl⟩ := mem_map_hexUpper hx
    simp [hexUpper_ne_blank hn, hexUpper_ne_colon hn]
  unfold cleaned
  rw [hfilter]
  apply stripBy_eq_self
  rw [List.map_flatMap]
  intro x hx
  obtain ⟨b, -, hx⟩ := List.mem_flatMap.mp hx
  obtain ⟨n, hn, rfl⟩ := mem_map_hexUpper hx
  exact isSpace_hexUpper hn

/-- Every address of four bytes is spelled by its text. -/
theorem spelledBy_str (h : ∀ n ∈ a.toList, 0 ≤ n ∧ n < 256) : a.SpelledBy a.str := by
  obtain ⟨p, i, s, c, rfl⟩ := exists_bytes h
  refine ⟨p, i, s, c, ?_, rfl⟩
  rw [cleaned_str]
  exact hexDigits_map (fun n hn => hexDigit?_hexUpper hn) _

end Address

/-! ## Topics -/

/-- No topic has a name that could be read as an address. -/
theorem fromHex?_cleaned_name {t : Topic} (ht : t ∈ topics) :
    fromHex? (Address.cleaned t.name) = none := by
  revert t
  decide +kernel

theorem topicByName_eq_none {s : String} {raw : Bytes} (h : HexText (Address.cleaned s) raw) :
    topicByName.get? s = none := by
  cases hs : topicByName.get? s with
  | none => rfl
  | some t =>
    obtain ⟨ht, rfl⟩ := topicByName_eq_some.mp hs
    have hnone := fromHex?_cleaned_name ht
    rw [h.fromHex?_eq] at hnone
    cases hnone

/-- Which topic is found by a text. -/
theorem topic_name_eq_ok_iff {s : String} {t : Topic} :
    topic (.name s) = .ok t ↔ t ∈ topics ∧ (t.name = s ∨ t.address.SpelledBy s) := by
  constructor
  · intro h
    rcases topic_name_eq_ok h with hname | ⟨a, hparse, haddress⟩
    · obtain ⟨ht, rfl⟩ := topicByName_eq_some.mp hname
      exact ⟨ht, .inl rfl⟩
    · obtain ⟨ht, rfl⟩ := topicByAddress_eq_some.mp haddress
      exact ⟨ht, .inr (Address.parse_eq_ok_iff.mp hparse)⟩
  · rintro ⟨ht, rfl | hspelled⟩
    · have hname : topicByName.get? t.name = some t := topicByName_eq_some.mpr ⟨ht, rfl⟩
      rw [topic, hname]
    · obtain ⟨raw, htext⟩ := hspelled.exists_hexText
      rw [topic, topicByName_eq_none htext, hspelled.parse_eq]
      exact orRaise_eq_ok.mpr (topicByAddress_self ht)

/-- A `DecodeError` of `Address.parse` gets past `topic`. -/
theorem topic_of_hexText {s : String} {raw : Bytes} (hlength : (Address.cleaned s).length = 8)
    (htext : HexText (Address.cleaned s) raw) (hlt : raw.length < 4) : topic (.name s)
      = .error (.decodeError [.lit "address needs 4 bytes, got ", .val (.int raw.length)]) := by
  rw [topic, topicByName_eq_none htext, Address.parse_of_hexText hlength htext hlt]

/-- `topic` finds a topic with that name or address, or raises `KeyError`. -/
def FoundOrKeyError (s : String) : Prop :=
  (∃ t ∈ topics, (t.name = s ∨ t.address.SpelledBy s) ∧ topic (.name s) = .ok t)
    ∨ ∃ msg, topic (.name s) = .error (.keyError msg)

/-- `Address.parse` returns, or raises `ValueError`. -/
def ParsedOrValueError (s : String) : Prop :=
  (∃ a, Address.parse s = .ok a) ∨ ∃ msg, Address.parse s = .error (.valueError msg)

theorem parsedOrValueError_iff {s : String} : ParsedOrValueError s ↔ ¬ Address.Gapped s := by
  constructor
  · intro h hgapped
    obtain ⟨msg, herror⟩ := hgapped.exists_parse_eq
    rcases h with ⟨a, hparse⟩ | ⟨msg', hparse⟩
    · cases herror.symm.trans hparse
    · cases herror.symm.trans hparse
  · intro hnot
    rcases Address.spelledBy_or_gapped_or s with ⟨a, hspelled⟩ | hgapped | hvalue
    · exact .inl ⟨a, hspelled.parse_eq⟩
    · exact absurd hgapped hnot
    · exact .inr hvalue

theorem foundOrKeyError_iff {s : String} : FoundOrKeyError s ↔ ¬ Address.Gapped s := by
  constructor
  · intro h hgapped
    obtain ⟨hlength, raw, htext, hlt⟩ := hgapped
    have herror := topic_of_hexText hlength htext hlt
    rcases h with ⟨t, -, -, hfound⟩ | ⟨msg, hkey⟩
    · cases herror.symm.trans hfound
    · cases herror.symm.trans hkey
  · intro hnot
    have hfound {t : Topic} (htopic : topic (.name s) = .ok t) : FoundOrKeyError s :=
      .inl ⟨t, (topic_name_eq_ok_iff.mp htopic).1, (topic_name_eq_ok_iff.mp htopic).2, htopic⟩
    cases hs : topicByName.get? s with
    | some t =>
      have htopic : topic (.name s) = .ok t := by rw [topic, hs]
      exact hfound htopic
    | none =>
      rcases parsedOrValueError_iff.mpr hnot with ⟨a, hparse⟩ | ⟨msg, hparse⟩
      · cases ha : topicByAddress.get? a with
        | some t =>
          have htopic : topic (.name s) = .ok t := by
            rw [topic, hs, hparse]
            exact orRaise_eq_ok.mpr ha
          exact hfound htopic
        | none =>
          right
          refine ⟨[.lit "unknown topic ", .val (.str s)], ?_⟩
          rw [topic, hs, hparse]
          dsimp only
          rw [ha]
          rfl
      · right
        refine ⟨[.lit "unknown topic ", .val (.str s)], ?_⟩
        rw [topic, hs, hparse]

/-- `topic` finds the topics of the table by their names and by the digits of their addresses, and
else raises `KeyError`; `Address.parse` raises `ValueError` only: both exactly if the text has no
gaps between digits. An address is read back from its text. -/
theorem resolves_iff (s : String) :
    (FoundOrKeyError s ↔ ¬ Address.Gapped s) ∧ (ParsedOrValueError s ↔ ¬ Address.Gapped s)
      ∧ (∀ t, topic (.name s) = .ok t ↔ t ∈ topics ∧ (t.name = s ∨ t.address.SpelledBy s))
      ∧ ∀ a : Address, (∀ n ∈ a.toList, 0 ≤ n ∧ n < 256) → Address.parse a.str = .ok a :=
  ⟨foundOrKeyError_iff, parsedOrValueError_iff, fun _ => topic_name_eq_ok_iff,
    fun _ h => (Address.spelledBy_str h).parse_eq⟩

/-- Three bytes with tabs between them are eight characters. -/
theorem resolve_threeBytes : ¬ FoundOrKeyError "04\t00\t1A" ∧ ¬ ParsedOrValueError "04\t00\t1A"
    ∧ topic (.name "04\t00\t1A")
      = .error (.decodeError [.lit "address needs 4 bytes, got ", .val (.int 3)]) := by
  have hlength : (Address.cleaned "04\t00\t1A").length = 8 := by decide +kernel
  have hraw : fromHex? (Address.cleaned "04\t00\t1A") = some [4, 0, 0x1A] := by decide +kernel
  have htext := fromHex?_eq_some_iff.mp hraw
  have hgapped : Address.Gapped "04\t00\t1A" := ⟨hlength, _, htext, by decide⟩
  exact ⟨fun h => foundOrKeyError_iff.mp h hgapped, fun h => parsedOrValueError_iff.mp h hgapped,
    topic_of_hexText hlength htext (by decide)⟩

end Ddmp
