import Ddmp.Lib.Pieces
import Ddmp.Protocol.CodecsTheorems
import Ddmp.Python.TextTheorems

/-!
# Encoding decoded values

Every value that a codec has decoded can be encoded by it, and decoding the result gives the
value back: incomplete tails, unknown enumeration codes, text that was cut at a NUL and hex
digits all fall inside what the encoders accept.
-/

namespace Ddmp

open Lib.Fallible Lib.LittleEndian

/-- The encoder accepts the value, and the decoder gives it back. -/
def Codec.RoundTrips (c : Codec) (v : Value) : Prop :=
  ∃ payload, c.encode v = .ok payload ∧ c.decode payload = .ok v

/-! ## Integers -/

/-- Items that are encoded one after another. -/
theorem joinItems_map {α : Type} {f : Value → Except PyErr Bytes} {g : α → Value} {h : α → Bytes}
    {l : List α} (hf : ∀ a ∈ l, f (g a) = .ok (h a)) :
    joinItems f (.list (l.map g)) = .ok (l.flatMap h) := by
  have hparts : List.Forall₂ (fun x y => f x = .ok y) (l.map g) (l.map h) := by
    rw [List.forall₂_map_left_iff, List.forall₂_map_right_iff, List.forall₂_same]
    exact hf
  exact joinItems_eq_ok.mpr ⟨l.map g, l.map h, rfl, hparts, List.flatMap_def.symm⟩

theorem packI32_ok {n : ℤ} (h : InI32 n) : packI32 n = .ok (i32Bytes n) := if_pos h

theorem inI32_ite (b : Bool) : InI32 (if b then 1 else 0) := by
  cases b <;> decide

theorem BoolCodec.encode_bool (b : Bool) :
    encode (.bool b) = .ok (i32Bytes (if b then 1 else 0)) := packI32_ok (inI32_ite b)

theorem MilliPairArrayCodec.encodePair_ofMilli {r : ℤ × ℤ} (h : InI32 r.1 ∧ InI32 r.2) :
    encodePair (.tuple [ofMilli r.1, ofMilli r.2]) = .ok (i32Bytes r.1 ++ i32Bytes r.2) := by
  have hpair : (Value.tuple [ofMilli r.1, ofMilli r.2]).unpackPair
      = .ok (ofMilli r.1, ofMilli r.2) := rfl
  simp only [encodePair, hpair, ok_bind, toMilli_ofMilli, packI32_ok h.1, packI32_ok h.2]
  rfl

theorem MilliPairArrayCodec.decode_flatMap {rs : List (ℤ × ℤ)}
    (h : ∀ r ∈ rs, InI32 r.1 ∧ InI32 r.2) :
    decode (rs.flatMap fun r => i32Bytes r.1 ++ i32Bytes r.2)
      = .ok (.list (rs.map fun r => .tuple [ofMilli r.1, ofMilli r.2])) := by
  refine congrArg (fun vs => Except.ok (Value.list vs)) ?_
  induction rs with
  | nil => rfl
  | cons r rs ih =>
    rw [List.forall_mem_cons] at h
    rw [List.flatMap_cons, List.append_assoc, i32s_i32Bytes_append h.1.1,
      i32s_i32Bytes_append h.1.2, pairs, ih h.2, List.map_cons]

/-! ## Enumerations -/

theorem EnumClass.value_of_ofValue? {cls : EnumClass} {n : ℤ} {m : EnumMember}
    (h : cls.ofValue? n = some m) : m.value = n := by
  have hfound := List.find?_some (p := fun m : EnumMember => decide (m.value = n)) h
  exact of_decide_eq_true hfound

/-- A member is encoded by its code, and an unknown code by itself. -/
theorem EnumCodec.encode_ofValue? (cls : EnumClass) {n : ℤ} (h : InI32 n) :
    encode cls (((cls.ofValue? n).map .enum).getD (.int n)) = .ok (i32Bytes n) := by
  cases hm : cls.ofValue? n with
  | none => exact packI32_ok h
  | some m =>
    show packI32 m.value = _
    rw [EnumClass.value_of_ofValue? hm, packI32_ok h]

/-! ## Text -/

theorem stripBy_stripBy {α : Type} (p : α → Bool) (s : List α) :
    stripBy p (stripBy p s) = stripBy p s := by
  have hdrop : (stripBy p s).dropWhile p = stripBy p s := by
    rw [List.dropWhile_eq_self_iff]
    intro hlen
    -- the head of the stripped text is the head after stripping on the left
    have hinit : stripBy p s <+: s.dropWhile p := List.rdropWhile_prefix p _
    have hne : s.dropWhile p ≠ [] := fun hnil => by
      rw [hnil, List.prefix_nil] at hinit
      rw [hinit] at hlen
      exact absurd hlen (Nat.lt_irrefl 0)
    have hnot := List.head_dropWhile_not p hne
    rw [List.head_eq_getElem, ← hinit.getElem hlen] at hnot
    rw [hnot]
    exact Bool.false_ne_true
  rw [stripBy, hdrop]
  exact List.rdropWhile_idempotent p _

/-! ## Hexadecimal digits -/

/-- The two digits of a byte. -/
def hexPair (b : UInt8) : List Char := [hexLower (b.toNat / 16), hexLower (b.toNat % 16)]

theorem hexDigit?_hexLower {n : ℕ} (h : n < 16) : hexDigit? (hexLower n) = some n := by
  revert n
  decide

theorem hexLower_ne_colon {n : ℕ} (h : n < 16) : hexLower n ≠ ':' := by
  revert n
  decide

theorem fromHex?_flatMap (octets : Bytes) : fromHex? (octets.flatMap hexPair) = some octets := by
  have hdigits := hexDigits_map (fun n hn => hexDigit?_hexLower hn) octets
  rw [List.map_flatMap] at hdigits
  exact hdigits.hexText.fromHex?_eq

/-- Without the colons, the text of octets is their digits. -/
theorem filter_macText (octets : Bytes) :
    (macText octets).filter (· ≠ ':') = octets.flatMap hexPair := by
  rw [macText, Lib.Pieces.filter_intercalate (by decide), ← List.flatMap_def]
  · rfl
  · rw [List.forall_mem_map]
    intro b _ c hc
    have hb := b.toNat_lt
    rw [List.mem_cons, List.mem_singleton] at hc
    rcases hc with rfl | rfl <;> exact decide_eq_true (hexLower_ne_colon (by omega))

/-! ## The codecs -/

/-- Text without a NUL and with nothing to strip is read back. -/
theorem StrCodec.decode_encode {text : List Char} (hnul : ∀ c ∈ text, c ≠ Char.ofNat 0)
    (hstrip : strStrip text = text) :
    decode (Lib.Utf8.encode text) = .ok (.str (String.ofList text)) := by
  have hbytes : (Lib.Utf8.encode text).takeWhile (· ≠ 0) = Lib.Utf8.encode text := by
    rw [List.takeWhile_eq_self_iff]
    intro b hb
    exact decide_eq_true fun hzero => Lib.Utf8.zero_not_mem_encode hnul (hzero ▸ hb)
  rw [decode, hbytes, Lib.Utf8.decodeReplace_encode, hstrip]

/-- Such is the text that was decoded. -/
theorem StrCodec.roundTrips (payload : Bytes) : Codec.str.RoundTrips (.str (String.ofList
    (strStrip (Lib.Utf8.decodeReplace (payload.takeWhile (· ≠ 0)))))) := by
  have hbytes : 0 ∉ payload.takeWhile (· ≠ 0) := by
    intro hmem
    have hne := List.mem_takeWhile_imp hmem
    simp at hne
  have hsubset : strStrip (Lib.Utf8.decodeReplace (payload.takeWhile (· ≠ 0)))
      ⊆ Lib.Utf8.decodeReplace (payload.takeWhile (· ≠ 0)) :=
    List.Subset.trans (List.rdropWhile_prefix _ _).subset (List.dropWhile_subset _)
  have hnul := fun c hc => Lib.Utf8.ne_nul_of_mem_decodeReplace hbytes c (hsubset hc)
  refine ⟨_, rfl, ?_⟩
  rw [String.toList_ofList]
  exact StrCodec.decode_encode hnul (stripBy_stripBy isSpace _)

theorem Mac6Codec.roundTrips {octets : Bytes} (h : octets.length = 6) :
    Codec.mac6.RoundTrips (.str (String.ofList (macText octets))) := by
  refine ⟨octets, ?_, ?_⟩
  · show orRaise _ (fromHex? ((String.ofList (macText octets)).toList.filter (· ≠ ':'))) = _
    rw [String.toList_ofList, filter_macText, fromHex?_flatMap]
    rfl
  · have hneed : need octets 6 "mac" = .ok () := if_neg (by omega)
    rw [Codec.decode, Mac6Codec.decode, hneed, List.take_of_length_le h.le]
    rfl

theorem U16ArrayCodec.roundTrips {ns : List ℕ} (h : ∀ n ∈ ns, n < 2 ^ 16) :
    Codec.u16Array.RoundTrips (.list (ns.map fun n : ℕ => .int n)) := by
  have hitem : ∀ n ∈ ns, (do packU16 (← (Value.int (n : ℕ)).toInt)) = .ok (u16Bytes n) := by
    intro n hn
    have hfits : 0 ≤ (n : ℤ) ∧ (n : ℤ) < 2 ^ 16 := by
      have hlt := h n hn
      omega
    rw [Value.toInt, ok_bind, packU16, if_pos hfits, Int.toNat_natCast]
  refine ⟨ns.flatMap u16Bytes, joinItems_map hitem, ?_⟩
  rw [Codec.decode, U16ArrayCodec.decode_eq, u16s_flatMap h]

/-- Whatever a codec has decoded it encodes again, and decodes to the same. -/
theorem Codec.Decoded.roundTrips {c : Codec} {v : Value} (h : c.Decoded v) : c.RoundTrips v := by
  cases h with
  | @int32 n h =>
    exact ⟨i32Bytes n, packI32_ok h, needI32_i32Bytes h "int32" fun n => .ok (.int n)⟩
  | bool b =>
    refine ⟨_, BoolCodec.encode_bool b, (BoolCodec.decode_i32Bytes (inI32_ite b)).trans ?_⟩
    cases b <;> rfl
  | @milli n h =>
    exact ⟨i32Bytes n, (MilliCodec.encode_ofMilli n).trans (packI32_ok h),
      needI32_i32Bytes h "milli" fun n => .ok (ofMilli n)⟩
  | @enum cls n h =>
    exact ⟨i32Bytes n, EnumCodec.encode_ofValue? cls h, EnumCodec.decode_i32Bytes cls h⟩
  | str payload => exact StrCodec.roundTrips payload
  | mac6 h => exact Mac6Codec.roundTrips h
  | u16Array h => exact U16ArrayCodec.roundTrips h
  | @int32Array ns h =>
    refine ⟨ns.flatMap i32Bytes, joinItems_map fun n hn => packI32_ok (h n hn), ?_⟩
    rw [decode, Int32ArrayCodec.decode, i32s_flatMap h]
  | boolArray ns =>
    refine ⟨_, joinItems_map fun n _ => BoolCodec.encode_bool (n != 0), ?_⟩
    rw [← List.flatMap_map, decode, BoolArrayCodec.decode, i32s_flatMap, List.map_map]
    · refine congrArg (fun f => Except.ok (Value.list (ns.map f))) (funext fun n => ?_)
      show Value.bool ((if n != 0 then (1 : ℤ) else 0) != 0) = .bool (n != 0)
      cases n != 0 <;> rfl
    · intro m hm
      obtain ⟨n, -, rfl⟩ := List.mem_map.mp hm
      exact inI32_ite (n != 0)
  | @milliArray ns h =>
    refine ⟨ns.flatMap i32Bytes,
      joinItems_map fun n hn => (MilliCodec.encode_ofMilli n).trans (packI32_ok (h n hn)), ?_⟩
    rw [decode, MilliArrayCodec.decode, i32s_flatMap h]
  | milliPairArray h =>
    exact ⟨_, joinItems_map fun r hr => MilliPairArrayCodec.encodePair_ofMilli (h r hr),
      MilliPairArrayCodec.decode_flatMap h⟩

end Ddmp
