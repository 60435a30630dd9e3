import Ddmp.Lib.Fallible
import Ddmp.Lib.Rounding
import Ddmp.Protocol.Codecs
import Mathlib.Tactic.NormNum
import Mathlib.Tactic.Ring

/-!
# Decoding and encoding

Every codec decodes every payload of at least `minLength` bytes and raises `DecodeError`, and
nothing else, on a shorter one. The codecs of arrays have no minimum and decode to a list.
Encoding a decoded number of thousandths gives the number back.
-/

namespace Ddmp

open Lib.Fallible Lib.LittleEndian Lib.Rounding

/-- A four-byte codec on a payload of at least four bytes goes on with the integer read. -/
theorem needI32_of_le {payload : Bytes} (h : 4 ≤ payload.length) (what : String) :
    ∃ n, ∀ k : ℤ → Except PyErr Value,
      (do need payload 4 what; k (← unpackI32 payload)) = k n := by
  match payload, h with
  | a :: b :: c :: d :: rest, h =>
    refine ⟨i32Of a b c d, fun k => ?_⟩
    rw [need, if_neg (Nat.not_lt.mpr h)]
    rfl

/-- A four-byte codec that returns has gone on with some 32-bit integer. -/
theorem of_needI32_eq_ok {payload : Bytes} {what : String} {k : ℤ → Except PyErr Value} {v : Value}
    (h : (do need payload 4 what; k (← unpackI32 payload)) = .ok v) :
    ∃ n, InI32 n ∧ k n = .ok v := by
  obtain ⟨-, -, hunpack⟩ := bind_eq_ok.mp h
  obtain ⟨n, hn, hk⟩ := bind_eq_ok.mp hunpack
  refine ⟨n, ?_, hk⟩
  match payload, hn with
  | a :: b :: c :: d :: _, hn => exact Except.ok.inj hn ▸ inI32_i32Of a b c d

/-- A payload without the bytes needed ends the decoder, whatever would follow. -/
theorem need_of_lt {payload : Bytes} {n : ℕ} (h : payload.length < n) (what : String)
    (k : Except PyErr Value) :
    ∃ msg, (do need payload n what; k) = .error (.decodeError msg) := by
  rw [need, if_pos h]
  exact ⟨_, rfl⟩

namespace Codec

/-- The number of bytes a codec needs. -/
def minLength : Codec → ℕ
  | int32 | bool | milli | enum _ => 4
  | mac6 => 6
  | int32Array | boolArray | milliArray | milliPairArray | str | u16Array => 0

/-- The codecs that decode to a list. -/
def isArray : Codec → Bool
  | int32Array | boolArray | milliArray | milliPairArray | u16Array => true
  | int32 | bool | milli | enum _ | str | mac6 => false

/-- An integer topic decodes to an integer. -/
theorem decode_int32_of_le {payload : Bytes} (h : 4 ≤ payload.length) :
    ∃ n, int32.decode payload = .ok (.int n) := by
  obtain ⟨n, hn⟩ := needI32_of_le h "int32"
  exact ⟨n, hn fun n => .ok (.int n)⟩

/-- A long enough payload is decoded. -/
theorem decode_of_le {c : Codec} {payload : Bytes} (h : c.minLength ≤ payload.length) :
    ∃ v, c.decode payload = .ok v := by
  cases c with
  | int32 =>
    obtain ⟨n, hn⟩ := decode_int32_of_le h
    exact ⟨.int n, hn⟩
  | bool =>
    obtain ⟨n, hn⟩ := needI32_of_le h "bool"
    exact ⟨.bool (n != 0), hn fun n => .ok (.bool (n != 0))⟩
  | milli =>
    obtain ⟨n, hn⟩ := needI32_of_le h "milli"
    exact ⟨ofMilli n, hn fun n => .ok (ofMilli n)⟩
  | enum cls =>
    obtain ⟨n, hn⟩ := needI32_of_le h "enum"
    rw [decode, EnumCodec.decode]
    refine ⟨((cls.ofValue? n).map .enum).getD (.int n), (hn _).trans ?_⟩
    -- the code of a member, or an unknown code
    cases cls.ofValue? n <;> rfl
  | mac6 =>
    have hneed : need payload 6 "mac" = .ok () := if_neg (Nat.not_lt.mpr h)
    rw [decode, Mac6Codec.decode, hneed]
    exact ⟨_, rfl⟩
  | int32Array | boolArray | milliArray | milliPairArray | str | u16Array => exact ⟨_, rfl⟩

/-- A payload that is too short raises `DecodeError`. -/
theorem decode_of_lt {c : Codec} {payload : Bytes} (h : payload.length < c.minLength) :
    ∃ msg, c.decode payload = .error (.decodeError msg) := by
  cases c with
  | int32 => exact need_of_lt h "int32" _
  | bool => exact need_of_lt h "bool" _
  | milli => exact need_of_lt h "milli" _
  | enum cls => exact need_of_lt h "enum" _
  | mac6 => exact need_of_lt h "mac" _
  | int32Array | boolArray | milliArray | milliPairArray | str | u16Array =>
    exact absurd h (Nat.not_lt_zero _)

/-- The codecs of arrays decode every payload, to a list. -/
theorem decode_of_isArray {c : Codec} (hc : c.isArray = true) (payload : Bytes) :
    ∃ xs, c.decode payload = .ok (.list xs) := by
  cases c with
  | int32Array | boolArray | milliArray | milliPairArray | u16Array => exact ⟨_, rfl⟩
  | int32 | bool | milli | enum _ | str | mac6 => exact absurd hc Bool.false_ne_true

end Codec

/-! ## What the codecs decode to -/

/-- The text of six octets. -/
def macText (octets : Bytes) : List Char :=
  List.intercalate [':'] (octets.map fun b => [hexLower (b.toNat / 16), hexLower (b.toNat % 16)])

/-- The values a codec decodes to, one case for each codec. -/
inductive Codec.Decoded : Codec → Value → Prop
  | int32 {n : ℤ} (h : InI32 n) : Decoded .int32 (.int n)
  | int32Array {ns : List ℤ} (h : ∀ n ∈ ns, InI32 n) : Decoded .int32Array (.list (ns.map .int))
  | bool (b : Bool) : Decoded .bool (.bool b)
  | boolArray (ns : List ℤ) : Decoded .boolArray (.list (ns.map fun n => .bool (n != 0)))
  | milli {n : ℤ} (h : InI32 n) : Decoded .milli (ofMilli n)
  | milliArray {ns : List ℤ} (h : ∀ n ∈ ns, InI32 n) :
      Decoded .milliArray (.list (ns.map ofMilli))
  | milliPairArray {rs : List (ℤ × ℤ)} (h : ∀ r ∈ rs, InI32 r.1 ∧ InI32 r.2) :
      Decoded .milliPairArray (.list (rs.map fun r => .tuple [ofMilli r.1, ofMilli r.2]))
  | enum {cls : EnumClass} {n : ℤ} (h : InI32 n) :
      Decoded (.enum cls) (((cls.ofValue? n).map .enum).getD (.int n))
  | str (payload : Bytes) :
      Decoded .str (.str (String.ofList
        (strStrip (Lib.Utf8.decodeReplace (payload.takeWhile (· ≠ 0))))))
  | mac6 {octets : Bytes} (h : octets.length = 6) :
      Decoded .mac6 (.str (String.ofList (macText octets)))
  | u16Array {ns : List ℕ} (h : ∀ n ∈ ns, n < 2 ^ 16) :
      Decoded .u16Array (.list (ns.map fun n : ℕ => .int n))

theorem MilliPairArrayCodec.exists_pairs {ns : List ℤ} (h : ∀ n ∈ ns, InI32 n) :
    ∃ rs : List (ℤ × ℤ), (∀ r ∈ rs, InI32 r.1 ∧ InI32 r.2)
      ∧ pairs ns = rs.map fun r => .tuple [ofMilli r.1, ofMilli r.2] := by
  induction ns using pairs.induct with
  | case1 lo hi rest ih =>
    simp only [List.forall_mem_cons] at h
    obtain ⟨rs, hrs, heq⟩ := ih h.2.2
    refine ⟨(lo, hi) :: rs, List.forall_mem_cons.mpr ⟨⟨h.1, h.2.1⟩, hrs⟩, ?_⟩
    rw [pairs, heq, List.map_cons]
  | case2 ns hshort =>
    refine ⟨[], fun r hr => absurd hr List.not_mem_nil, ?_⟩
    rw [pairs]
    · rfl
    · exact hshort

theorem U16ArrayCodec.decode_eq (payload : Bytes) :
    decode payload = .ok (.list ((u16s payload).map fun n : ℕ => .int n)) := by
  have hcast : (do let a ← u16s payload; pure (a : ℤ)) = (u16s payload).map fun n : ℕ => (n : ℤ) :=
    List.flatMap_pure_eq_map _ _
  rw [decode, hcast, List.map_map]
  rfl

theorem Codec.decoded_of_decode {c : Codec} {payload : Bytes} {v : Value}
    (h : c.decode payload = .ok v) : c.Decoded v := by
  cases c with
  | int32 =>
    obtain ⟨n, hn, h⟩ := of_needI32_eq_ok h
    exact Except.ok.inj h ▸ .int32 hn
  | bool =>
    obtain ⟨n, -, h⟩ := of_needI32_eq_ok h
    exact Except.ok.inj h ▸ .bool (n != 0)
  | milli =>
    obtain ⟨n, hn, h⟩ := of_needI32_eq_ok h
    exact Except.ok.inj h ▸ .milli hn
  | enum cls =>
    obtain ⟨n, hn, h⟩ := of_needI32_eq_ok h
    have hv : ((cls.ofValue? n).map Value.enum).getD (.int n) = v := by
      cases hm : cls.ofValue? n with
      | some m =>
        rw [hm] at h
        exact Except.ok.inj h
      | none =>
        rw [hm] at h
        exact Except.ok.inj h
    exact hv ▸ .enum hn
  | mac6 =>
    obtain ⟨u, hneed, h⟩ := bind_eq_ok.mp h
    have hlen : 6 ≤ payload.length := by
      unfold need at hneed
      split at hneed
      · exact nomatch hneed
      · omega
    have hoctets : (payload.take 6).length = 6 := List.length_take_of_le hlen
    exact Except.ok.inj h ▸ .mac6 hoctets
  | str => exact Except.ok.inj h ▸ .str payload
  | int32Array => exact Except.ok.inj h ▸ .int32Array fun _ => inI32_of_mem_i32s
  | boolArray => exact Except.ok.inj h ▸ .boolArray _
  | milliArray => exact Except.ok.inj h ▸ .milliArray fun _ => inI32_of_mem_i32s
  | u16Array =>
    rw [decode, U16ArrayCodec.decode_eq] at h
    exact Except.ok.inj h ▸ .u16Array fun _ => lt_of_mem_u16s
  | milliPairArray =>
    have hfits : ∀ n ∈ i32s payload, InI32 n := fun _ => inI32_of_mem_i32s
    obtain ⟨rs, hrs, heq⟩ := MilliPairArrayCodec.exists_pairs hfits
    have hv : Value.list (rs.map fun r => .tuple [ofMilli r.1, ofMilli r.2]) = v :=
      heq ▸ Except.ok.inj h
    exact hv ▸ .milliPairArray hrs

/-! ## Single integers -/

theorem packI32_eq_ok {n : ℤ} {payload : Bytes} :
    packI32 n = .ok payload ↔ InI32 n ∧ payload = i32Bytes n := by
  unfold packI32
  by_cases h : InI32 n
  · rw [if_pos h]
    exact ⟨fun hp => ⟨h, (Except.ok.inj hp).symm⟩, fun hp => congrArg _ hp.2.symm⟩
  · rw [if_neg h]
    exact ⟨fun hp => (nomatch hp), fun hp => absurd hp.1 h⟩

theorem unpackI32_i32Bytes {n : ℤ} (h : InI32 n) : unpackI32 (i32Bytes n) = .ok n :=
  congrArg Except.ok (List.cons.inj (i32s_i32Bytes_append h [])).1

/-- A four-byte codec reads back the integer that was packed. -/
theorem needI32_i32Bytes {n : ℤ} (h : InI32 n) (what : String) (k : ℤ → Except PyErr Value) :
    (do need (i32Bytes n) 4 what; k (← unpackI32 (i32Bytes n))) = k n := by
  have hneed : need (i32Bytes n) 4 what = .ok () := rfl
  rw [hneed, unpackI32_i32Bytes h]
  rfl

theorem BoolCodec.decode_i32Bytes {n : ℤ} (h : InI32 n) :
    decode (i32Bytes n) = .ok (.bool (n != 0)) :=
  needI32_i32Bytes h "bool" fun n => .ok (.bool (n != 0))

/-- Decoding the code of an enumeration: the member with that code, or the code itself. -/
theorem EnumCodec.decode_i32Bytes (cls : EnumClass) {n : ℤ} (h : InI32 n) :
    decode cls (i32Bytes n) = .ok (((cls.ofValue? n).map .enum).getD (.int n)) := by
  rw [decode]
  refine (needI32_i32Bytes h "enum" _).trans ?_
  cases cls.ofValue? n <;> rfl

/-! ## Thousandths -/

theorem PyFloat.roundHalfEven_intCast (n : ℤ) : roundHalfEven n = n := by
  have hfloor : (n : ℚ).floor = n := Rat.floor_intCast n
  rw [roundHalfEven]
  simp only [hfloor, sub_self]
  rw [if_pos (by norm_num)]

theorem PyFloat.nearestEven_roundHalfEven (q : ℚ) : NearestEven q (roundHalfEven q) := by
  have hle : (q.floor : ℚ) ≤ q := Rat.floor_le q
  have hlt : q < q.floor + 1 := by exact_mod_cast Rat.lt_floor_add_one q
  have hsucc : |q - ((q.floor + 1 : ℤ) : ℚ)| = q.floor + 1 - q := by
    rw [abs_of_nonpos (by push_cast; linarith)]
    push_cast
    ring
  have hfloor : |q - (q.floor : ℚ)| = q - q.floor := abs_of_nonneg (sub_nonneg.mpr hle)
  unfold roundHalfEven NearestEven Nearest
  dsimp only
  split
  · rename_i h
    rw [hfloor]
    exact ⟨h.le, fun htie => absurd htie h.ne⟩
  · split
    · rename_i h
      rw [hsucc]
      exact ⟨by linarith, fun htie => absurd htie (by linarith)⟩
    · rename_i h₁ h₂
      -- a tie: the even one of the two neighbours
      have htie : q - q.floor = 1 / 2 := le_antisymm (not_lt.mp h₂) (not_lt.mp h₁)
      split
      · rename_i heven
        rw [hfloor]
        exact ⟨htie.le, fun _ => Int.even_iff.mpr heven⟩
      · rename_i hodd
        rw [hsucc]
        exact ⟨by linarith, fun _ => Int.even_add_one.mpr fun h => hodd (Int.even_iff.mp h)⟩

/-- A finite float as thousandths: the nearest integer. -/
theorem toMilli_fin (q : ℚ) :
    toMilli (.float (.fin q)) = .ok (PyFloat.roundHalfEven (q * 1000)) := rfl

theorem toMilli_ofMilli (n : ℤ) : toMilli (ofMilli n) = .ok n := by
  rw [ofMilli, toMilli_fin, div_mul_cancel₀ (n : ℚ) (by norm_num), PyFloat.roundHalfEven_intCast]

theorem MilliCodec.encode_ofMilli (n : ℤ) : encode (ofMilli n) = packI32 n := by
  rw [encode, toMilli_ofMilli]
  rfl

/-! ## Arrays -/

/-- Encoding an array encodes its items one after another. -/
theorem joinItems_eq_ok {f : Value → Except PyErr Bytes} {v : Value} {payload : Bytes} :
    joinItems f v = .ok payload ↔ ∃ items parts, v.iter = .ok items
      ∧ List.Forall₂ (fun x y => f x = .ok y) items parts ∧ parts.flatten = payload := by
  simp only [joinItems, bind_eq_ok, pure_eq_ok, mapM_eq_ok, ← exists_and_left]

end Ddmp
