import Ddmp.Lib.Pointwise
import Ddmp.Session.SetFrameTheorems

/-!
# Writing one entry of an array

A SET for a per-compartment topic carries the whole array: the words last published, with the
word of the written entry replaced. Stated on 32-bit words, for the two array codecs that can
be written.
-/

namespace Ddmp

open Lib Lib.Fallible Lib.LittleEndian Lib.Pointwise

/-- The bytes of one entry of an array. -/
def block (payload : Bytes) (k : ℕ) : Bytes := (payload.drop (4 * k)).take 4

/-- The decoded entry of an array. -/
def Topic.itemAt (tp : Topic) (payload : Bytes) (k : ℕ) : Option Value :=
  match tp.codec.decode payload with
  | .ok (.list xs) => xs[k]?
  | _ => none

/-- The encoding of a value in an array. -/
def Topic.encodeItem (tp : Topic) (value : Value) : Except PyErr Bytes := do
  tp.codec.encode (.list [← Session.coerce tp value])

namespace Codec

/-- The codecs of the writable arrays. -/
def IsWritableArray (c : Codec) : Prop := c = .boolArray ∨ c = .milliArray

/-- The value a word stands for. -/
def ofWord : Codec → ℤ → Value
  | .boolArray, n => .bool (n != 0)
  | _, n => ofMilli n

/-- The word that is written for the value of a word. -/
def norm : Codec → ℤ → ℤ
  | .boolArray, n => if n != 0 then 1 else 0
  | _, n => n

/-- The encoder of one entry. -/
def encodeWord : Codec → Value → Except PyErr Bytes
  | .boolArray => BoolCodec.encode
  | _ => MilliCodec.encode

variable {c : Codec}

theorem IsWritableArray.decode (hc : c.IsWritableArray) (p : Bytes) :
    c.decode p = .ok (.list ((i32s p).map c.ofWord)) := by
  rcases hc with rfl | rfl <;> rfl

theorem IsWritableArray.encode (hc : c.IsWritableArray) (v : Value) :
    c.encode v = joinItems c.encodeWord v := by
  rcases hc with rfl | rfl <;> rfl

theorem inI32_norm (c : Codec) {n : ℤ} (h : InI32 n) : InI32 (c.norm n) := by
  unfold norm
  split
  · split <;> decide
  · exact h

/-- Normalising a word does not change the value it stands for. -/
theorem IsWritableArray.ofWord_norm (hc : c.IsWritableArray) (n : ℤ) :
    c.ofWord (c.norm n) = c.ofWord n := by
  rcases hc with rfl | rfl
  · by_cases h : n = 0
    · rw [h]
      rfl
    · simp [ofWord, norm, h]
  · rfl

/-- Encoding the value of a word. -/
theorem IsWritableArray.encodeWord_ofWord (hc : c.IsWritableArray) {n : ℤ} (h : InI32 n) :
    c.encodeWord (c.ofWord n) = .ok (i32Bytes (c.norm n)) := by
  rcases hc with rfl | rfl
  · by_cases hn : n = 0
    · rw [hn]
      rfl
    · have htrue : (n != 0) = true := by simpa using hn
      simp only [encodeWord, ofWord, norm, htrue]
      rfl
  · exact (MilliCodec.encode_ofMilli n).trans (packI32_eq_ok.mpr ⟨h, rfl⟩)

/-- The encoding of a coerced entry is one word, already normal. -/
theorem IsWritableArray.exists_word (hc : c.IsWritableArray) {v item : Value} {code : Bytes}
    (hcoerced : Session.Coerced c v item) (h : c.encodeWord item = .ok code) :
    ∃ m, InI32 m ∧ c.norm m = m ∧ code = i32Bytes m := by
  rcases hc with rfl | rfl
  · obtain ⟨b, rfl⟩ := hcoerced
    cases b
    · exact ⟨0, by decide, rfl, (Except.ok.inj h).symm⟩
    · exact ⟨1, by decide, rfl, (Except.ok.inj h).symm⟩
  · obtain ⟨n, -, h⟩ := bind_eq_ok.mp h
    obtain ⟨hn, hcode⟩ := packI32_eq_ok.mp h
    exact ⟨n, hn, rfl, hcode⟩

end Codec

/-- The words of a SET for an array: those last published, with one of them replaced. -/
def setWords (c : Codec) (ws : List ℤ) (i : ℕ) (m : ℤ) : List ℤ := (ws.map c.norm).set i m

theorem getElem?_setWords_self {c : Codec} {ws : List ℤ} {i : ℕ} (h : i < ws.length) (m : ℤ) :
    (setWords c ws i m)[i]? = some m := by
  rw [setWords, List.getElem?_set_self (by rwa [List.length_map])]

theorem getElem?_setWords_ne {c : Codec} {ws : List ℤ} {i k : ℕ} (h : i ≠ k) (m : ℤ) :
    (setWords c ws i m)[k]? = ws[k]?.map c.norm := by
  rw [setWords, List.getElem?_set_ne h, List.getElem?_map]

/-- The payload of a SET that writes the word `m` into entry `i` of the words `ws`. -/
structure ArrayPayload (c : Codec) (ws : List ℤ) (i : ℕ) (m : ℤ) (payload : Bytes) : Prop where
  inRange : i < ws.length
  normal : c.norm m = m
  words : i32s payload = setWords c ws i m
  bytes : payload = (setWords c ws i m).flatMap i32Bytes

/-- The written entry holds the written word. -/
theorem ArrayPayload.block_self {c : Codec} {ws : List ℤ} {i : ℕ} {m : ℤ} {payload : Bytes}
    (p : ArrayPayload c ws i m payload) : block payload i = i32Bytes m := by
  rw [block, p.bytes]
  exact take_drop_flatMap_i32Bytes (getElem?_setWords_self p.inRange m)

/-- Another entry holds the published word, as it is re-encoded. -/
theorem ArrayPayload.block_ne {c : Codec} {ws : List ℤ} {i k : ℕ} {m n : ℤ} {payload : Bytes}
    (p : ArrayPayload c ws i m payload) (h : i ≠ k) (hk : ws[k]? = some n) :
    block payload k = i32Bytes (c.norm n) := by
  rw [block, p.bytes]
  exact take_drop_flatMap_i32Bytes (by rw [getElem?_setWords_ne h, hk, Option.map_some])

theorem Codec.IsWritableArray.itemAt {tp : Topic} (hc : tp.codec.IsWritableArray)
    (payload : Bytes) (k : ℕ) :
    tp.itemAt payload k = (i32s payload)[k]?.map tp.codec.ofWord := by
  rw [Topic.itemAt, hc.decode, ← List.getElem?_map]

/-- Every other entry decodes to what was published. -/
theorem ArrayPayload.itemAt_ne {tp : Topic} (hc : tp.codec.IsWritableArray)
    {published payload : Bytes} {i k : ℕ} {m : ℤ}
    (p : ArrayPayload tp.codec (i32s published) i m payload) (h : i ≠ k) :
    tp.itemAt payload k = tp.itemAt published k := by
  have hnorm : tp.codec.ofWord ∘ tp.codec.norm = tp.codec.ofWord := funext hc.ofWord_norm
  rw [hc.itemAt, hc.itemAt, p.words, getElem?_setWords_ne h, Option.map_map, hnorm]

namespace Session

/-- An accepted write of `v` to entry `i` of an array: the words that were published, with the
word `m` of the coerced value in place of one of them. -/
structure ArrayWrite (s : Session) (tp : Topic) (v : Value) (i : ℕ) (payload : Bytes)
    (expected : Value) (published : Bytes) (item : Value) (m : ℤ) : Prop where
  raw : s.raw.get? tp.address = some published
  coerced : coerce tp v = .ok item
  range : tp.name = "csettemp" → s.checkRange i item = .ok ()
  word : tp.codec.encodeWord item = .ok (i32Bytes m)
  payload : ArrayPayload tp.codec (i32s published) i m payload
  expected : expected = .list (((i32s published).map tp.codec.ofWord).set i item)

theorem Writes.exists_arrayWrite {s : Session} (hs : s.Coherent) {tp : Topic}
    (ht : tp ∈ Ddmp.topics) (hc : tp.codec.IsWritableArray) (hper : tp.perCompartment = true)
    {v expected : Value} {compartment : Option ℤ} {payload : Bytes}
    (h : s.Writes tp v compartment payload expected) {i : ℕ} (hi : compartment.getD 0 = i) :
    ∃ published item m, s.ArrayWrite tp v i payload expected published item m := by
  cases h with
  | scalar hscalar => exact absurd (hper.symm.trans hscalar) (by decide)
  | @array items item n _ _ hknown hlen hrange hiter hcoerce hcheck hencode =>
    obtain ⟨published, hraw, hcurrent⟩ := hs.current_of_known ht hknown
    rw [tp.stored_of_decode (hc.decode published)] at hcurrent
    rw [hcurrent] at hlen hiter
    rw [hi] at hrange hcheck hencode
    rw [Int.toNat_natCast] at hcheck hencode
    have hlt : i < (i32s published).length := by
      have hn : ((i32s published).map tp.codec.ofWord).length = n := Except.ok.inj hlen
      rw [List.length_map] at hn
      omega
    obtain rfl : (i32s published).map tp.codec.ofWord = items := Except.ok.inj hiter
    rw [hc.encode] at hencode
    obtain ⟨_, parts, hiter', hparts, hpayload⟩ := joinItems_eq_ok.mp hencode
    obtain rfl := Except.ok.inj hiter'
    -- the word of the written entry
    obtain ⟨hlength, hget⟩ := List.forall₂_iff_get.mp hparts
    have hset : i < (((i32s published).map tp.codec.ofWord).set i item).length := by
      rwa [List.length_set, List.length_map]
    have hitem : tp.codec.encodeWord item = .ok (parts.get ⟨i, hlength ▸ hset⟩) := by
      rw [← hget i hset (hlength ▸ hset), List.get_eq_getElem]
      exact congrArg _ (List.getElem_set_self hset).symm
    obtain ⟨m, hm, hnormal, hcode⟩ := hc.exists_word (coerced_of_coerce hcoerce) hitem
    rw [hcode] at hitem
    -- all the parts
    have hexpected : List.Forall₂ (fun x y => tp.codec.encodeWord x = .ok y)
        (((i32s published).map tp.codec.ofWord).set i item)
        ((setWords tp.codec (i32s published) i m).map i32Bytes) := by
      rw [setWords, List.map_set, List.map_map]
      exact forall₂_set (R := fun x y => tp.codec.encodeWord x = .ok y)
        (fun n hn => hc.encodeWord_ofWord (inI32_of_mem_i32s hn)) i hitem
    have hall : parts = (setWords tp.codec (i32s published) i m).map i32Bytes :=
      Except.ok.inj ((mapM_eq_ok.mpr hparts).symm.trans (mapM_eq_ok.mpr hexpected))
    have hfits : ∀ n ∈ setWords tp.codec (i32s published) i m, InI32 n := by
      intro n hn
      rcases List.mem_or_eq_of_mem_set hn with hn | rfl
      · obtain ⟨w, hw, rfl⟩ := List.mem_map.mp hn
        exact Codec.inI32_norm _ (inI32_of_mem_i32s hw)
      · exact hm
    have hbytes : payload = (setWords tp.codec (i32s published) i m).flatMap i32Bytes := by
      rw [← hpayload, hall, List.flatMap_def]
    have hwords : i32s payload = setWords tp.codec (i32s published) i m := by
      rw [hbytes, i32s_flatMap hfits]
    refine ⟨published, item, m, hraw, hcoerce, hcheck, hitem, ⟨hlt, hnormal, hwords, hbytes⟩, ?_⟩
    rw [hi, Int.toNat_natCast]

/-- An accepted array write in terms of words. -/
theorem Writes.exists_arrayPayload {s : Session} (hs : s.Coherent) {tp : Topic}
    (ht : tp ∈ Ddmp.topics) (hc : tp.codec.IsWritableArray) (hper : tp.perCompartment = true)
    {v expected : Value} {compartment : Option ℤ} {payload : Bytes}
    (h : s.Writes tp v compartment payload expected) {i : ℕ} (hi : compartment.getD 0 = i) :
    ∃ published, s.raw.get? tp.address = some published
      ∧ ∃ m, ArrayPayload tp.codec (i32s published) i m payload
        ∧ tp.encodeItem v = .ok (i32Bytes m) := by
  obtain ⟨published, item, m, hwrite⟩ := h.exists_arrayWrite hs ht hc hper hi
  refine ⟨published, hwrite.raw, m, hwrite.payload, ?_⟩
  rw [Topic.encodeItem, hwrite.coerced]
  show tp.codec.encode (.list [item]) = _
  rw [hc.encode]
  exact joinItems_eq_ok.mpr
    ⟨[item], [i32Bytes m], rfl, .cons hwrite.word .nil, List.append_nil _⟩

end Session

end Ddmp
