import Ddmp.Lib.Fallible
import Ddmp.Session.HistoryTheorems

/-!
# What `set_frame` builds

`setFrame_eq_ok` says everything a successful call can have done.
-/

namespace Ddmp

open Lib Lib.Fallible

theorem assertWritable_eq_ok {ref : TopicRef} {t : Topic} :
    assertWritable ref = .ok t ↔ topic ref = .ok t ∧ t.name ∈ writableNames := by
  rw [assertWritable, bind_eq_ok]
  constructor
  · rintro ⟨u, hu, h⟩
    by_cases hname : u.name ∈ writableNames
    · rw [if_pos hname, pure_eq_ok] at h
      exact h ▸ ⟨hu, hname⟩
    · rw [if_neg hname] at h
      exact nomatch h
  · rintro ⟨ht, hname⟩
    exact ⟨t, ht, if_pos hname⟩

/-- The writable topics are two of booleans, an enumeration and two arrays. -/
theorem writable_codecs : ∀ t ∈ topics, t.name ∈ writableNames →
    t.perCompartment = false ∧ (t.codec = .bool ∨ t.codec = .enum .batteryProtection)
      ∨ t.perCompartment = true ∧ (t.codec = .boolArray ∨ t.codec = .milliArray) := by
  decide

namespace Session

/-- The last published value of a topic, `None` before the first one. -/
def current (s : Session) (tp : Topic) : Value := .ofOption (s.values.get? tp.name)

/-- A known value is what the last payload is stored as. -/
theorem Coherent.current_of_known {s : Session} (h : s.Coherent) {tp : Topic}
    (ht : tp ∈ Ddmp.topics) (hknown : (s.current tp).truth = .ok true) :
    ∃ published, s.raw.get? tp.address = some published ∧ s.current tp = tp.stored published := by
  have hcurrent : s.current tp = .ofOption ((s.raw.get? tp.address).map tp.stored) :=
    congrArg Value.ofOption (h.stored tp ht)
  cases hraw : s.raw.get? tp.address with
  | none =>
    rw [hcurrent, hraw] at hknown
    exact nomatch hknown
  | some published =>
    rw [hraw] at hcurrent
    exact ⟨published, rfl, hcurrent⟩

/-- The payload and the expected value of an accepted write. -/
inductive Writes (s : Session) (tp : Topic) (value : Value) (compartment : Option ℤ) :
    Bytes → Value → Prop
  | array {items : List Value} {item : Value} {n : ℕ} {payload : Bytes}
      (perCompartment : tp.perCompartment = true)
      (known : (s.current tp).truth = .ok true)
      (len : (s.current tp).len = .ok n)
      (inRange : 0 ≤ compartment.getD 0 ∧ compartment.getD 0 < n)
      (iter : (s.current tp).iter = .ok items)
      (coerced : coerce tp value = .ok item)
      (range : tp.name = "csettemp" → s.checkRange (compartment.getD 0).toNat item = .ok ())
      (encoded : tp.codec.encode (.list (items.set (compartment.getD 0).toNat item))
        = .ok payload) :
      Writes s tp value compartment payload (.list (items.set (compartment.getD 0).toNat item))
  | scalar {v expected : Value} {payload : Bytes}
      (perCompartment : tp.perCompartment = false)
      (index : compartment = none ∨ compartment = some 0)
      (coerced : coerce tp value = .ok v)
      (encoded : tp.codec.encode v = .ok payload)
      (decoded : tp.codec.decode payload = .ok expected) :
      Writes s tp value compartment payload expected

theorem Writes.index_nonneg {s : Session} {tp : Topic} {value expected : Value}
    {compartment : Option ℤ} {payload : Bytes} (hper : tp.perCompartment = true)
    (h : s.Writes tp value compartment payload expected) : 0 ≤ compartment.getD 0 := by
  cases h with
  | scalar hscalar => exact absurd (hper.symm.trans hscalar) (by decide)
  | array _ _ _ hrange => exact hrange.1

/-- Everything a call that returns can have done. -/
theorem setFrame_eq_ok {s : Session} {ref : TopicRef} {value : Value} {compartment : Option ℤ}
    {f : Frame} {e : WriteExpectation} :
    s.setFrame ref value compartment = .ok (f, e)
      ↔ ∃ tp, assertWritable ref = .ok tp ∧ ∃ payload expected,
          s.Writes tp value compartment payload expected
          ∧ f = { action := Action.SET.value, address := tp.address, payload }
          ∧ e = { topic := tp, expected, tolerance := tolerance tp } := by
  simp only [setFrame, bind_eq_ok]
  refine exists_congr fun tp => and_congr_right fun _ => ?_
  cases hper : tp.perCompartment with
  | true =>
    simp only [if_true, bind_eq_ok, pure_eq_ok, raiseIf_eq_ok, Prod.mk.injEq]
    constructor
    · rintro ⟨b, hknown, -, hb, n, hlen, -, hrange, items, hiter, item, hcoerce, u, hcheck,
        payload, hencode, hf, he⟩
      -- the two guards have let the call pass
      have htruth : b = true := by simpa using hb
      refine ⟨payload, _, .array hper (htruth ▸ hknown) hlen ⟨?_, ?_⟩ hiter hcoerce ?_ hencode,
        hf.symm, he.symm⟩
      · omega
      · omega
      · intro hname
        rwa [if_pos hname] at hcheck
    · rintro ⟨payload, expected, hw, hf, he⟩
      cases hw with
      | @array items item n _ _ hknown hlen hrange hiter hcoerce hcheck hencode =>
        refine ⟨true, hknown, (), by simp, n, hlen, (), by omega, items, hiter, item, hcoerce, (),
          ?_, payload, hencode, hf.symm, he.symm⟩
        split
        · exact hcheck ‹_›
        · rfl
      | scalar hscalar => exact absurd (hper.symm.trans hscalar) (by decide)
  | false =>
    simp only [Bool.false_eq_true, if_false, bind_eq_ok, pure_eq_ok, raiseIf_eq_ok, Prod.mk.injEq]
    constructor
    · rintro ⟨-, hindex, v, hcoerce, payload, hencode, expected, hdecode, hf, he⟩
      refine ⟨payload, expected, .scalar hper ?_ hcoerce hencode hdecode, hf.symm, he.symm⟩
      by_contra hne
      exact hindex (not_or.mp hne)
    · rintro ⟨payload, expected, hw, hf, he⟩
      cases hw with
      | array harray => exact absurd (hper.symm.trans harray) (by decide)
      | @scalar v _ _ _ hindex hcoerce hencode hdecode =>
        exact ⟨(), fun hne => (not_or.mpr hne) hindex, v, hcoerce, payload, hencode, expected,
          hdecode, hf.symm, he.symm⟩

/-! ## Coercion -/

/-- What `_coerce` returns for a topic with a given codec. -/
def Coerced : Codec → Value → Value → Prop
  | .bool, _, w | .boolArray, _, w => ∃ b, w = .bool b
  | .milli, v, w | .milliArray, v, w => ∃ x, v.toFloat = .ok x ∧ w = .float x
  | .enum cls, v, w => ∃ payload, (Codec.enum cls).encode v = .ok payload
      ∧ (Codec.enum cls).decode payload = .ok w
  | _, v, w => w = v

theorem coerced_of_coerce {tp : Topic} {v w : Value} (h : coerce tp v = .ok w) :
    Coerced tp.codec v w := by
  obtain ⟨name, address, codec, writable, perCompartment⟩ := tp
  have hmap : ∀ {α : Type} {g : α → Value} {x : Except PyErr α} {w : Value},
      x.map g = .ok w → ∃ a, x = .ok a ∧ w = g a := by
    intro α g x w hx
    cases x with
    | error e => exact nomatch hx
    | ok a => exact ⟨a, rfl, (Except.ok.inj hx).symm⟩
  cases codec with
  | bool | boolArray =>
    obtain ⟨b, -, hb⟩ := hmap h
    exact ⟨b, hb⟩
  | milli | milliArray => exact hmap h
  | enum cls => exact bind_eq_ok.mp h
  | int32 | int32Array | milliPairArray | str | mac6 | u16Array => exact (Except.ok.inj h).symm

end Session

end Ddmp
