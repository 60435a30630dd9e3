import Ddmp.Session.SetFrameTheorems

/-!
# What `set_frame` raises

The built-in conversions and the codecs raise only the exceptions of the built-ins and
`DecodeError`; `set_frame` adds `NotWritable`, `KeyError` and `StateUnknown`. The exceptions of
the connection never come from it.
-/

namespace Ddmp

open Lib Lib.Fallible

/-- The exceptions of the built-in conversions, and `DecodeError`. -/
def PyErr.isConversion : PyErr → Bool
  | .decodeError _ | .keyError _ | .valueError _ | .typeError | .overflowError | .structError =>
    true
  | _ => false

/-- A computation that raises nothing else. -/
abbrev Converts {α : Type} (x : Except PyErr α) : Prop := Raises (fun e => e.isConversion = true) x

/-! ## Conversions -/

theorem converts_orRaise {α : Type} {e : PyErr} (he : e.isConversion = true) (o : Option α) :
    Converts (orRaise e o) := by
  cases o with
  | none => exact raises_error he
  | some a => exact raises_ok a

theorem raises_raiseIf {P : PyErr → Prop} {e : PyErr} (he : P e) (c : Prop) [Decidable c] :
    Raises P (raiseIf c e) := by
  unfold raiseIf
  split
  · exact raises_error he
  · exact raises_ok ()

theorem converts_raiseIf {e : PyErr} (he : e.isConversion = true) (c : Prop) [Decidable c] :
    Converts (raiseIf c e) :=
  raises_raiseIf (P := fun e => e.isConversion = true) he c

namespace Value

theorem converts_truth (v : Value) : Converts v.truth := by
  cases v with
  | float x => cases x <;> exact raises_ok _
  | obj o => exact converts_orRaise rfl _
  | none | bool | int | enum | str | bytes | list | tuple => exact raises_ok _

theorem converts_toFloat (v : Value) : Converts v.toFloat := by
  cases v with
  | str | bytes | obj => exact converts_orRaise rfl _
  | bool | int | enum | float => exact raises_ok _
  | none | list | tuple => exact raises_error rfl

theorem converts_toInt (v : Value) : Converts v.toInt := by
  cases v with
  | str | bytes | obj => exact converts_orRaise rfl _
  | float x =>
    cases x with
    | fin q => exact raises_ok _
    | posInf | negInf | nan => exact raises_error rfl
  | bool | int | enum => exact raises_ok _
  | none | list | tuple => exact raises_error rfl

theorem converts_text (v : Value) : Converts v.text := by
  cases v with
  | obj => exact converts_orRaise rfl _
  | none | bool | int | enum | float | str | bytes | list | tuple => exact raises_ok _

theorem converts_iter (v : Value) : Converts v.iter := by
  cases v with
  | list | tuple | str | bytes => exact raises_ok _
  | none | bool | int | enum | float | obj => exact raises_error rfl

theorem converts_len (v : Value) : Converts v.len := by
  cases v with
  | list | tuple | str | bytes => exact raises_ok _
  | none | bool | int | enum | float | obj => exact raises_error rfl

theorem converts_unpackPair (v : Value) : Converts v.unpackPair := by
  refine v.converts_iter.bind fun items _ => ?_
  match items with
  | [a, b] => exact raises_ok _
  | [] | [_] | _ :: _ :: _ :: _ => exact raises_error rfl

theorem converts_le (v w : Value) : Converts (v.le w) := by
  unfold le
  split
  · exact raises_ok _
  · exact raises_error rfl

theorem converts_orElse (v other : Value) : Converts (v.orElse other) := by
  refine v.converts_truth.bind fun b _ => ?_
  cases b <;> exact raises_ok _

end Value

/-! ## Codecs -/

theorem converts_packI32 (n : ℤ) : Converts (packI32 n) := by
  unfold packI32
  split
  · exact raises_ok _
  · exact raises_error rfl

theorem converts_packU16 (n : ℤ) : Converts (packU16 n) := by
  unfold packU16
  split
  · exact raises_ok _
  · exact raises_error rfl

theorem PyFloat.converts_round (x : PyFloat) : Converts x.round := by
  cases x with
  | fin q => exact raises_ok _
  | posInf | negInf | nan => exact raises_error rfl

theorem converts_toMilli (v : Value) : Converts (toMilli v) :=
  v.converts_toFloat.bind fun x _ => x.times1000.converts_round

theorem converts_joinItems {f : Value → Except PyErr Bytes} (h : ∀ v, Converts (f v)) (v : Value) :
    Converts (joinItems f v) :=
  v.converts_iter.bind fun _ _ => (raises_mapM fun x _ => h x).bind fun _ _ => raises_ok _

theorem Int32Codec.converts_encode (v : Value) : Converts (encode v) :=
  v.converts_toInt.bind fun n _ => converts_packI32 n

theorem BoolCodec.converts_encode (v : Value) : Converts (encode v) :=
  v.converts_truth.bind fun _ _ => converts_packI32 _

theorem MilliCodec.converts_encode (v : Value) : Converts (encode v) :=
  (converts_toMilli v).bind fun n _ => converts_packI32 n

theorem MilliPairArrayCodec.converts_encodePair (v : Value) : Converts (encodePair v) := by
  refine v.converts_unpackPair.bind fun pair _ => ?_
  refine (converts_toMilli pair.1).bind fun lo _ => ?_
  refine (converts_toMilli pair.2).bind fun hi _ => ?_
  exact (converts_packI32 lo).bind fun _ _ => (converts_packI32 hi).bind fun _ _ => raises_ok _

theorem EnumCodec.converts_encode (cls : EnumClass) (v : Value) : Converts (encode cls v) := by
  have hpack : ∀ w : Value, Converts (do packI32 (← w.toInt)) := fun w =>
    w.converts_toInt.bind fun n _ => converts_packI32 n
  cases v with
  | str s => exact ((converts_orRaise rfl _).map Value.enum).bind fun w _ => hpack w
  | none | bool | int | enum | float | bytes | list | tuple | obj =>
    exact (raises_ok _).bind fun w _ => hpack w

/-- Encoding raises no exception of the library's own. -/
theorem Codec.converts_encode (c : Codec) (v : Value) : Converts (c.encode v) := by
  cases c with
  | int32 => exact Int32Codec.converts_encode v
  | int32Array => exact converts_joinItems Int32Codec.converts_encode v
  | bool => exact BoolCodec.converts_encode v
  | boolArray => exact converts_joinItems BoolCodec.converts_encode v
  | milli => exact MilliCodec.converts_encode v
  | milliArray => exact converts_joinItems MilliCodec.converts_encode v
  | milliPairArray => exact converts_joinItems MilliPairArrayCodec.converts_encodePair v
  | enum cls => exact EnumCodec.converts_encode cls v
  | str => exact v.converts_text.bind fun _ _ => raises_ok _
  | mac6 => exact v.converts_text.bind fun _ _ => converts_orRaise rfl _
  | u16Array =>
    exact converts_joinItems (fun w => w.converts_toInt.bind fun n _ => converts_packU16 n) v

/-- Decoding raises `DecodeError` only. -/
theorem Codec.converts_decode (c : Codec) (payload : Bytes) : Converts (c.decode payload) := by
  intro e he
  by_cases hlen : payload.length < c.minLength
  · obtain ⟨msg, hmsg⟩ := c.decode_of_lt hlen
    rw [Except.error.inj (he.symm.trans hmsg)]
    rfl
  · obtain ⟨v, hv⟩ := c.decode_of_le (Nat.le_of_not_lt hlen)
    exact nomatch hv.symm.trans he

/-! ## Frames -/

theorem converts_bytesOfInts (ns : List ℤ) : Converts (bytesOfInts ns) := by
  refine raises_mapM fun n _ => ?_
  split
  · exact raises_ok _
  · exact raises_error rfl

theorem Frame.converts_encodeLine (f : Frame) : Converts f.encodeLine := by
  refine Raises.bind ?_ fun _ _ => raises_ok _
  refine (converts_bytesOfInts _).bind fun _ _ => ?_
  exact (converts_bytesOfInts _).bind fun _ _ => raises_ok _

/-! ## `set_frame` -/

theorem Address.converts_parse (text : String) : Converts (Address.parse text) := by
  unfold Address.parse
  dsimp only
  split
  · exact raises_error rfl
  · refine (converts_orRaise rfl _).bind fun raw _ => ?_
    unfold Address.fromBytes
    split
    · exact raises_ok _
    · exact raises_error rfl

theorem converts_topic (ref : TopicRef) : Converts (topic ref) := by
  have hkey : ∀ (msg : FString) (o : Option Topic), Converts (orRaise (.keyError msg) o) :=
    fun msg o => converts_orRaise rfl o
  cases ref with
  | topic t => exact raises_ok t
  | address a => exact hkey _ _
  | name s =>
    rw [topic]
    cases topicByName.get? s with
    | some t => exact raises_ok t
    | none =>
      cases hparse : Address.parse s with
      | ok a => exact hkey _ _
      | error e =>
        have he := Address.converts_parse s e hparse
        cases e with
        | valueError | keyError => exact raises_error rfl
        | _ => exact raises_error he

namespace Session

theorem converts_coerceBool (v : Value) : Converts (coerceBool v) := by
  unfold coerceBool
  split
  · exact raises_ok _
  · exact v.converts_truth

theorem converts_coerce (tp : Topic) (v : Value) : Converts (coerce tp v) := by
  unfold coerce
  dsimp only
  split
  · exact (converts_coerceBool v).map _
  · split
    · exact v.converts_toFloat.map _
    · split
      · exact (tp.codec.converts_encode v).bind fun payload _ => tp.codec.converts_decode payload
      · exact raises_ok v

theorem converts_checkRange (s : Session) (idx : ℕ) (setpoint : Value) :
    Converts (s.checkRange idx setpoint) := by
  refine (Value.converts_orElse _ _).bind fun ranges _ => ?_
  refine ranges.converts_len.bind fun n _ => ?_
  split
  · refine ranges.converts_iter.bind fun items _ => ?_
    refine (Value.converts_unpackPair _).bind fun pair _ => ?_
    refine (Value.converts_le _ _).bind fun above _ => ?_
    dsimp only
    split
    · exact (Value.converts_le _ _).bind fun inside _ => converts_raiseIf rfl _
    · exact (raises_ok _).bind fun inside _ => converts_raiseIf rfl _
  · exact raises_ok ()

/-- The exceptions of `set_frame` besides those of the conversions. -/
def isSetFrameError : PyErr → Bool
  | .notWritable _ | .stateUnknown _ => true
  | e => e.isConversion

theorem isSetFrameError_of_isConversion {e : PyErr} (h : e.isConversion = true) :
    isSetFrameError e = true := by
  cases e <;> first | rfl | exact h

/-- `set_frame` raises no exception of the connection. -/
theorem raises_setFrame (s : Session) (ref : TopicRef) (value : Value) (compartment : Option ℤ) :
    Raises (fun e => isSetFrameError e = true) (s.setFrame ref value compartment) := by
  have hmono : ∀ {α : Type} {x : Except PyErr α}, Converts x →
      Raises (fun e => isSetFrameError e = true) x :=
    fun h => h.mono fun _ => isSetFrameError_of_isConversion
  have hraiseIf : ∀ {e : PyErr}, isSetFrameError e = true → ∀ (c : Prop) [Decidable c],
      Raises (fun e => isSetFrameError e = true) (raiseIf c e) :=
    fun he c _ => raises_raiseIf (P := fun e => isSetFrameError e = true) he c
  refine Raises.bind ?_ fun tp _ => ?_
  · refine (hmono (converts_topic ref)).bind fun t _ => ?_
    split
    · exact raises_ok t
    · exact raises_error rfl
  · dsimp only
    split
    · refine (hmono (Value.converts_truth _)).bind fun known _ => ?_
      refine (hraiseIf rfl _).bind fun _ _ => ?_
      refine (hmono (Value.converts_len _)).bind fun n _ => ?_
      refine (hraiseIf rfl _).bind fun _ _ => ?_
      refine (hmono (Value.converts_iter _)).bind fun items _ => ?_
      refine (hmono (converts_coerce tp value)).bind fun item _ => ?_
      refine Raises.bind ?_ fun _ _ => ?_
      · split
        · exact hmono (s.converts_checkRange _ item)
        · exact raises_ok ()
      · exact (hmono (tp.codec.converts_encode _)).bind fun _ _ => raises_ok _
    · refine (hraiseIf rfl _).bind fun _ _ => ?_
      refine (hmono (converts_coerce tp value)).bind fun v _ => ?_
      refine (hmono (tp.codec.converts_encode v)).bind fun payload _ => ?_
      exact (hmono (tp.codec.converts_decode payload)).bind fun _ _ => raises_ok _

end Session

end Ddmp
