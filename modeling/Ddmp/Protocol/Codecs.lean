import Ddmp.Lib.LittleEndian
import Ddmp.Protocol.Frame

/-!
# Codecs

One pair `decode`/`encode` for each codec class of the source, and the sum type `Codec` that
dispatches on the class. `struct.error`, `TypeError` and the other exceptions of the
built-ins are kept apart from the library's own `DecodeError`.
-/

namespace Ddmp

open Lib.LittleEndian

/-- `_need`. -/
def need (payload : Bytes) (n : ℕ) (what : String) : Except PyErr Unit :=
  if payload.length < n then
    .error (.decodeError [.lit what, .lit ": need ", .val (.int n), .lit " bytes, got ",
      .val (.int payload.length)])
  else .ok ()

/-- `struct.unpack_from("<i", payload)[0]`. -/
def unpackI32 (payload : Bytes) : Except PyErr ℤ :=
  match payload with
  | a :: b :: c :: d :: _ => .ok (i32Of a b c d)
  | _ => .error .structError

/-- `struct.pack("<i", n)`. -/
def packI32 (n : ℤ) : Except PyErr Bytes :=
  if InI32 n then .ok (i32Bytes n) else .error .structError

/-- `struct.pack("<H", n)`. -/
def packU16 (n : ℤ) : Except PyErr Bytes :=
  if 0 ≤ n ∧ n < 2 ^ 16 then .ok (u16Bytes n.toNat) else .error .structError

/-- `round(float(value) * 1000)`. -/
def toMilli (value : Value) : Except PyErr ℤ := do
  (← value.toFloat).times1000.round

/-- An integer divided by 1000. -/
def ofMilli (n : ℤ) : Value := .float (.fin (n / 1000))

/-- `b"".join(f(v) for v in value)`. -/
def joinItems (f : Value → Except PyErr Bytes) (value : Value) : Except PyErr Bytes := do
  let items ← value.iter
  let parts ← items.mapM f
  return parts.flatten

namespace Int32Codec

def decode (payload : Bytes) : Except PyErr Value := do
  need payload 4 "int32"
  return .int (← unpackI32 payload)

def encode (value : Value) : Except PyErr Bytes := do
  packI32 (← value.toInt)

end Int32Codec

namespace Int32ArrayCodec

def decode (payload : Bytes) : Except PyErr Value :=
  .ok (.list ((i32s payload).map .int))

def encode (value : Value) : Except PyErr Bytes :=
  joinItems Int32Codec.encode value

end Int32ArrayCodec

namespace BoolCodec

def decode (payload : Bytes) : Except PyErr Value := do
  need payload 4 "bool"
  return .bool ((← unpackI32 payload) != 0)

def encode (value : Value) : Except PyErr Bytes := do
  packI32 (if ← value.truth then 1 else 0)

end BoolCodec

namespace BoolArrayCodec

def decode (payload : Bytes) : Except PyErr Value :=
  .ok (.list ((i32s payload).map fun v => .bool (v != 0)))

def encode (value : Value) : Except PyErr Bytes :=
  joinItems BoolCodec.encode value

end BoolArrayCodec

namespace MilliCodec

def decode (payload : Bytes) : Except PyErr Value := do
  need payload 4 "milli"
  return ofMilli (← unpackI32 payload)

def encode (value : Value) : Except PyErr Bytes := do
  packI32 (← toMilli value)

end MilliCodec

namespace MilliArrayCodec

def decode (payload : Bytes) : Except PyErr Value :=
  .ok (.list ((i32s payload).map ofMilli))

def encode (value : Value) : Except PyErr Bytes :=
  joinItems MilliCodec.encode value

end MilliArrayCodec

namespace MilliPairArrayCodec

/-- Neighbouring values two by two; an odd last one is dropped. -/
def pairs : List ℤ → List Value
  | lo :: hi :: rest => .tuple [ofMilli lo, ofMilli hi] :: pairs rest
  | _ => []

def decode (payload : Bytes) : Except PyErr Value :=
  .ok (.list (pairs (i32s payload)))

/-- One pair: both ends are converted before either is packed. -/
def encodePair (value : Value) : Except PyErr Bytes := do
  let (lo, hi) ← value.unpackPair
  let lo ← toMilli lo
  let hi ← toMilli hi
  return (← packI32 lo) ++ (← packI32 hi)

def encode (value : Value) : Except PyErr Bytes :=
  joinItems encodePair value

end MilliPairArrayCodec

namespace EnumCodec

/-- A code without a member stays an integer. -/
def decode (cls : EnumClass) (payload : Bytes) : Except PyErr Value := do
  need payload 4 "enum"
  let raw ← unpackI32 payload
  match cls.ofValue? raw with
  | some m => return .enum m
  | none => return .int raw

def encode (cls : EnumClass) (value : Value) : Except PyErr Bytes := do
  -- a text is the name of a member, in any case
  let value ← match value with
    | .str s => (orRaise (.keyError []) (cls.ofName? (String.ofList (strUpper s.toList)))).map .enum
    | v => .ok v
  packI32 (← value.toInt)

end EnumCodec

namespace StrCodec

def decode (payload : Bytes) : Except PyErr Value :=
  .ok (.str (String.ofList (strStrip (Lib.Utf8.decodeReplace (payload.takeWhile (· ≠ 0))))))

def encode (value : Value) : Except PyErr Bytes := do
  return Lib.Utf8.encode (← value.text).toList

end StrCodec

namespace Mac6Codec

def decode (payload : Bytes) : Except PyErr Value := do
  need payload 6 "mac"
  let octets := (payload.take 6).map fun b =>
    [hexLower (b.toNat / 16), hexLower (b.toNat % 16)]
  return .str (String.ofList (List.intercalate [':'] octets))

def encode (value : Value) : Except PyErr Bytes := do
  orRaise (.valueError []) (fromHex? ((← value.text).toList.filter (· ≠ ':')))

end Mac6Codec

namespace U16ArrayCodec

def decode (payload : Bytes) : Except PyErr Value :=
  .ok (.list ((u16s payload).map fun v => .int v))

def encode (value : Value) : Except PyErr Bytes :=
  joinItems (fun v => do packU16 (← v.toInt)) value

end U16ArrayCodec

/-- A codec object. -/
inductive Codec
  | int32
  | int32Array
  | bool
  | boolArray
  | milli
  | milliArray
  | milliPairArray
  | enum (cls : EnumClass)
  | str
  | mac6
  | u16Array
deriving DecidableEq, Repr

namespace Codec

/-- `codec.kind`. -/
def kind : Codec → String
  | int32 => "int32"
  | int32Array => "int32[]"
  | bool => "bool"
  | boolArray => "bool[]"
  | milli => "milli"
  | milliArray => "milli[]"
  | milliPairArray => "milli-pair[]"
  | enum _ => "enum"
  | str => "str"
  | mac6 => "mac"
  | u16Array => "uint16[]"

/-- `codec.decode(payload)`. -/
def decode : Codec → Bytes → Except PyErr Value
  | int32 => Int32Codec.decode
  | int32Array => Int32ArrayCodec.decode
  | bool => BoolCodec.decode
  | boolArray => BoolArrayCodec.decode
  | milli => MilliCodec.decode
  | milliArray => MilliArrayCodec.decode
  | milliPairArray => MilliPairArrayCodec.decode
  | enum cls => EnumCodec.decode cls
  | str => StrCodec.decode
  | mac6 => Mac6Codec.decode
  | u16Array => U16ArrayCodec.decode

/-- `codec.encode(value)`. -/
def encode : Codec → Value → Except PyErr Bytes
  | int32 => Int32Codec.encode
  | int32Array => Int32ArrayCodec.encode
  | bool => BoolCodec.encode
  | boolArray => BoolArrayCodec.encode
  | milli => MilliCodec.encode
  | milliArray => MilliArrayCodec.encode
  | milliPairArray => MilliPairArrayCodec.encode
  | enum cls => EnumCodec.encode cls
  | str => StrCodec.encode
  | mac6 => Mac6Codec.encode
  | u16Array => U16ArrayCodec.encode

end Codec

end Ddmp
