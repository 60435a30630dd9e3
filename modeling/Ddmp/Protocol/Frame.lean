import Ddmp.Lib.Base64
import Ddmp.Python.Value

/-!
# Frames and the line decoder

A frame is `action, param, instance, subclass, class, payload…`; on the wire it is base64
and a carriage return. Integers that Python does not bound (`Frame.action`, the components
of an `Address`) are integers here; `bytes(…)` is where they must fit a byte.
-/

namespace Ddmp

/-- `LINE_TERMINATOR`, the byte CR. -/
def lineTerminator : UInt8 := 13

/-- DDM2 action byte. -/
inductive Action
  | HELLO
  | ACK
  | NAK
  | NOP
  | PUBLISH
  | SET
  | SUBSCRIBE
  | FRAGMENT
deriving DecidableEq, Repr

/-- The code of an action. -/
def Action.value : Action → ℤ
  | HELLO => 0x03
  | ACK => 0x04
  | NAK => 0x05
  | NOP => 0x06
  | PUBLISH => 0x10
  | SET => 0x11
  | SUBSCRIBE => 0x12
  | FRAGMENT => 0x14

/-- `bytes(ints)`. -/
def bytesOfInts (ns : List ℤ) : Except PyErr Bytes :=
  ns.mapM fun n => if 0 ≤ n ∧ n < 256 then .ok (UInt8.ofNat n.toNat) else .error (.valueError [])

/-- `f"{n:02X}"`. -/
def hex02X (n : ℤ) : String :=
  let digits := (Nat.toDigits 16 n.natAbs).map Char.toUpper
  let signed := if n < 0 then '-' :: digits else digits
  String.ofList (if signed.length < 2 then '0' :: signed else signed)

/-- Four-byte parameter address in wire order. -/
structure Address where
  param : ℤ
  inst : ℤ
  subclass : ℤ
  cls : ℤ
deriving DecidableEq, Repr

namespace Address

/-- The components in wire order. -/
def toList (a : Address) : List ℤ := [a.param, a.inst, a.subclass, a.cls]

/-- `Address.to_bytes`. -/
def toBytes (a : Address) : Except PyErr Bytes := bytesOfInts a.toList

/-- `Address.from_bytes`. -/
def fromBytes (raw : Bytes) : Except PyErr Address :=
  match raw with
  | p :: i :: s :: c :: _ => .ok ⟨p.toNat, i.toNat, s.toNat, c.toNat⟩
  | _ => .error (.decodeError [.lit "address needs 4 bytes, got ", .val (.int raw.length)])

/-- `Address.parse`. -/
def parse (text : String) : Except PyErr Address :=
  let cleaned := strStrip ((text.toList.filter (· ≠ ':')).filter (· ≠ ' '))
  if cleaned.length ≠ 8 then
    .error (.valueError [.lit "address must be 4 hex bytes: ", .val (.str text)])
  else do
    let raw ← orRaise (.valueError []) (fromHex? cleaned)
    fromBytes raw

/-- `str(address)`. -/
def str (a : Address) : String := String.intercalate " " (a.toList.map hex02X)

end Address

/-- A decoded DDM2 frame. -/
structure Frame where
  action : ℤ
  address : Address
  payload : Bytes := []
deriving DecidableEq, Repr

namespace Frame

/-- `Frame.encode`. -/
def encode (f : Frame) : Except PyErr Bytes := do
  let action ← bytesOfInts [f.action]
  let address ← f.address.toBytes
  return action ++ address ++ f.payload

/-- `Frame.encode_line`: the exact bytes written to the socket. -/
def encodeLine (f : Frame) : Except PyErr Bytes := do
  let raw ← f.encode
  return Lib.Base64.encode raw ++ [lineTerminator]

/-- `Frame.decode`. A known action becomes an `Action` member in Python, which is the same
integer. -/
def decode (raw : Bytes) : Except PyErr Frame :=
  match raw with
  | action :: p :: i :: s :: c :: payload => do
    let address ← Address.fromBytes [p, i, s, c]
    return { action := action.toNat, address, payload }
  | _ => .error (.decodeError
      [.lit "frame needs at least 5 bytes, got ", .val (.int raw.length)])

/-- Every component fits a byte. -/
def Fits (f : Frame) : Prop :=
  (0 ≤ f.action ∧ f.action < 256) ∧ ∀ n ∈ f.address.toList, 0 ≤ n ∧ n < 256

instance (f : Frame) : Decidable f.Fits := inferInstanceAs (Decidable (_ ∧ _))

end Frame

/-- `base64.b64decode(line, validate=True)`, read strictly. Some interpreters pass over pads
behind whole groups, as `Base64.decodeExcess?` does. -/
def b64decode (line : Bytes) : Except PyErr Bytes :=
  orRaise (.valueError []) (Lib.Base64.decode? line)

/-- Turns the inbound byte stream into frames. -/
structure LineDecoder where
  buf : Bytes := []
  dropped : ℕ := 0
deriving DecidableEq, Repr

namespace LineDecoder

/-- The loop of `LineDecoder.feed`, one line at a time; `fuel` bounds the lines in the buffer. -/
def feedLoop : ℕ → LineDecoder → List Frame → Except PyErr (List Frame × LineDecoder)
  | 0, d, frames => .ok (frames, d)
  | fuel + 1, d, frames =>
    match d.buf.idxOf? lineTerminator with
    | none => .ok (frames, d)
    | some stop =>
      let line := bytesStrip (d.buf.take stop)
      let d := { d with buf := d.buf.drop (stop + 1) }
      -- a blank line is neither decoded nor counted
      if line = [] then feedLoop fuel d frames
      else match b64decode line with
        | .error (.valueError _) => feedLoop fuel { d with dropped := d.dropped + 1 } frames
        | .error e => .error e
        | .ok raw =>
          match Frame.decode raw with
          | .ok frame => feedLoop fuel d (frames ++ [frame])
          | .error (.decodeError _) => feedLoop fuel { d with dropped := d.dropped + 1 } frames
          | .error e => .error e

/-- `LineDecoder.feed`. -/
def feed (d : LineDecoder) (data : Bytes) : Except PyErr (List Frame × LineDecoder) :=
  let d := { d with buf := d.buf ++ data }
  feedLoop (d.buf.length + 1) d []

/-- `LineDecoder.pending`. -/
def pending (d : LineDecoder) : Bytes := d.buf

/-- Feeding chunks one after another: the frame list of each call, and the decoder left. -/
def feedAll : LineDecoder → List Bytes → Except PyErr (List (List Frame) × LineDecoder)
  | d, [] => .ok ([], d)
  | d, chunk :: rest => do
    let (frames, d) ← feed d chunk
    let (more, d) ← feedAll d rest
    return (frames :: more, d)

end LineDecoder

end Ddmp
