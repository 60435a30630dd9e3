import Ddmp.Models.CoolerState
import Ddmp.Protocol.Topics

/-!
# The protocol session

Bytes in, events out, frames to send. A session remembers the last published value of every
topic, builds SET frames, and hands out the expectation that tells when a write has been
confirmed.
-/

namespace Ddmp

open Lib

/-- What an inbound frame turns into. -/
inductive Event
  | publish (address : Address) (topic : Option Topic) (value : Value) (raw : Bytes)
  | nak (address : Address) (raw : Bytes)
  | unhandled (frame : Frame)

/-! ## Confirming a write -/

mutual

/-- `_close`. The order of the tests is the source's: sequences, then `bool`, then numbers. -/
def close : Value → Value → ℚ → Bool
  | .list xs, .list ys, tol => closeItems xs ys tol
  | .list xs, .tuple ys, tol => closeItems xs ys tol
  | .tuple xs, .list ys, tol => closeItems xs ys tol
  | .tuple xs, .tuple ys, tol => closeItems xs ys tol
  | .bool a, b, _ => (b.truth.toOption.getD true) == a
  | a, .bool b, _ => (a.truth.toOption.getD true) == b
  | a, b, tol =>
    match a.number?, b.number? with
    | some x, some y => x.within tol y
    | _, _ => a.eq b

/-- Same length, and close item by item. -/
def closeItems : List Value → List Value → ℚ → Bool
  | [], [], _ => true
  | x :: xs, y :: ys, tol => close x y tol && closeItems xs ys tol
  | _, _, _ => false

end

/-- What the cooler should publish back after a SET. -/
structure WriteExpectation where
  topic : Topic
  expected : Value
  tolerance : ℚ := 0
  observed : Value := .none

/-- `a == b`, field by field. -/
def WriteExpectation.eq (a b : WriteExpectation) : Bool :=
  a.topic = b.topic && a.expected.eq b.expected && a.tolerance = b.tolerance
    && a.observed.eq b.observed

/-- `WriteExpectation.matches`: the verdict, and the expectation with what it observed. -/
def WriteExpectation.matches (e : WriteExpectation) (event : Event) :
    Option Bool × WriteExpectation :=
  match event with
  | .nak address _ => (if address = e.topic.address then some false else none, e)
  | .publish address _ value _ =>
    if address ≠ e.topic.address then (none, e)
    else
      (if close value e.expected e.tolerance then some true else none, { e with observed := value })
  | .unhandled _ => (none, e)

/-! ## The session -/

/-- `Session`. -/
structure Session where
  topics : List Topic := subscribeTopics
  values : Dict String Value := Dict.empty
  raw : Dict Address Bytes := Dict.empty
  decoder : LineDecoder := {}

namespace Session

/-- `Session._publish`: the event and the session that has recorded it. -/
def publish (s : Session) (frame : Frame) : Except PyErr (Event × Session) := do
  let raw := s.raw.set frame.address frame.payload
  match topicByAddress.get? frame.address with
  | none =>
    return (.publish frame.address none (.bytes frame.payload) frame.payload, { s with raw })
  | some tp =>
    -- a payload that does not decode is kept as it is
    let value ← match tp.codec.decode frame.payload with
      | .ok v => .ok v
      | .error (.decodeError _) => .ok (Value.bytes frame.payload)
      | .error e => .error e
    return (.publish frame.address (some tp) value frame.payload,
      { s with raw, values := s.values.set tp.name value })

/-- The body of the loop of `Session.feed`. -/
def onFrame (s : Session) (frame : Frame) : Except PyErr (Event × Session) :=
  if frame.action = Action.PUBLISH.value then s.publish frame
  else if frame.action = Action.NAK.value then .ok (.nak frame.address frame.payload, s)
  else .ok (.unhandled frame, s)

/-- The loop of `Session.feed`. -/
def onFrames : Session → List Frame → Except PyErr (List Event × Session)
  | s, [] => .ok ([], s)
  | s, frame :: rest => do
    let (event, s) ← s.onFrame frame
    let (events, s) ← onFrames s rest
    return (event :: events, s)

/-- `Session.feed`. -/
def feed (s : Session) (data : Bytes) : Except PyErr (List Event × Session) := do
  let (frames, decoder) ← s.decoder.feed data
  onFrames { s with decoder } frames

/-- Feeding chunks one after another: the events of all calls, and the session left. -/
def feedAll : Session → List Bytes → Except PyErr (List Event × Session)
  | s, [] => .ok ([], s)
  | s, chunk :: rest => do
    let (events, s) ← s.feed chunk
    let (more, s) ← feedAll s rest
    return (events ++ more, s)

/-- `Session.state`. -/
def state (s : Session) : Except PyErr CoolerState := CoolerState.fromValues s.values

/-- `Session.subscribe_frames`. -/
def subscribeFrames (s : Session) : List Frame :=
  s.topics.map fun t => { action := Action.SUBSCRIBE.value, address := t.address }

/-- The truth a caller's value stands for. -/
def coerceBool : Value → Except PyErr Bool
  | .str s => .ok (["1", "true", "on", "yes"].contains
      (String.ofList (strLower (strStrip s.toList))))
  | v => v.truth

/-- `_coerce`. -/
def coerce (tp : Topic) (value : Value) : Except PyErr Value :=
  let kind := tp.codec.kind
  if kind = "bool" ∨ kind = "bool[]" then
    (coerceBool value).map .bool
  else if kind = "milli" ∨ kind = "milli[]" then value.toFloat.map .float
  else if kind = "enum" then do tp.codec.decode (← tp.codec.encode value)
  else .ok value

/-- `Session._check_range`. -/
def checkRange (s : Session) (idx : ℕ) (setpoint : Value) : Except PyErr Unit := do
  let ranges ← (Value.ofOption (s.values.get? "ctemprng")).orElse (.list [])
  if idx < (← ranges.len) then
    let items ← ranges.iter
    let (lo, hi) ← (items.getD idx .none).unpackPair
    -- `lo <= setpoint <= hi` evaluates the second comparison only after the first
    let inside ← if ← lo.le setpoint then setpoint.le hi else .ok false
    raiseIf (!inside) (.valueError [.lit "set-point ", .val setpoint,
      .lit " °C outside cooler range ", .val lo, .lit "..", .val hi, .lit " °C"])

/-- The tolerance of an expectation: set-points are stored with 0.1 °C granularity. -/
def tolerance (tp : Topic) : ℚ :=
  if "milli".toList.isPrefixOf tp.codec.kind.toList then 51 / 1000 else 0

/-- `Session.set_frame`. -/
def setFrame (s : Session) (ref : TopicRef) (value : Value) (compartment : Option ℤ) :
    Except PyErr (Frame × WriteExpectation) := do
  let tp ← assertWritable ref
  let frame (payload : Bytes) : Frame :=
    { action := Action.SET.value, address := tp.address, payload }
  if tp.perCompartment then
    -- the SET carries the whole array: the last published items with one replaced
    let current := Value.ofOption (s.values.get? tp.name)
    raiseIf (!(← current.truth)) (.stateUnknown
      [.val (.str tp.name), .lit " has not been published yet; subscribe first"])
    let idx := compartment.getD 0
    let n ← current.len
    raiseIf (idx < 0 ∨ n ≤ idx) (.valueError [.lit "compartment ", .val (.int idx),
      .lit " out of range for ", .val (.str tp.name), .lit " (", .val (.int n), .lit ")"])
    let items ← current.iter
    let item ← coerce tp value
    let new := items.set idx.toNat item
    (if tp.name = "csettemp" then s.checkRange idx.toNat item else .ok ())
    let payload ← tp.codec.encode (.list new)
    return (frame payload, { topic := tp, expected := .list new, tolerance := tolerance tp })
  else
    raiseIf (compartment ≠ none ∧ compartment ≠ some 0)
      (.valueError [.val (.str tp.name), .lit " is not a per-compartment topic"])
    let coerced ← coerce tp value
    let payload ← tp.codec.encode coerced
    -- the cooler will publish what the payload decodes to
    let expected ← tp.codec.decode payload
    return (frame payload, { topic := tp, expected, tolerance := tolerance tp })

/-- The sessions a client can hold: a fresh one that has been fed some chunks. -/
def Reachable (s : Session) : Prop :=
  ∃ topics chunks events, feedAll { topics } chunks = .ok (events, s)

end Session

end Ddmp
