import Ddmp.Lib.Machine
import Ddmp.Session.Session

/-!
# A client and the fake cooler

The server of the tests, with one connection to it: the thread of `_serve`, which reads whole or
partial lines and answers frame by frame, and a client that sends and feeds its session. Both
directions are streams of bytes, and a `recv` takes as many of those on their way as it likes.
-/

namespace Ddmp

open Lib

/-- `FakeCooler`: the publishes it replies with, and the addresses whose SETs it refuses. -/
structure FakeCooler where
  publishes : Dict Address Frame := Dict.empty
  refuse : List Address := []
  received : List Frame := []

namespace FakeCooler

/-- `FakeCooler.__init__`, for the decoded base64 of the recorded lines; the last value wins. -/
def create (recorded : List Bytes) (refuse : List Address) : Except PyErr FakeCooler := do
  let frames ← recorded.mapM Frame.decode
  return { publishes := Dict.empty.replay (frames.map fun f => (f.address, f)), refuse }

/-- `FakeCooler._reply`. -/
def reply (c : FakeCooler) (frame : Frame) : Option Frame × FakeCooler :=
  if frame.action = Action.SUBSCRIBE.value then (c.publishes.get? frame.address, c)
  else if frame.action = Action.SET.value then
    if frame.address ∈ c.refuse then
      (some { action := Action.NAK.value, address := frame.address, payload := [] }, c)
    else
      let echo : Frame :=
        { action := Action.PUBLISH.value, address := frame.address, payload := frame.payload }
      (some echo, { c with publishes := c.publishes.set frame.address echo })
  else (none, c)

/-- A frame is noted and answered. -/
def handle (c : FakeCooler) (frame : Frame) : Option Frame × FakeCooler :=
  { c with received := c.received ++ [frame] }.reply frame

/-- The cooler after some frames, handled one after another, and its answers. -/
def converse : FakeCooler → List Frame → FakeCooler × List Frame
  | c, [] => (c, [])
  | c, frame :: rest =>
    let (answer, c) := c.handle frame
    let (c, answers) := converse c rest
    (c, answer.toList ++ answers)

end FakeCooler

/-- One connection. The thread of `_serve` has `decoder` and the rest of the frames of a chunk;
`serving` turns false when it dies. `sent` and `events`, the frames sent by the client and all
events its session has handed out, are not in the source. -/
structure Exchange where
  session : Session := {}
  cooler : FakeCooler
  decoder : LineDecoder := {}
  todo : List Frame := []
  serving : Bool := true
  up : Bytes := []
  down : Bytes := []
  sent : List Frame := []
  events : List Event := []

namespace Exchange

/-- The client sends a frame; the thread of `_serve` receives `n` bytes, or handles the next frame
of a chunk; the reader of the client receives `n` bytes. -/
inductive Act
  | send (frame : Frame)
  | serve (n : ℕ)
  | answer
  | read (n : ℕ)

def step (x : Exchange) : Act → Option Exchange
  | .send frame =>
    match frame.encodeLine with
    | .ok line => some { x with up := x.up ++ line, sent := x.sent ++ [frame] }
    -- raised before anything is written
    | .error _ => some x
  | .serve n =>
    if x.serving = true ∧ x.todo.isEmpty = true ∧ 0 < n ∧ n ≤ x.up.length then
      match x.decoder.feed (x.up.take n) with
      | .ok (todo, decoder) => some { x with todo, decoder, up := x.up.drop n }
      | .error _ => some { x with serving := false, up := x.up.drop n }
    else none
  | .answer =>
    match x.serving, x.todo with
    | true, frame :: todo =>
      match x.cooler.handle frame with
      | (none, cooler) => some { x with cooler, todo }
      | (some reply, cooler) =>
        match reply.encodeLine with
        | .ok line => some { x with cooler, todo, down := x.down ++ line }
        | .error _ => some { x with cooler, todo, serving := false }
    | _, _ => none
  | .read n =>
    if 0 < n ∧ n ≤ x.down.length then
      match x.session.feed (x.down.take n) with
      | .ok (events, session) =>
        some { x with session, events := x.events ++ events, down := x.down.drop n }
      | .error _ => none
    else none

/-- Nothing is on its way, and every frame of a chunk has been handled. -/
def Quiet (x : Exchange) : Prop := x.up = [] ∧ x.todo = [] ∧ x.down = []

end Exchange

end Ddmp
