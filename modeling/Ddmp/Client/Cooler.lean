import Ddmp.Lib.Machine
import Ddmp.Session.Session

/-!
# A client and its cooler

The part of the README that says how the cooler answers a write, for one per-compartment
topic: it stores the whole array of each SET in arrival order, first re-publishes the array it
showed before, and shows the stored one only later. The client is its session; both
directions of the connection are queues of frames.
-/

namespace Ddmp

open Lib

/-- The session, the cooler's arrays for one topic, and the frames on their way. -/
structure World where
  session : Session
  stored : Bytes
  shown : Bytes
  /-- Arrays stored and not yet shown, oldest first. -/
  backlog : List Bytes := []
  /-- A SET has arrived and the array shown before it has not been re-published yet. -/
  owes : Bool := false
  /-- Frames written by the client that the cooler has not read, in the order sent. -/
  sets : List Frame := []
  /-- Frames published by the cooler that the client has not read. -/
  inbound : List Frame := []

namespace World

/-- The moves of the cooler and of the reader. -/
inductive Act
  | process
  | publish
  | refresh
  | deliver
  | other (f : Frame)

/-- The publish of an array. -/
def publishOf (tp : Topic) (payload : Bytes) : Frame :=
  { action := Action.PUBLISH.value, address := tp.address, payload }

/-- The session after an inbound frame. -/
def read (w : World) (f : Frame) : Option World :=
  match w.session.onFrame f with
  | .ok (_, session) => some { w with session }
  | .error _ => none

/-- One move; `none` when it is not possible. -/
def step (tp : Topic) (w : World) : Act → Option World
  | .process =>
    match w.sets with
    | [] => none
    | f :: rest =>
      some { w with sets := rest, stored := f.payload, backlog := w.backlog ++ [f.payload],
                    owes := true }
  | .publish => some { w with inbound := w.inbound ++ [publishOf tp w.shown], owes := false }
  | .refresh =>
    match w.backlog with
    | [] => none
    | payload :: rest => if w.owes then none else some { w with shown := payload, backlog := rest }
  | .deliver =>
    match w.inbound with
    | [] => none
    | f :: rest => { w with inbound := rest }.read f
  -- any other frame: another topic, a NAK, an unknown action
  | .other f =>
    if f.action = Action.PUBLISH.value ∧ f.address = tp.address then none else w.read f

/-- `set` of a client: the frame is built from the session and queued behind earlier ones. -/
def set (w : World) (ref : TopicRef) (value : Value) (compartment : Option ℤ) :
    Except PyErr (Frame × World) := do
  let (f, _) ← w.session.setFrame ref value compartment
  return (f, { w with sets := w.sets ++ [f] })

/-- The session holds the array that the cooler stores and shows, and nothing else is on its
way. -/
structure Settled (tp : Topic) (payload : Bytes) (w : World) : Prop where
  reachable : w.session.Reachable
  held : w.session.raw.get? tp.address = some payload
  stored : w.stored = payload
  shown : w.shown = payload
  backlog : w.backlog = []
  sets : w.sets = []
  inbound : ∀ f ∈ w.inbound, f = publishOf tp payload

end World

end Ddmp
