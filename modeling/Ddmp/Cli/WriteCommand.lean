import Ddmp.Client.SyncClient

/-!
# The write command

`_write` of the command line: the thread that sends a SET and polls for its answer, and the reader
thread that records events. Every point at which the other thread may come in between is an
action of its own. The clock moves by itself.
-/

namespace Ddmp

open Lib

/-- An event with the time at which it was recorded. The program has the event only. -/
abbrev Stamped := ℚ × Event

/-- What `_write` is called with. -/
structure WriteArgs where
  name : String
  value : Value
  compartment : Option ℤ
  yes : Bool := true
  echoTimeout : ℚ

/-- Where the thread of `_write` is. -/
inductive Writing
  | waiting
  | prepared (frame : Frame)
  | cleared (frame : Frame)
  | sent
  | testing
  | draining
  | checking (pending : List Stamped)
  | sleeping (wake : ℚ)
  | returned (code : ℕ)
  | raised (e : PyErr)

/-- `_write` and the reader thread. `unread` are the events of the last `feed` that the reader has
not yet handed to `on_event`, `events` is the list that both threads lock, and `recorded` has all
that was put there since it was cleared. -/
structure WriteCommand where
  args : WriteArgs
  client : SyncClient
  session : Session
  main : Writing := .waiting
  unread : List Event := []
  events : List Stamped := []
  recorded : List Stamped := []
  expectation : Option WriteExpectation := none
  clock : ℚ
  deadline : ℚ := 0

namespace WriteCommand

/-- The steps of `_write`. -/
inductive MainAct
  | setFrame
  | clear
  | send (outcome : SendAll)
  | setDeadline
  | test
  | drain
  | check
  | wake

/-- The steps of both threads and of the clock. -/
inductive Act
  | main (act : MainAct)
  | feed (chunk : Bytes)
  | record
  | tick (dt : ℚ)

def stepMain (s : WriteCommand) : MainAct → Option WriteCommand
  | .setFrame =>
    match s.main with
    | .waiting =>
      match s.session.setFrame (.name s.args.name) s.args.value s.args.compartment with
      | .error e => some { s with main := .raised e }
      | .ok (frame, expectation) => some { s with
          expectation := some expectation
          main := if s.args.yes then .prepared frame else .returned 2 }
    | _ => none
  | .clear =>
    match s.main with
    | .prepared frame => some { s with main := .cleared frame, events := [], recorded := [] }
    | _ => none
  | .send outcome =>
    match s.main with
    | .cleared frame =>
      match s.client.send frame outcome with
      | (.ok (), client) => some { s with client, main := .sent }
      | (.error e, client) => some { s with client, main := .raised e }
    | _ => none
  | .setDeadline =>
    match s.main with
    | .sent => some { s with deadline := s.clock + s.args.echoTimeout, main := .testing }
    | _ => none
  | .test =>
    match s.main with
    | .testing => some { s with
        main := if s.clock < s.deadline then .draining else .returned 4 }
    | _ => none
  | .drain =>
    match s.main with
    | .draining => some { s with main := .checking s.events, events := [] }
    | _ => none
  | .check =>
    match s.main, s.expectation with
    | .checking [], _ => some { s with main := .sleeping (s.clock + 1 / 10) }
    | .checking (e :: pending), some expectation =>
      let (verdict, expectation) := expectation.matches e.2
      some { s with
        expectation := some expectation
        main := match verdict with
          | some true => .returned 0
          | some false => .returned 3
          | none => .checking pending }
    | _, _ => none
  | .wake =>
    match s.main with
    | .sleeping wake => if wake ≤ s.clock then some { s with main := .testing } else none
    | _ => none

/-- One action; `none` when it is not possible. -/
def step (s : WriteCommand) : Act → Option WriteCommand
  | .main act => s.stepMain act
  | .feed chunk =>
    match s.unread, s.session.feed chunk with
    | [], .ok (unread, session) => some { s with unread, session }
    | _, _ => none
  | .record =>
    match s.unread with
    | [] => none
    | e :: unread => some { s with
        unread
        events := s.events ++ [(s.clock, e)]
        recorded := s.recorded ++ [(s.clock, e)] }
  | .tick dt => if 0 ≤ dt then some { s with clock := s.clock + dt } else none

/-- `_write` when it has connected. -/
def start (args : WriteArgs) (client : SyncClient) (session : Session) (clock : ℚ) :
    WriteCommand :=
  { args, client, session, clock }

end WriteCommand

end Ddmp
