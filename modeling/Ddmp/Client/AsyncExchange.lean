import Ddmp.Client.AsyncClient
import Ddmp.Client.FakeCooler

/-!
# An asyncio client and the fake cooler

The two ends of one connection: an `AsyncClient` with all its parties, and the thread of `_serve`.
The reader task reads what the cooler has written, and the cooler what the client has written.
-/

namespace Ddmp

open Lib

/-- A client, the thread of `_serve` and the bytes on their way, with the names of `Exchange`. -/
structure AsyncExchange where
  client : AsyncClient := {}
  cooler : FakeCooler
  decoder : LineDecoder := {}
  todo : List Frame := []
  serving : Bool := true
  up : Bytes := []
  down : Bytes := []

namespace AsyncExchange

/-- One party of the client goes on; the reader task or the thread of `_serve` receives `n` bytes;
the thread of `_serve` handles a frame. -/
inductive Act
  | client (act : AsyncClient.Act)
  | read (n : ℕ)
  | serve (n : ℕ)
  | answer

/-- Bytes reach the reader task only from the connection. -/
def receives : AsyncClient.Act → Bool
  | .reader (.read (_ :: _)) => true
  | _ => false

/-- What the client has written since is on its way. -/
def wrote (w : AsyncExchange) (client : AsyncClient) : AsyncExchange :=
  { w with client, up := w.up ++ client.written.drop w.client.written.length }

/-- The same connection, when the client has sent these frames and its session has handed out
these events. -/
def asExchange (w : AsyncExchange) (sent : List Frame) (events : List Event) : Exchange where
  session := w.client.session
  cooler := w.cooler
  decoder := w.decoder
  todo := w.todo
  serving := w.serving
  up := w.up
  down := w.down
  sent := sent
  events := events

/-- The end of the cooler as it is in an exchange. -/
def served (w : AsyncExchange) (x : Exchange) : AsyncExchange where
  client := w.client
  cooler := x.cooler
  decoder := x.decoder
  todo := x.todo
  serving := x.serving
  up := x.up
  down := x.down

def step (w : AsyncExchange) : Act → Option AsyncExchange
  | .client act => if receives act then none else (w.client.step act).map w.wrote
  | .read n =>
    if 0 < n ∧ n ≤ w.down.length then
      (w.client.step (.reader (.read (w.down.take n)))).map fun client =>
        { w with client, down := w.down.drop n }
    else none
  | .serve n => ((w.asExchange [] []).step (.serve n)).map w.served
  | .answer => ((w.asExchange [] []).step .answer).map w.served

/-- Nothing is on its way, and both ends have handled what they have received. -/
def Quiet (w : AsyncExchange) : Prop :=
  w.up = [] ∧ w.todo = [] ∧ w.down = [] ∧ w.client.reader = .running []

/-- A client that has just been made by `AsyncClient.connect`, before `subscribe_all`. -/
def opened (tps : List Topic) (cooler : FakeCooler) : AsyncExchange :=
  { client := { session := { topics := tps } }, cooler }

end AsyncExchange

end Ddmp
