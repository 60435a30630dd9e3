import Ddmp.Lib.Machine
import Ddmp.Session.Session

/-!
# The blocking client

Its outbound half: `send` and the socket it writes to. `socket.sendall` writes the whole line
or raises `OSError` after some prefix of it; which of the two happens is up to the network.
-/

namespace Ddmp

open Lib

/-- `DEFAULT_PORT`. -/
def defaultPort : ℕ := 13143

/-- What `sendall` does with a line: write it, or fail after its first `n` bytes. -/
inductive SendAll
  | done
  | fails (n : ℕ) (text : String)

/-- The bytes of a line that are written. -/
def SendAll.written (line : Bytes) : SendAll → Bytes
  | done => line
  | fails n _ => line.take n

/-- The part of a `SyncClient` that sending reads: `_sock` as the bytes written to it so far,
and the `_closed` event. -/
structure SyncClient where
  host : String
  port : ℕ := defaultPort
  sock : Option Bytes := none
  closed : Bool := false

namespace SyncClient

/-- `SyncClient.connected`. -/
def connected (c : SyncClient) : Bool := c.sock.isSome && !c.closed

/-- `SyncClient.send`. An error other than `OSError`, such as the `ValueError` of a frame that
does not fit, is raised before anything is written. -/
def send (c : SyncClient) (frame : Frame) (outcome : SendAll) : Except PyErr Unit × SyncClient :=
  match c.sock, c.closed with
  | some written, false =>
    match frame.encodeLine with
    | .error e => (.error e, c)
    | .ok line =>
      let c := { c with sock := some (written ++ outcome.written line) }
      match outcome with
      | .done => (.ok (), c)
      | .fails _ text => (.error (.connectionClosed [.lit text]), c)
  | _, _ => (.error (.connectionClosed
      [.lit "not connected to ", .val (.str c.host), .lit ":", .val (.int c.port)]), c)

end SyncClient

/-- One connection: the client, and the frames that have been passed to `send`. -/
structure Connection where
  client : SyncClient
  passed : List Frame := []

namespace Connection

/-- A call of `send` with what the network does to it, or `_closed` being set by `close` or by
the reader thread. -/
inductive Act
  | send (frame : Frame) (outcome : SendAll)
  | setClosed

/-- The connection after one call of `send`. -/
def send (s : Connection) (frame : Frame) (outcome : SendAll) : Connection where
  client := (s.client.send frame outcome).2
  passed := s.passed ++ [frame]

/-- Every action is possible in every state. -/
def step (s : Connection) : Act → Option Connection
  | .send frame outcome => some (s.send frame outcome)
  | .setClosed => some { s with client := { s.client with closed := true } }

/-- The bytes that have reached the peer. -/
def stream (s : Connection) : Bytes := s.client.sock.getD []

/-- A connection just opened. -/
def opened (host : String) : Connection := { client := { host, sock := some [] } }

end Connection

end Ddmp
