import Ddmp.Client.SyncClient

/-!
# The life of a blocking client

The threads that meet in one `SyncClient`: the one that calls `connect`, directly or through
`__enter__`, the reader thread, and any thread that calls `close`. Every point at which another
thread may come in between is an action of its own; `send` is checked and written in two of
them. `__exit__` only runs after `__enter__` has returned, so a `with` statement adds nothing to
a `connect` that raises.
-/

namespace Ddmp

open Lib

/-- Where the thread that calls `connect` is. -/
inductive Connecting
  | ready
  | opening
  | opened
  | assigned
  | burst (rest : List Frame)
  | sending (frame : Frame) (rest : List Frame)
  | returned
  | raised (e : PyErr)

/-- Where the reader thread is. -/
inductive Reading
  | notStarted
  | checking
  | receiving
  | leaving (reason : Option PyErr)
  | over

/-- What `sock.recv` does: `TimeoutError`, another `OSError`, or data, empty at the end of the
stream. -/
inductive Recv
  | timeout
  | fails (text : String)
  | data (chunk : Bytes)

/-- A client and the threads in it. `socket` is the socket that `connect` has created, and
whether it is open; `client.sock` is `_sock`. `checked` and `releasing` count the calls of
`close` that are past the test of `_closed` and past setting it. -/
structure SyncLifecycle where
  client : SyncClient
  session : Session := {}
  subscribe : Bool := true
  socket : Option Bool := none
  closeReason : Option PyErr := none
  connecting : Connecting := .ready
  reading : Reading := .notStarted
  checked : ℕ := 0
  releasing : ℕ := 0

namespace SyncLifecycle

/-- The steps of `SyncClient.connect` and `subscribe_all`. `create` is
`socket.create_connection`, which raises `OSError` with a text or returns a socket. -/
inductive ConnectAct
  | call
  | create (outcome : Except String Unit)
  | assign
  | startReader
  | check
  | sendall (outcome : SendAll)

/-- The steps of `SyncClient._read_loop`. -/
inductive ReadAct
  | loop
  | recv (outcome : Recv)
  | leave

/-- The steps of `SyncClient.close`; joining the reader thread changes nothing. -/
inductive CloseAct
  | check
  | set
  | release

inductive Act
  | connect (act : ConnectAct)
  | read (act : ReadAct)
  | close (act : CloseAct)

def stepConnect (c : SyncLifecycle) : ConnectAct → Option SyncLifecycle
  | .call =>
    match c.connecting with
    | .ready =>
      if c.client.sock.isSome then
        some { c with connecting := .raised (.connectionClosed
          [.lit "SyncClient is single-use; create a new one to reconnect"]) }
      else some { c with connecting := .opening }
    | _ => none
  | .create outcome =>
    match c.connecting, outcome with
    | .opening, .error text => some { c with connecting := .raised (.osError text) }
    -- `apply_keepalive` and `settimeout` raise nothing
    | .opening, .ok () => some { c with connecting := .opened, socket := some true }
    | _, _ => none
  | .assign =>
    match c.connecting with
    | .opened => some { c with
        connecting := .assigned
        client := { c.client with sock := some [] } }
    | _ => none
  | .startReader =>
    match c.connecting with
    | .assigned => some { c with
        reading := .checking
        connecting := if c.subscribe then .burst c.session.subscribeFrames else .returned }
    | _ => none
  | .check =>
    match c.connecting with
    | .burst [] => some { c with connecting := .returned }
    | .burst (frame :: rest) =>
      if c.client.sock.isNone || c.client.closed then
        some { c with connecting := .raised (.connectionClosed
          [.lit "not connected to ", .val (.str c.client.host), .lit ":",
            .val (.int c.client.port)]) }
      else some { c with connecting := .sending frame rest }
    | _ => none
  | .sendall outcome =>
    match c.connecting with
    | .sending frame rest =>
      match frame.encodeLine with
      | .error e => some { c with connecting := .raised e }
      | .ok line =>
        let c := { c with client :=
          { c.client with sock := c.client.sock.map (· ++ outcome.written line) } }
        match outcome with
        | .done => some { c with connecting := .burst rest }
        | .fails _ text => some { c with connecting := .raised (.connectionClosed [.lit text]) }
    | _ => none

def stepRead (c : SyncLifecycle) : ReadAct → Option SyncLifecycle
  | .loop =>
    match c.reading with
    | .checking => some { c with reading := if c.client.closed then .leaving none else .receiving }
    | _ => none
  | .recv outcome =>
    match c.reading with
    | .receiving =>
      -- an error counts as the reason only if nobody has called `close`
      let reason (e : PyErr) : Option PyErr := if c.client.closed then none else some e
      match outcome with
      | .timeout => some { c with reading := .checking }
      | .fails text => some { c with reading := .leaving (reason (.osError text)) }
      | .data [] => some { c with
          reading := .leaving (reason (.connectionClosed [.lit "cooler closed the connection"])) }
      | .data chunk =>
        match c.session.feed chunk with
        | .ok (_, session) => some { c with session, reading := .checking }
        | .error _ => some { c with reading := .leaving none }
    | _ => none
  | .leave =>
    match c.reading with
    | .leaving reason => some { c with
        reading := .over
        closeReason := reason
        client := { c.client with closed := true }
        socket := some false }
    | _ => none

def stepClose (c : SyncLifecycle) : CloseAct → Option SyncLifecycle
  | .check => some (if c.client.closed then c else { c with checked := c.checked + 1 })
  | .set =>
    if 0 < c.checked then
      some { c with
        checked := c.checked - 1
        releasing := c.releasing + 1
        client := { c.client with closed := true } }
    else none
  | .release =>
    if 0 < c.releasing then
      some { c with
        releasing := c.releasing - 1
        socket := if c.client.sock.isSome then some false else c.socket }
    else none

/-- One action; `none` when it is not possible. -/
def step (c : SyncLifecycle) : Act → Option SyncLifecycle
  | .connect act => c.stepConnect act
  | .read act => c.stepRead act
  | .close act => c.stepClose act

/-- A client that has just been made. -/
def fresh (host : String) (port : ℕ) (session : Session) (subscribe : Bool) : SyncLifecycle :=
  { client := { host, port }, session, subscribe }

end SyncLifecycle

end Ddmp
