import Ddmp.Lib.Machine
import Ddmp.Lib.Registry
import Ddmp.Session.Session

/-!
# The asyncio client

A client is shared by its reader task, the callers of `set` with their timers, the callers of
`send` and of `close`, and the iterations over `events()`. Everything between two suspensions runs
at once, so each action below is the code from one suspension to the next. Only the loop over the
events of a chunk is taken event by event: `put` on the unbounded queue never suspends, so no party
acts between two events and no cancellation arrives there. Letting them do so only adds runs.
-/

namespace Ddmp

open Lib

/-! ## One call of `set` -/

/-- An `asyncio.Future`. -/
inductive Future
  | pending
  | result (value : Value)
  | exception (e : PyErr)
  | cancelled

namespace Future

/-- `Future.done`. -/
def done : Future → Bool
  | pending => false
  | _ => true

/-- `Future.cancel`: no effect on a future that is done. -/
def cancel : Future → Future
  | pending => cancelled
  | fut => fut

/-- `Future.result`. -/
def outcome : Future → Except PyErr Value
  | pending => .error .invalidStateError
  | result value => .ok value
  | exception e => .error e
  | cancelled => .error .cancelledError

end Future

/-- What makes the task of a call stop waiting for its future. -/
inductive Interrupt
  | timeout
  | cancel
deriving DecidableEq

/-- Where a call of `set` is: at `drain`, at `wait_for`, or at its end. -/
inductive Phase
  | sending
  | waiting (interrupt : Option Interrupt)
  | returned (value : Value)
  | raised (e : PyErr)

/-- A call of `set` that has added its entry `(expectation, fut)` to `_pending`. Two fields
are not in the source: `addedAt`, the number of events processed before, and `invalid`, whether
`set_result` or `set_exception` was called on the future when it was done. -/
structure SetCall where
  expectation : WriteExpectation
  timeout : Value
  addedAt : ℕ
  future : Future := .pending
  phase : Phase := .sending
  invalid : Bool := false

namespace SetCall

/-- The call has neither returned nor raised. -/
def Unfinished (call : SetCall) : Prop :=
  call.phase = .sending ∨ ∃ interrupt, call.phase = .waiting interrupt

/-- `fut.set_result`. -/
def setResult (call : SetCall) (value : Value) : SetCall :=
  if call.future.done then { call with invalid := true }
  else { call with future := .result value }

/-- `fut.set_exception`. -/
def setException (call : SetCall) (e : PyErr) : SetCall :=
  if call.future.done then { call with invalid := true }
  else { call with future := .exception e }

/-- The body of the loop of `_resolve`. -/
def resolve (event : Event) (call : SetCall) : SetCall :=
  if call.future.done then call
  else
    let (verdict, expectation) := call.expectation.matches event
    let call := { call with expectation }
    match verdict with
    | some true => call.setResult expectation.observed
    | some false => call.setException (.writeRejected
        [.lit "cooler refused ", .val (.str expectation.topic.name), .lit " (NAK)"])
    | none => call

/-- What the end of `_read_loop` does to an entry. -/
def lose (call : SetCall) : SetCall :=
  if call.future.done then call
  else call.setException (.connectionClosed [.lit "connection lost"])

/-- Whether `wait_for` gives the future no time at all. -/
def expiresAtOnce (call : SetCall) : Except PyErr Bool :=
  match call.timeout with
  | .none => .ok false
  | timeout => timeout.le (.int 0)

/-- The task waits for the future. -/
def wait (call : SetCall) : SetCall := { call with phase := .waiting none }

/-- The timer fires, or the task is cancelled: the future on which the task waits is cancelled,
and the task will see a `CancelledError`. A cancellation from outside wins over the timer. -/
def interrupt (reason : Interrupt) (call : SetCall) : SetCall :=
  { call with future := call.future.cancel, phase := .waiting (some reason) }

/-- What `await wait_for(fut, timeout)` evaluates to once the task runs again. -/
def awaited (call : SetCall) : Option Interrupt → Except PyErr Value
  | some .timeout => .error .timeoutError
  | some .cancel => .error .cancelledError
  | none => call.future.outcome

/-- The end of a call: `except TimeoutError`, which covers the errors of `drain` too. -/
def finish (outcome : Except PyErr Value) (call : SetCall) : SetCall :=
  { call with
    phase := match outcome with
      | .ok value => .returned value
      | .error .timeoutError => .raised (.writeTimeout
          [.val (.str call.expectation.topic.name), .lit " not confirmed within ",
            .val call.timeout, .lit "s (cooler reports ", .lit call.expectation.observed.repr,
            .lit ")"])
      | .error e => .raised e }

end SetCall

/-! ## The client -/

/-- The reader task: not started, at `read` (with no event left) or in the loop over the events
of a chunk, at its end, or cancelled before it started, so that not even `finally` is run. -/
inductive Reader
  | notBegun
  | running (rest : List Event)
  | finished
  | neverRan

/-- A call of `close`. A cancellation during `await self._task` is suppressed, one during
`wait_closed` is not. -/
inductive CloseCall
  | awaitingTask
  | awaitingClosed
  | returned
  | raised
deriving DecidableEq

/-- An iteration over `events()`: in `get`, between two events, or over. -/
inductive Iteration
  | getting
  | holding
  | ended
deriving DecidableEq

/-- `AsyncClient`. The live calls are the entries of `_pending`; `log` is not in the source, it
lists the events that `_read_loop` has processed. -/
structure AsyncClient where
  session : Session := {}
  events : List (Option Event) := []
  calls : Registry SetCall := {}
  closed : Bool := false
  closeReason : Option PyErr := none
  written : Bytes := []
  writerClosed : Bool := false
  reader : Reader := .notBegun
  cancelRequested : Bool := false
  closes : List CloseCall := []
  iterations : List Iteration := []
  log : List Event := []

namespace AsyncClient

/-- `AsyncClient.send` up to `drain`. -/
def send (c : AsyncClient) (frame : Frame) : Except PyErr Unit × AsyncClient :=
  if c.closed then (.error (.connectionClosed [.lit "client is closed"]), c)
  else
    match frame.encodeLine with
    | .error e => (.error e, c)
    | .ok line => (.ok (), { c with written := c.written ++ line })

/-- Two entries of `_pending` are equal when their expectations are the same object or equal,
and their futures are the same object. -/
def sameEntry (c : AsyncClient) (i j : ℕ) : Bool :=
  match c.calls.slots[i]?, c.calls.slots[j]? with
  | some a, some b => (i = j || a.expectation.eq b.expectation) && i = j
  | _, _ => false

/-- Call `i` returns or raises; `_pending.remove` takes out the first equal entry, if any. -/
def leave (c : AsyncClient) (i : ℕ) (outcome : Except PyErr Value) : AsyncClient :=
  { c with calls := {
      slots := c.calls.slots.modify i (SetCall.finish outcome)
      live := c.calls.live.eraseP fun j => c.sameEntry j i } }

/-- `self._pending.append((expectation, fut))`. -/
def addEntry (c : AsyncClient) (expectation : WriteExpectation) (timeout : Value) : AsyncClient :=
  { c with calls := c.calls.add { expectation, timeout, addedAt := c.log.length } }

/-- `AsyncClient.set` up to `drain`: the number of the call, or what it raises at once. -/
def set (c : AsyncClient) (ref : TopicRef) (value : Value) (compartment : Option ℤ)
    (timeout : Value) : Except PyErr ℕ × AsyncClient :=
  match c.session.setFrame ref value compartment with
  | .error e => (.error e, c)
  | .ok (frame, expectation) =>
    let i := c.calls.slots.length
    -- whatever `send` raises, `finally` takes the entry out again
    match (c.addEntry expectation timeout).send frame with
    | (.error e, c) => (.error e, c.leave i (.error e))
    | (.ok (), c) => (.ok i, c)

/-- `drain` has returned: `wait_for` evaluates at once if the future is done, cancels it if it
gets no time, and waits for it otherwise. -/
def drained (c : AsyncClient) (i : ℕ) (call : SetCall) : AsyncClient :=
  match call.expiresAtOnce with
  | .error e => c.leave i (.error e)
  | .ok expired =>
    if call.future.done then c.leave i call.future.outcome
    else if expired then { c with calls := c.calls.update i (SetCall.interrupt .timeout) }
    else { c with calls := c.calls.update i SetCall.wait }

/-- `AsyncClient._resolve`. -/
def resolve (c : AsyncClient) (event : Event) : AsyncClient :=
  { c with calls := c.calls.each (SetCall.resolve event) }

/-- The body of the inner loop of `_read_loop`. -/
def handle (c : AsyncClient) (event : Event) (rest : List Event) : AsyncClient :=
  let c := c.resolve event
  { c with
    reader := .running rest
    events := c.events ++ [some event]
    log := c.log ++ [event] }

/-- The `finally` of `_read_loop`. -/
def endReading (c : AsyncClient) (error : Option PyErr) : AsyncClient :=
  { c with
    reader := .finished
    closeReason := error
    closed := true
    calls := c.calls.each SetCall.lose
    events := c.events ++ [none] }

/-- What `read` has returned, up to the first event. -/
def receive (c : AsyncClient) (data : Bytes) : AsyncClient :=
  if data = [] then
    c.endReading (some (.connectionClosed [.lit "cooler closed the connection"]))
  else
    match c.session.feed data with
    | .error e => c.endReading (some e)
    | .ok (events, session) => { c with session, reader := .running events }

/-- `AsyncClient.close` up to `await self._task`. -/
def close (c : AsyncClient) : AsyncClient :=
  -- also when it was the reader task that has set `_closed`
  if c.closed then { c with closes := c.closes ++ [.returned] }
  else { c with
    closed := true
    cancelRequested := true
    closes := c.closes ++ [.awaitingTask] }

/-! ## What the parties do next -/

/-- The reader task. -/
inductive ReaderAct
  /-- The task starts. -/
  | begin
  /-- `read` returns; no bytes stand for the end of the stream. -/
  | read (data : Bytes)
  /-- `read` raises an `Exception`, after asyncio has lost the connection. -/
  | readError (e : PyErr)
  /-- The next event of the chunk is handled. -/
  | handle
  /-- The cancellation that `close` has requested arrives. -/
  | cancelled

/-- A call of `set` that has been suspended. -/
inductive CallAct
  /-- `drain` returns. -/
  | drained
  /-- `drain` raises, after asyncio has lost the connection. -/
  | drainFails (e : PyErr)
  /-- The timer of `wait_for` fires. -/
  | timesOut
  /-- The task of the call is cancelled. -/
  | cancel
  /-- The task runs again because its future is done. -/
  | resume

/-- A call of `close` starts, or call `j` goes on. -/
inductive CloseAct
  | start
  /-- `await self._task` is over. -/
  | taskDone (j : ℕ)
  /-- `wait_closed` is over. -/
  | waitedClosed (j : ℕ)
  /-- The task of the call is cancelled during `wait_closed`. -/
  | cancel (j : ℕ)

/-- An iteration over `events()` starts, or iteration `j` goes on. -/
inductive IterationAct
  | start
  /-- `get` returns the head of the queue. -/
  | take (j : ℕ)
  /-- The next event is asked for. -/
  | next (j : ℕ)
  /-- The iteration is given up. -/
  | abandon (j : ℕ)

/-- An action of one of the parties, or of asyncio, which may lose the connection before anybody is
told. `subscribe_all` is a call of `send` for each of its frames; nothing is done after `drain`. -/
inductive Act
  | reader (act : ReaderAct)
  | send (frame : Frame)
  | lost
  | set (ref : TopicRef) (value : Value) (compartment : Option ℤ) (timeout : Value)
  | call (i : ℕ) (act : CallAct)
  | close (act : CloseAct)
  | iteration (act : IterationAct)

/-- Once a cancellation is requested, the reader task neither starts nor gets more bytes. -/
def stepReader (c : AsyncClient) : ReaderAct → Option AsyncClient
  | .begin =>
    match c.reader, c.cancelRequested with
    | .notBegun, false => some { c with reader := .running [] }
    | _, _ => none
  | .read data =>
    match c.reader, c.cancelRequested with
    | .running [], false => some (c.receive data)
    | _, _ => none
  | .readError e =>
    match c.reader, c.cancelRequested with
    | .running [], false => some { c.endReading (some e) with writerClosed := true }
    | _, _ => none
  | .handle =>
    match c.reader with
    | .running (event :: rest) => some (c.handle event rest)
    | _ => none
  | .cancelled =>
    match c.reader, c.cancelRequested with
    | .notBegun, true => some { c with reader := .neverRan }
    | .running _, true => some (c.endReading none)
    | _, _ => none

/-- Call `i` of `set` goes on. -/
def stepCall (c : AsyncClient) (i : ℕ) (call : SetCall) : CallAct → Option AsyncClient
  | .drained =>
    match call.phase with
    | .sending => some (c.drained i call)
    | _ => none
  | .drainFails e =>
    match call.phase with
    | .sending => some { c.leave i (.error e) with writerClosed := true }
    | _ => none
  | .timesOut =>
    match call.phase, call.timeout with
    | .waiting none, .none => none
    | .waiting none, _ => some { c with calls := c.calls.update i (SetCall.interrupt .timeout) }
    | _, _ => none
  | .cancel =>
    match call.phase with
    | .sending => some (c.leave i (.error .cancelledError))
    | .waiting _ => some { c with calls := c.calls.update i (SetCall.interrupt .cancel) }
    | _ => none
  | .resume =>
    match call.phase with
    | .waiting interrupt =>
      if call.future.done then some (c.leave i (call.awaited interrupt)) else none
    | _ => none

/-- The calls of `close`. -/
def stepClose (c : AsyncClient) : CloseAct → Option AsyncClient
  | .start => some c.close
  | .taskDone j =>
    match c.closes[j]?, c.reader with
    | some .awaitingTask, .finished | some .awaitingTask, .neverRan =>
      some { c with writerClosed := true, closes := c.closes.set j .awaitingClosed }
    | _, _ => none
  | .waitedClosed j =>
    match c.closes[j]? with
    | some .awaitingClosed =>
      some { c with events := c.events ++ [none], closes := c.closes.set j .returned }
    | _ => none
  | .cancel j =>
    match c.closes[j]? with
    | some .awaitingClosed => some { c with closes := c.closes.set j .raised }
    | _ => none

/-- The iterations over `events()`. -/
def stepIteration (c : AsyncClient) : IterationAct → Option AsyncClient
  | .start => some { c with iterations := c.iterations ++ [.getting] }
  | .take j =>
    match c.iterations[j]?, c.events with
    | some .getting, some _ :: rest =>
      some { c with events := rest, iterations := c.iterations.set j .holding }
    | some .getting, none :: rest =>
      some { c with events := rest, iterations := c.iterations.set j .ended }
    | _, _ => none
  | .next j =>
    match c.iterations[j]? with
    | some .holding => some { c with iterations := c.iterations.set j .getting }
    | _ => none
  | .abandon j => some { c with iterations := c.iterations.set j .ended }

/-- One action of one party. -/
def step (c : AsyncClient) : Act → Option AsyncClient
  | .reader act => c.stepReader act
  | .send frame => some (c.send frame).2
  -- the transport of the writer is closed
  | .lost => some { c with writerClosed := true }
  | .set ref value compartment timeout => some (c.set ref value compartment timeout).2
  | .call i act => c.calls.slots[i]?.bind fun call => c.stepCall i call act
  | .close act => c.stepClose act
  | .iteration act => c.stepIteration act

end AsyncClient

end Ddmp
