import Ddmp.Client.SyncLifecycle

/-!
# The reader thread and the callbacks

`SyncClient._read_loop` with `on_event` and `on_close`, and the callers of `close`. A callback
takes as long as it wants and may itself do what other threads do, so its call and its end are
two actions. The `finally` block is taken statement by statement.
-/

namespace Ddmp

open Lib

/-- How a callback ends: it returns, it raises an `Exception`, which is logged, or it raises
something else, which ends the thread. -/
inductive CallbackEnd
  | returns
  | raises
  | escapes

/-- Where the reader thread is. In the `for` loop it has these events still to hand over; in the
`finally` block it has this `error`. -/
inductive Looping
  | checking
  | receiving
  | handling (events : List Event)
  | inEvent (events : List Event)
  | unwinding (error : Option PyErr)
  | closing (error : Option PyErr)
  | releasing (error : Option PyErr)
  | reporting (error : Option PyErr)
  | inClose
  | ended

/-- A client whose reader thread is running. `onEvent` and `onClose` say whether there are such
callbacks, `escaping` whether an exception of a callback is on its way out. `received`, `handed`
and `reported` are the chunks received, the calls of `on_event` and those of `on_close`. -/
structure ReadLoop where
  session : Session
  onEvent : Bool := true
  onClose : Bool := true
  looping : Looping := .checking
  closed : Bool := false
  socketClosed : Bool := false
  closeReason : Option PyErr := none
  escaping : Bool := false
  checked : ℕ := 0
  releasing : ℕ := 0
  received : List Bytes := []
  handed : List Event := []
  reported : List (Option PyErr) := []

/-- The error of a `recv` that ends the loop. -/
def Recv.error? : Recv → Option PyErr
  | timeout => none
  | fails text => some (.osError text)
  | data [] => some (.connectionClosed [.lit "cooler closed the connection"])
  | data _ => none

namespace ReadLoop

/-- The steps of `_read_loop`: the test of `_closed`, `recv` with `feed`, the next round of the
`for` loop, the end of `on_event`, one statement of the `finally` block, the end of `on_close`. -/
inductive ReadAct
  | loop
  | recv (outcome : Recv)
  | next
  | eventEnds (outcome : CallbackEnd)
  | unwind
  | closeEnds

/-- The steps of the reader thread and of the callers of `close`, which may be callbacks. -/
inductive Act
  | read (act : ReadAct)
  | close (act : SyncLifecycle.CloseAct)

def stepRead (c : ReadLoop) : ReadAct → Option ReadLoop
  | .loop =>
    match c.looping with
    | .checking => some { c with looping := if c.closed then .unwinding none else .receiving }
    | _ => none
  | .recv outcome =>
    match c.looping with
    | .receiving =>
      match outcome.error? with
      -- an error counts only if nobody has called `close`
      | some e => some { c with looping := .unwinding (if c.closed then none else some e) }
      | none =>
        match outcome with
        | .data chunk =>
          match c.session.feed chunk with
          | .ok (events, session) => some { c with
              session
              received := c.received ++ [chunk]
              looping := .handling events }
          | .error _ => some { c with looping := .unwinding none, escaping := true }
        | _ => some { c with looping := .checking }
    | _ => none
  | .next =>
    match c.looping with
    | .handling [] => some { c with looping := .checking }
    | .handling (event :: events) =>
      if c.onEvent then
        some { c with handed := c.handed ++ [event], looping := .inEvent events }
      else some { c with looping := .handling events }
    | _ => none
  | .eventEnds outcome =>
    match c.looping, outcome with
    | .inEvent _, .escapes => some { c with looping := .unwinding none, escaping := true }
    | .inEvent events, _ => some { c with looping := .handling events }
    | _, _ => none
  | .unwind =>
    match c.looping with
    | .unwinding error => some { c with closeReason := error, looping := .closing error }
    | .closing error => some { c with closed := true, looping := .releasing error }
    | .releasing error => some { c with socketClosed := true, looping := .reporting error }
    | .reporting error =>
      if c.onClose then some { c with reported := c.reported ++ [error], looping := .inClose }
      else some { c with looping := .ended }
    | _ => none
  | .closeEnds =>
    match c.looping with
    | .inClose => some { c with looping := .ended }
    | _ => none

def stepClose (c : ReadLoop) : SyncLifecycle.CloseAct → Option ReadLoop
  | .check => some (if c.closed then c else { c with checked := c.checked + 1 })
  | .set =>
    if 0 < c.checked then
      some { c with checked := c.checked - 1, releasing := c.releasing + 1, closed := true }
    else none
  | .release =>
    if 0 < c.releasing then some { c with releasing := c.releasing - 1, socketClosed := true }
    else none

/-- One action; `none` when it is not possible. -/
def step (c : ReadLoop) : Act → Option ReadLoop
  | .read act => c.stepRead act
  | .close act => c.stepClose act

/-- A reader thread that has just been started. -/
def started (session : Session) (onEvent onClose : Bool) : ReadLoop :=
  { session, onEvent, onClose }

end ReadLoop

end Ddmp
