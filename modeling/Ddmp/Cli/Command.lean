import Ddmp.Cli.WriteCommand
import Ddmp.Client.SyncLifecycle

/-!
# The commands `set` and `set-temp`

The whole process, from `main` to the exit code: `cmd_set` or `cmd_set_temp`, `_connect`, `_write`,
and the reader thread beside them. Nobody calls `close` before the `finally` of `_write`.
-/

namespace Ddmp

open Lib

/-- A command with its own arguments, as `argparse` has converted them. -/
inductive Subcommand
  | setTemp (celsius : PyFloat)
  | set (topic value : String)

/-- What `cmd_set_temp` and `cmd_set` call `_write` with, or `none` if the topic is not in
`WRITABLE`. -/
def Subcommand.target : Subcommand → Except PyErr (Option (String × Value))
  | setTemp celsius => .ok (some ("csettemp", .float celsius))
  | set name value => do
    let tp ← Ddmp.topic (.name name)
    if tp.name ∈ writableNames then return some (tp.name, .str value) else return none

/-- The arguments that both commands have. -/
structure CommandOptions where
  host : String
  port : ℕ := defaultPort
  compartment : Option ℤ := none
  echoTimeout : ℚ := 10
  yes : Bool := false

/-- How far the process is. `unread` are the events that the reader thread has still to hand over
while `_connect` goes on, `looping` says whether it is still in its loop while `_write` does;
`sock` is what `_sock` carries when the process exits. -/
inductive Stage
  | parsed
  | connecting (life : SyncLifecycle) (unread : List Event)
  | writing (write : WriteCommand) (looping : Bool)
  | exited (code : ℕ) (sock : Option Bytes)

structure Command where
  subcommand : Subcommand
  options : CommandOptions
  stage : Stage := .parsed

/-- The thread has not left the loop of `_read_loop`. -/
def Reading.isLooping : Reading → Bool
  | checking | receiving => true
  | _ => false

namespace Command

/-- The steps of `main` up to `_connect`, of both threads in `_connect`, of `_write`, and of the
reader thread beside it. -/
inductive Act
  | dispatch
  | connect (act : SyncLifecycle.ConnectAct)
  | read (act : SyncLifecycle.ReadAct)
  | record
  | begin (clock : ℚ)
  | write (act : WriteCommand.Act)
  | leaveLoop
  | setClosed
  | exit

/-- The events of the chunk that a step of the reader thread receives. -/
def received (life : SyncLifecycle) : SyncLifecycle.ReadAct → List Event
  | .recv (.data (b :: chunk)) =>
    match life.session.feed (b :: chunk) with
    | .ok (events, _) => events
    | .error _ => []
  | _ => []

/-- `_write` when `_connect` has returned. -/
def beginWrite (options : CommandOptions) (name : String) (value : Value) (life : SyncLifecycle)
    (unread : List Event) (clock : ℚ) : WriteCommand :=
  { WriteCommand.start
      { name, value, compartment := options.compartment, yes := options.yes
        echoTimeout := options.echoTimeout }
      life.client life.session clock with unread }

def step (c : Command) : Act → Option Command
  | .dispatch =>
    match c.stage, c.subcommand.target with
    -- `main` turns an exception into 1
    | .parsed, .error _ => some { c with stage := .exited 1 none }
    | .parsed, .ok none => some { c with stage := .exited 2 none }
    | .parsed, .ok (some _) => some { c with
        stage := .connecting (SyncLifecycle.fresh c.options.host c.options.port {} true) [] }
    | _, _ => none
  | .connect act =>
    match c.stage with
    | .connecting life unread =>
      (life.stepConnect act).map fun life => { c with stage := .connecting life unread }
    | _ => none
  | .read act =>
    match c.stage with
    | .connecting life [] =>
      (life.stepRead act).map fun life' =>
        { c with stage := .connecting life' (received life act) }
    | _ => none
  | .record =>
    -- what is recorded now is cleared before it is read
    match c.stage with
    | .connecting life (_ :: unread) => some { c with stage := .connecting life unread }
    | _ => none
  | .begin clock =>
    match c.stage, c.subcommand.target with
    | .connecting life unread, .ok (some (name, value)) =>
      match life.connecting with
      | .returned => some { c with
          stage := .writing (beginWrite c.options name value life unread clock)
            life.reading.isLooping }
      | _ => none
    | _, _ => none
  | .write act =>
    match c.stage, act with
    | .writing _ false, .feed _ => none
    | .writing write looping, act =>
      (write.step act).map fun write => { c with stage := .writing write looping }
    | _, _ => none
  | .leaveLoop =>
    match c.stage with
    | .writing write true =>
      if write.unread = [] then some { c with stage := .writing write false } else none
    | _ => none
  | .setClosed =>
    match c.stage with
    | .writing write false => some { c with
        stage := .writing { write with client := { write.client with closed := true } } false }
    | _ => none
  | .exit =>
    match c.stage with
    | .connecting life _ =>
      match life.connecting with
      | .raised _ => some { c with stage := .exited 1 life.client.sock }
      | _ => none
    | .writing write _ =>
      match write.main with
      | .returned code => some { c with stage := .exited code write.client.sock }
      | .raised _ => some { c with stage := .exited 1 write.client.sock }
      | _ => none
    | _ => none

/-- The process when `argparse` has returned. -/
def start (subcommand : Subcommand) (options : CommandOptions) : Command :=
  { subcommand, options }

/-- What has been written to the connection, if there is one. -/
def stream (c : Command) : Option Bytes :=
  match c.stage with
  | .parsed => none
  | .connecting life _ => life.client.sock
  | .writing write _ => write.client.sock
  | .exited _ sock => sock

end Command

end Ddmp
