import Ddmp.Cli.Command
import Ddmp.Client.FakeCooler

/-!
# A command and the fake cooler

The process of `ddmp set` or `set-temp` at one end of a connection, the thread of `_serve` at the
other. The reader thread of the process reads what the cooler has written, and the cooler what the
process has written, a line that breaks off included.
-/

namespace Ddmp

open Lib

/-- A process, the thread of `_serve` and the bytes on their way, with the names of `Exchange`. -/
structure CommandExchange where
  command : Command
  cooler : FakeCooler
  decoder : LineDecoder := {}
  todo : List Frame := []
  serving : Bool := true
  up : Bytes := []
  down : Bytes := []

namespace CommandExchange

/-- The process goes on; its reader thread or the thread of `_serve` receives `n` bytes; the thread
of `_serve` handles a frame. -/
inductive Act
  | command (act : Command.Act)
  | read (n : ℕ)
  | serve (n : ℕ)
  | answer

/-- Bytes reach the reader thread only from the connection. -/
def receives : Command.Act → Bool
  | .read (.recv (.data (_ :: _))) | .write (.feed _) => true
  | _ => false

/-- What the process has written since is on its way. -/
def wrote (w : CommandExchange) (command : Command) : CommandExchange :=
  { w with
    command
    up := w.up ++ (command.stream.getD []).drop (w.command.stream.getD []).length }

/-- The reader thread receives a chunk, wherever the other thread is. -/
def receive (c : Command) (chunk : Bytes) : Option Command :=
  match c.stage with
  | .connecting _ _ => c.step (.read (.recv (.data chunk)))
  | .writing _ _ => c.step (.write (.feed chunk))
  | _ => none

/-- The same connection, with a session that has handed out these events, and these frames sent. -/
def asExchange (w : CommandExchange) (session : Session) (sent : List Frame)
    (events : List Event) : Exchange where
  session := session
  cooler := w.cooler
  decoder := w.decoder
  todo := w.todo
  serving := w.serving
  up := w.up
  down := w.down
  sent := sent
  events := events

/-- The end of the cooler as it is in an exchange. -/
def served (w : CommandExchange) (x : Exchange) : CommandExchange where
  command := w.command
  cooler := x.cooler
  decoder := x.decoder
  todo := x.todo
  serving := x.serving
  up := x.up
  down := x.down

def step (w : CommandExchange) : Act → Option CommandExchange
  | .command act => if receives act then none else (w.command.step act).map w.wrote
  | .read n =>
    if 0 < n ∧ n ≤ w.down.length then
      (receive w.command (w.down.take n)).map fun command =>
        { w with command, down := w.down.drop n }
    else none
  | .serve n => ((w.asExchange {} [] []).step (.serve n)).map w.served
  | .answer => ((w.asExchange {} [] []).step .answer).map w.served

/-- A process that has been started, and the cooler it will connect to. -/
def opened (subcommand : Subcommand) (options : CommandOptions) (cooler : FakeCooler) :
    CommandExchange :=
  { command := .start subcommand options, cooler }

end CommandExchange

end Ddmp
