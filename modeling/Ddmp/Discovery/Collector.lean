import Ddmp.Discovery.Messages
import Ddmp.Lib.Fallible
import Ddmp.Lib.Sorted
import Mathlib.Data.Char
import Mathlib.Data.List.Lex

/-!
# The mDNS collector

What a browse learns from the datagrams it receives. `str.lower` is a parameter: nothing here
depends on how it treats a character.
-/

namespace Ddmp

open Lib Fallible

/-- `MdnsService`. -/
structure MdnsService where
  instanceName : List Char
  hostname : List Char
  port : ℕ
  addresses : List String
  txt : Dict (List Char) (List Char) := .empty

/-- `_MdnsCollector`. -/
structure MdnsCollector where
  service : List Char
  instances : Finset (List Char) := ∅
  srv : Dict (List Char) (ℕ × List Char) := .empty
  txt : Dict (List Char) (Dict (List Char) (List Char)) := .empty
  addresses : Dict (List Char) (List String) := .empty

/-- `socket.inet_ntoa`. -/
def inetNtoa (rdata : Bytes) : String := ".".intercalate (rdata.map fun b => toString b.toNat)

/-- `try: … except ValueError: continue`. -/
def unlessValueError {α : Type} : Except PyErr α → Except PyErr (Option α)
  | .ok a => .ok (some a)
  | .error e => if e.isValueError then .ok none else .error e

namespace MdnsCollector

variable (lower : List Char → List Char)

/-- `_MdnsCollector(service)`. -/
def fresh (service : List Char) : MdnsCollector := { service := lower (stripDots service) }

/-- The body of the loop of `add`. -/
def learn (data : Bytes) (c : MdnsCollector) (record : Record) : Except PyErr MdnsCollector :=
  let key := lower record.name
  if record.rtype = 12 ∧ key = c.service then do
    match ← unlessValueError (readName data record.offset) with
    | none => return c
    | some (inst, _) => return { c with instances := insert inst c.instances }
  else if record.rtype = 33 ∧ 6 ≤ record.rdata.length then do
    let port ← unpackBE record.rdata 4
    match ← unlessValueError (readName data (record.offset + 6)) with
    | none => return c
    | some (target, _) => return { c with srv := c.srv.set record.name (port, target) }
  else if record.rtype = 16 then
    return { c with txt := c.txt.set record.name (parseTxt record.rdata) }
  else if record.rtype = 1 ∧ record.rdata.length = 4 then
    let known := (c.addresses.get? key).getD []
    return { c with addresses := c.addresses.set key (known ++ [inetNtoa record.rdata]) }
  else return c

/-- A pass of the loop that raises leaves the collector as it was. -/
def learnStep (data : Bytes) (c : MdnsCollector) (record : Record) :
    Except PyErr Unit × MdnsCollector :=
  match c.learn lower data record with
  | .ok c' => (.ok (), c')
  | .error e => (.error e, c)

/-- `add`. -/
def add (c : MdnsCollector) (data : Bytes) : Except PyErr Unit × MdnsCollector :=
  match parseResponse data with
  | .ok records => forEach (learnStep lower data) c records
  | .error e => (.error e, c)

/-- The datagrams of a browse, added one after another until a call raises. -/
def collect (c : MdnsCollector) (datagrams : List Bytes) : Except PyErr Unit × MdnsCollector :=
  forEach (add lower) c datagrams

/-- `_lookup`: under the name itself, else under the first key that differs from it in case only. -/
def lookup {ν : Type} (table : Dict (List Char) ν) (name : List Char) : Option ν :=
  match table.get? name with
  | some value => some value
  | none => (table.entries.find? fun entry => lower entry.1 = lower name).map Prod.snd

/-- The service of an instance whose SRV record is known. -/
def service? (c : MdnsCollector) (inst : List Char) : Option MdnsService :=
  (lookup lower c.srv inst).map fun (port, target) =>
    { instanceName := inst
      hostname := target
      port
      addresses := (Dict.fromKeys ((c.addresses.get? (lower target)).getD [])).keys
      txt := (lookup lower c.txt inst).getD .empty }

/-- `services`. -/
def services (c : MdnsCollector) : List MdnsService :=
  (sorted c.instances).filterMap (c.service? lower)

/-- The follow-up questions about an instance. -/
def questions (c : MdnsCollector) (inst : List Char) : List Question :=
  match lookup lower c.srv inst with
  | none => [(inst, 33), (inst, 16)]
  | some (_, target) =>
    (if (lookup lower c.txt inst).isNone then [(inst, 16)] else [])
      ++ if (c.addresses.get? (lower target)).getD [] = [] then [(target, 1)] else []

/-- `missing`. -/
def missing (c : MdnsCollector) : List Question := (sorted c.instances).flatMap (c.questions lower)

/-- `collector.instances and not collector.missing()`, on which `query_mdns` stops early. -/
def StopsEarly (c : MdnsCollector) : Prop := c.instances ≠ ∅ ∧ c.missing lower = []

end MdnsCollector

end Ddmp
