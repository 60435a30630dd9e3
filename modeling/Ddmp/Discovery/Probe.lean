import Ddmp.Python.Value

/-!
# The DDMD probe

Four bytes sent to a cooler, or to all of them, are answered with a JSON datagram. `json.loads`
and `str.lower` are parameters: nothing here depends on how text is parsed or on how a character
is folded.
-/

namespace Ddmp

open Lib

/-! ## JSON -/

/-- What `json.loads` returns. The keys of an object are distinct, as in a `dict`. -/
inductive Json
  | null
  | bool (b : Bool)
  | int (n : ℤ)
  | float (x : PyFloat)
  | str (s : String)
  | arr (items : List Json)
  | obj (members : List (String × Json))

mutual

/-- The Python value. A `dict` has a truth and a `str`, and is no number. -/
def Json.toValue : Json → Value
  | .null => .none
  | .bool b => .bool b
  | .int n => .int n
  | .float x => .float x
  | .str s => .str s
  | .arr items => .list (Json.toValues items)
  | .obj members => .obj
    { truth := some !members.isEmpty
      float := none
      int := none
      text := some ("\x7b" ++ Json.reprMembers members ++ "\x7d") }

/-- Item by item. -/
def Json.toValues : List Json → List Value
  | [] => []
  | item :: rest => item.toValue :: Json.toValues rest

/-- `repr` of the members of a `dict`, separated by commas. -/
def Json.reprMembers : List (String × Json) → String
  | [] => ""
  | [(key, value)] => (Value.str key).repr ++ ": " ++ value.toValue.repr
  | (key, value) :: next :: rest =>
    (Value.str key).repr ++ ": " ++ value.toValue.repr ++ ", " ++ Json.reprMembers (next :: rest)

end

/-- The member under a key. -/
def Json.member? (members : List (String × Json)) (key : String) : Option Json :=
  (members.find? fun member => member.1 = key).map Prod.snd

/-- `obj.get(key, default)`. -/
def Json.getMember (members : List (String × Json)) (key : String) (default : Value) : Value :=
  ((Json.member? members key).map Json.toValue).getD default

/-! ## Replies -/

section

variable (lower : List Char → List Char)

/-- `normalize_id`. -/
def normalizeId (value : List Char) : List Char :=
  lower (strStrip ((value.filter (· ≠ ':')).filter (· ≠ '-')))

end

/-- `DdmdReply`. -/
structure DdmdReply where
  coolerId : List Char
  name : List Char
  sku : List Char
  version : ℤ
  pid : ℤ
  f : ℤ
  host : String
  port : ℕ
deriving DecidableEq

section

variable (lower : List Char → List Char) (loads : List Char → Option Json)

/-- `int(obj.get(key, 0) or 0)`. -/
def Json.number (members : List (String × Json)) (key : String) : Except PyErr ℤ := do
  (← (Json.getMember members key (.int 0)).orElse (.int 0)).toInt

/-- `DdmdReply.parse`; `none` of `loads` is `ValueError`. -/
def DdmdReply.parse (payload : Bytes) (host : String) (port : ℕ) :
    Except PyErr (Option DdmdReply) :=
  match loads (Utf8.decodeReplace payload) with
  | some (.obj members) =>
    if (Json.member? members "id").isNone then .ok none
    else do
      let id ← (Json.getMember members "id" (.str "")).text
      let name ← (Json.getMember members "name" (.str "")).text
      let sku ← (Json.getMember members "sku" (.str "")).text
      let version ← Json.number members "version"
      let pid ← Json.number members "pid"
      let f ← Json.number members "f"
      return some
        { coolerId := normalizeId lower id.toList
          name := name.toList
          sku := strStrip sku.toList
          version, pid, f, host, port }
  | _ => .ok none

/-- What `recvfrom` does in one pass of the loop. -/
inductive Received
  | datagram (data : Bytes) (host : String) (port : ℕ)
  | timeout
  | osError

/-- `DDMD_PROBE`. -/
def ddmdProbe : Bytes := bytesLit "DDMD"

/-- The loop of `probe_ddmd`, with what `recvfrom` does in the passes before the deadline. -/
def probeLoop (firstOnly : Bool) : List DdmdReply → List Received → Except PyErr (List DdmdReply)
  | replies, [] => .ok replies
  | replies, .timeout :: rest => probeLoop firstOnly replies rest
  | replies, .osError :: _ => .ok replies
  | replies, .datagram data host port :: rest =>
    if data = ddmdProbe then probeLoop firstOnly replies rest
    else do
      match ← DdmdReply.parse lower loads data host port with
      | none => probeLoop firstOnly replies rest
      | some reply =>
        if reply ∈ replies then probeLoop firstOnly replies rest
        else if firstOnly then return replies ++ [reply]
        else probeLoop firstOnly (replies ++ [reply]) rest

/-- `probe_ddmd`, once the probe has been sent. -/
def probeDdmd (firstOnly : Bool) (passes : List Received) : Except PyErr (List DdmdReply) :=
  probeLoop lower loads firstOnly [] passes

end

end Ddmp
