import Ddmp.Lib.BigEndian
import Ddmp.Lib.Dict
import Ddmp.Python.Value

/-!
# DNS messages

Names on the wire, the items of a TXT record, the query that is sent and the records of a
response. A name in text form is a list of characters, its labels joined with dots. Offsets into
a message are never negative, so a slice is what `drop` and `take` give.
-/

namespace Ddmp

open Lib BigEndian

/-- `data[start : start + length]`. -/
def slice (data : Bytes) (start length : ℕ) : Bytes := (data.drop start).take length

/-- `struct.unpack_from(">H", data, offset)`. -/
def unpackBE (data : Bytes) (offset : ℕ) : Except PyErr ℕ :=
  orRaise .structError (u16At data offset)

/-- `struct.pack(">H", n)`. -/
def packBE (n : ℕ) : Except PyErr Bytes := do
  raiseIf (65535 < n) .structError
  return u16Bytes n

/-! ## Names -/

/-- `name.strip(".")`. -/
def stripDots (name : List Char) : List Char := stripBy (· == '.') name

/-- A label behind its length; `bytes([n])` is a `ValueError` for `n > 255`. -/
def encodeLabel (label : List Char) : Except PyErr Bytes := do
  let raw := Utf8.encode label
  raiseIf (255 < raw.length) (.valueError [])
  return UInt8.ofNat raw.length :: raw

/-- `_encode_name`. -/
def encodeName (name : List Char) : Except PyErr Bytes := do
  let labels ← ((stripDots name).splitOn '.').mapM encodeLabel
  return labels.flatten ++ [0]

/-- The loop of `_read_name`; `stop` is its `end`. A pass raises, leaves the loop, follows a
pointer or goes forward. -/
def readName.loop (data : Bytes) (offset : ℕ) (labels : List (List Char)) (jumped : Bool)
    (stop hops : ℕ) : Except PyErr (List Char × ℕ) :=
  match _hoffset : data[offset]? with
  | none => .error (.valueError [.lit "truncated name"])
  | some length =>
    if length = 0 then .ok (['.'].intercalate labels, if jumped then stop else offset + 1)
    else if length.toNat &&& 0xC0 = 0xC0 then
      match u16At data offset with
      | none => .error .structError
      | some word =>
        if 64 < hops + 1 then .error (.valueError [.lit "name compression loop"])
        else loop data (word &&& 0x3FFF) labels true (if jumped then stop else offset + 2)
          (hops + 1)
    else
      let label := Utf8.decodeReplace (slice data (offset + 1) length.toNat)
      loop data (offset + 1 + length.toNat) (labels ++ [label]) jumped stop hops
-- with each pointer the number of pointers left goes down, without one the offset goes up
termination_by (65 - hops) * (data.length + 1) + (data.length - offset)
decreasing_by
  · have hsplit : (65 - hops) * (data.length + 1)
        = (65 - (hops + 1)) * (data.length + 1) + (data.length + 1) := by
      rw [← Nat.succ_mul]
      congr 1
      omega
    omega
  · have hlt := (List.getElem?_eq_some_iff.mp _hoffset).1
    omega

/-- `_read_name`: the name at an offset, and the offset behind it. -/
def readName (data : Bytes) (offset : ℕ) : Except PyErr (List Char × ℕ) :=
  readName.loop data offset [] false offset 0

/-! ## TXT records -/

/-- The items of a TXT record, each behind its length. -/
def txtItems (rdata : Bytes) : List (List Char) :=
  match rdata with
  | [] => []
  | length :: rest =>
    Utf8.decodeReplace (rest.take length.toNat) :: txtItems (rest.drop length.toNat)
termination_by rdata.length

/-- `key, _, value = item.partition("=")`, and `value.strip()`. -/
def txtEntry (item : List Char) : List Char × List Char :=
  (item.takeWhile (· ≠ '='), strStrip ((item.dropWhile (· ≠ '=')).drop 1))

/-- `_parse_txt`. -/
def parseTxt (rdata : Bytes) : Dict (List Char) (List Char) :=
  .ofList (((txtItems rdata).filter fun item => item ≠ []).map txtEntry)

/-! ## Queries -/

/-- `SERVICE_TYPE`. -/
def serviceType : List Char := "_ddmp._tcp.local".toList

/-- A question: a name and a record type. -/
abbrev Question := List Char × ℕ

def encodeQuestion (qclass : ℕ) (question : Question) : Except PyErr Bytes := do
  let name ← encodeName question.1
  let rtype ← packBE question.2
  let rclass ← packBE qclass
  return name ++ (rtype ++ rclass)

/-- `build_query`; without questions, one PTR question for the service. -/
def buildQuery (service : List Char) (unicastResponse : Bool) (questions : List Question) :
    Except PyErr Bytes := do
  let qclass := 1 ||| if unicastResponse then 0x8000 else 0
  let qs := if questions = [] then [(service, 12)] else questions
  let count ← packBE qs.length
  let body ← qs.mapM (encodeQuestion qclass)
  return ([0, 0, 0, 0] ++ count ++ [0, 0, 0, 0, 0, 0]) ++ body.flatten

/-! ## Responses -/

/-- A record as `parse_response` returns it: name, type, data and offset of the data. -/
structure Record where
  name : List Char
  rtype : ℕ
  rdata : Bytes
  offset : ℕ

/-- The questions are skipped: the offset behind them. -/
def skipQuestions (data : Bytes) : ℕ → ℕ → Except PyErr ℕ
  | 0, offset => .ok offset
  | n + 1, offset => do
    let (_, offset) ← readName data offset
    skipQuestions data n (offset + 4)

/-- One record, and the offset behind it. -/
def readRecord (data : Bytes) (offset : ℕ) : Except PyErr (Record × ℕ) := do
  let (name, offset) ← readName data offset
  -- `>HHIH`: type, class, time to live, length of the data
  let rtype ← unpackBE data offset
  let rdlen ← unpackBE data (offset + 8)
  let offset := offset + 10
  return (⟨name, rtype, slice data offset rdlen, offset⟩, offset + rdlen)

/-- The records read, and the exception that ended the loop early. -/
def readRecords (data : Bytes) : ℕ → ℕ → List Record × Option PyErr
  | 0, _ => ([], none)
  | n + 1, offset =>
    match readRecord data offset with
    | .error e => ([], some e)
    | .ok (record, offset) =>
      let (records, raised) := readRecords data n offset
      (record :: records, raised)

/-- What `except ValueError` catches of the exceptions raised here. -/
def PyErr.isValueError : PyErr → Bool
  | valueError _ => true
  | _ => false

/-- `except (ValueError, struct.error)`. -/
def PyErr.isMalformed : PyErr → Bool
  | valueError _ | structError => true
  | _ => false

/-- `parse_response`. -/
def parseResponse (data : Bytes) : Except PyErr (List Record) :=
  if data.length < 12 then .ok []
  else do
    let qd ← unpackBE data 4
    let an ← unpackBE data 6
    let ns ← unpackBE data 8
    let ar ← unpackBE data 10
    let (records, raised) :=
      match skipQuestions data qd 12 with
      | .error e => ([], some e)
      | .ok offset => readRecords data (an + ns + ar) offset
    match raised with
    | none => return records
    | some e => if e.isMalformed then return records else throw e

end Ddmp
