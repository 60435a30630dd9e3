import Ddmp.Discovery.NamesTheorems

/-!
# The layout of a DNS message

Where the names, the headers and the data of the records stand in a byte string, whether or not
all of it is there. Nothing here refers to `parse_response`, which is compared with these
relations in `LayoutTheorems`.
-/

namespace Ddmp

open Lib BigEndian

/-- A name at an offset, up to its zero byte or its first pointer: the offset behind it. -/
inductive NameEnds (data : Bytes) : ℕ → ℕ → Prop
  | root {offset : ℕ} (hzero : data[offset]? = some 0) : NameEnds data offset (offset + 1)
  | pointer {offset word : ℕ} (hword : u16At data offset = some word) (hpointer : 0xC000 ≤ word) :
      NameEnds data offset (offset + 2)
  | label {offset stop : ℕ} {length : UInt8} (hlength : data[offset]? = some length)
      (hpos : length ≠ 0) (hplain : length.toNat < 0xC0)
      (hrest : NameEnds data (offset + 1 + length.toNat) stop) : NameEnds data offset stop

/-- The labels of the name at an offset, which is plain or has at most 64 pointers, and the offset
behind it. -/
def NameAt (data : Bytes) (offset : ℕ) (raws : List Bytes) (stop : ℕ) : Prop :=
  ∃ jumps ≤ 64, Spells data offset raws jumps stop

/-- A label that stands in a message behind its length, with all its bytes. -/
def LabelInside (data raw : Bytes) : Prop :=
  ∃ start, data[start]? = some (UInt8.ofNat raw.length) ∧ slice data (start + 1) raw.length = raw
    ∧ start + 1 + raw.length ≤ data.length

/-- The text of a name: its labels, decoded and joined with dots. -/
def textOf (raws : List Bytes) : List Char := ['.'].intercalate (raws.map Utf8.decodeReplace)

/-- `n` questions between two offsets. -/
inductive QuestionsAt (data : Bytes) : ℕ → ℕ → ℕ → Prop
  | nil (offset : ℕ) : QuestionsAt data 0 offset offset
  | cons {n offset next stop : ℕ} {raws : List Bytes} (hname : NameAt data offset raws next)
      (hrest : QuestionsAt data n (next + 4) stop) : QuestionsAt data (n + 1) offset stop

/-- A record by its header: the labels of its owner, its type, the offset of its data and their
announced length. -/
structure Entry where
  owner : List Bytes
  rtype : ℕ
  offset : ℕ
  rdlen : ℕ

/-- The record as `parse_response` returns it. -/
def Entry.toRecord (data : Bytes) (e : Entry) : Record :=
  ⟨textOf e.owner, e.rtype, slice data e.offset e.rdlen, e.offset⟩

/-- Records one after another from an offset: owner, type, class, time to live, length of the
data, data. The data of the last one may be cut off. -/
inductive EntriesAt (data : Bytes) : List Entry → ℕ → Prop
  | nil (offset : ℕ) : EntriesAt data [] offset
  | cons {e : Entry} {rest : List Entry} {offset next : ℕ}
      (howner : NameAt data offset e.owner next)
      (htype : u16At data next = some e.rtype) (hrdlen : u16At data (next + 8) = some e.rdlen)
      (hoffset : e.offset = next + 10) (hrest : EntriesAt data rest (e.offset + e.rdlen)) :
      EntriesAt data (e :: rest) offset

/-- A message begins with a header that announces `count` records and with its questions; the
records start at `body`. -/
def Opens (data : Bytes) (count body : ℕ) : Prop :=
  ∃ qd an ns ar, u16At data 4 = some qd ∧ u16At data 6 = some an ∧ u16At data 8 = some ns
    ∧ u16At data 10 = some ar ∧ count = an + ns + ar ∧ QuestionsAt data qd 12 body

/-- Records that stand at the beginning of the record sections, not more than announced. -/
def Layout (data : Bytes) (entries : List Entry) : Prop :=
  ∃ count body, Opens data count body ∧ EntriesAt data entries body ∧ entries.length ≤ count

/-- One of the records announces more data than the message has. -/
def Overruns (data : Bytes) : Prop :=
  ∃ entries, Layout data entries ∧ ∃ e ∈ entries, data.length < e.offset + e.rdlen

/-! ## Well-formed responses -/

/-- Labels of 1 to 63 bytes of UTF-8. -/
def ValidName (raws : List Bytes) : Prop :=
  ∀ raw ∈ raws, 0 < raw.length ∧ raw.length ≤ 63 ∧ ∃ text, raw = Utf8.encode text

/-- All announced records are there, with valid names: as owners, as the data of a PTR record and
behind the six bytes of priority, weight and port of an SRV record. -/
structure WellFormed (data : Bytes) (entries : List Entry) : Prop where
  layout : ∃ body, Opens data entries.length body ∧ EntriesAt data entries body
  fits : ∀ e ∈ entries, e.offset + e.rdlen ≤ data.length
  owner : ∀ e ∈ entries, ValidName e.owner
  ptr : ∀ e ∈ entries, e.rtype = 12 → ∃ raws, ValidName raws
    ∧ NameAt data e.offset raws (e.offset + e.rdlen)
  srv : ∀ e ∈ entries, e.rtype = 33 → ∃ raws, ValidName raws
    ∧ NameAt data (e.offset + 6) raws (e.offset + e.rdlen)

/-- A record names an instance of a service, or the host of an SRV record. -/
def Entry.Names (lower : List Char → List Char) (service : List Char) (data : Bytes) (e : Entry)
    (raws : List Bytes) : Prop :=
  e.rtype = 12 ∧ lower (textOf e.owner) = service ∧ NameAt data e.offset raws (e.offset + e.rdlen)
    ∨ e.rtype = 33 ∧ NameAt data (e.offset + 6) raws (e.offset + e.rdlen)

end Ddmp
