import Ddmp.Lib.Dict
import Ddmp.Protocol.Codecs

/-!
# The topic table

One row for each addressable parameter, the two look-up dictionaries, the write allow-list
and the resolution of what a caller may name a topic by.
-/

namespace Ddmp

open Lib

/-- One addressable parameter. Its description and unit are read by nothing modelled here. -/
structure Topic where
  name : String
  address : Address
  codec : Codec
  writable : Bool := false
  perCompartment : Bool := false
deriving DecidableEq, Repr

/-- Class 0x1A, mobile cooling controller. -/
def mccc (param : ℤ) : Address := ⟨param, 0, 0, 0x1A⟩

/-- Class 0x1C, product info. -/
def prod (param : ℤ) : Address := ⟨param, 0, 0, 0x1C⟩

/-- `TOPICS`. -/
def topics : List Topic := [
  { name := "gw_fwver", address := ⟨0x02, 0, 0, 0⟩, codec := .str },
  { name := "gw_mac", address := ⟨0x11, 0, 0, 0⟩, codec := .mac6 },
  { name := "cfg_fwid", address := ⟨0x07, 0, 1, 0⟩, codec := .str },
  { name := "product_name", address := prod 0x01, codec := .str },
  { name := "cms_sku", address := prod 0x03, codec := .str },
  { name := "ptype", address := mccc 0x01, codec := .enum .productType },
  { name := "nocpt", address := mccc 0x02, codec := .int32 },
  { name := "cpow", address := mccc 0x03, codec := .boolArray, writable := true,
    perCompartment := true },
  { name := "ctemp", address := mccc 0x04, codec := .milliArray, perCompartment := true },
  { name := "csettemp", address := mccc 0x05, codec := .milliArray, writable := true,
    perCompartment := true },
  { name := "acpt", address := mccc 0x06, codec := .int32 },
  { name := "cdoor", address := mccc 0x07, codec := .boolArray, perCompartment := true },
  { name := "ctemprng", address := mccc 0x08, codec := .milliPairArray, perCompartment := true },
  { name := "crecdrng", address := mccc 0x09, codec := .milliPairArray, perCompartment := true },
  { name := "ctempofs", address := mccc 0x0A, codec := .milliArray, perCompartment := true },
  { name := "coolerpow", address := mccc 0x0B, codec := .bool, writable := true },
  { name := "v", address := mccc 0x0C, codec := .milli },
  { name := "batprotlvl", address := mccc 0x0D, codec := .enum .batteryProtection,
    writable := true },
  { name := "comppow", address := mccc 0x0E, codec := .bool },
  { name := "i", address := mccc 0x0F, codec := .milli },
  { name := "powsrc", address := mccc 0x10, codec := .enum .powerSource },
  { name := "icepow", address := mccc 0x11, codec := .bool, writable := true },
  { name := "errst", address := mccc 0x12, codec := .u16Array },
  { name := "sn", address := mccc 0x13, codec := .str },
  { name := "sku", address := mccc 0x14, codec := .str },
  { name := "fwver", address := mccc 0x15, codec := .str }]

/-- `TOPIC_BY_NAME`. -/
def topicByName : Dict String Topic := Dict.ofList (topics.map fun t => (t.name, t))

/-- `TOPIC_BY_ADDRESS`. -/
def topicByAddress : Dict Address Topic := Dict.ofList (topics.map fun t => (t.address, t))

/-- The names of `SUBSCRIBE_TOPICS`. -/
def subscribeNames : List String :=
  ["gw_fwver", "gw_mac", "cfg_fwid", "sku", "sn", "product_name", "cms_sku", "ptype", "nocpt",
    "cpow", "ctemp", "csettemp", "acpt", "cdoor", "ctemprng", "coolerpow", "icepow", "v",
    "batprotlvl", "comppow", "i", "powsrc", "errst"]

/-- `SUBSCRIBE_TOPICS`. -/
def subscribeTopics : List Topic := subscribeNames.filterMap topicByName.get?

/-- `WRITABLE`, the write allow-list. -/
def writableNames : List String := (topics.filter Topic.writable).map Topic.name

/-- The addresses of `NEVER_WRITE`. -/
def neverWrite : List Address :=
  [⟨0x14, 0, 0, 0⟩, ⟨0x03, 0, 0, 0⟩, ⟨0x06, 0, 0, 0⟩, ⟨0x01, 0, 1, 2⟩, ⟨0x01, 0, 2, 2⟩,
    ⟨0x01, 0, 3, 2⟩, mccc 0x01, mccc 0x02, mccc 0x08, mccc 0x09, mccc 0x0A, mccc 0x13, mccc 0x14,
    mccc 0x15]

/-- What a caller may name a topic by. -/
inductive TopicRef
  | name (s : String)
  | address (a : Address)
  | topic (t : Topic)

/-- `topic`. A `DecodeError` of `Address.parse` is not among the exceptions it catches. -/
def topic : TopicRef → Except PyErr Topic
  | .topic t => .ok t
  | .address a =>
    orRaise (.keyError [.lit "unknown topic address ", .val (.str a.str)]) (topicByAddress.get? a)
  | .name s =>
    match topicByName.get? s with
    | some t => .ok t
    | none =>
      let unknown := PyErr.keyError [.lit "unknown topic ", .val (.str s)]
      match Address.parse s with
      | .ok a => orRaise unknown (topicByAddress.get? a)
      | .error (.valueError _) => .error unknown
      | .error (.keyError _) => .error unknown
      | .error e => .error e

/-- `assert_writable`. -/
def assertWritable (ref : TopicRef) : Except PyErr Topic := do
  let t ← topic ref
  if t.name ∈ writableNames then return t
  else .error (.notWritable
    [.val (.str t.name), .lit " (", .val (.str t.address.str), .lit ") is not writable"])

/-- `publish_frame`. -/
def publishFrame (ref : TopicRef) (value : Value) : Except PyErr Frame := do
  let t ← topic ref
  let payload ← t.codec.encode value
  return { action := Action.PUBLISH.value, address := t.address, payload }

/-! ## The table is consistent -/

theorem nodup_names : (topics.map Topic.name).Nodup := by decide

theorem nodup_addresses : (topics.map Topic.address).Nodup := by decide

theorem topicByName_eq_some {s : String} {t : Topic} :
    topicByName.get? s = some t ↔ t ∈ topics ∧ t.name = s :=
  Dict.get?_ofList_key nodup_names

theorem topicByAddress_eq_some {a : Address} {t : Topic} :
    topicByAddress.get? a = some t ↔ t ∈ topics ∧ t.address = a :=
  Dict.get?_ofList_key nodup_addresses

/-- A topic of the table is found by its own address. -/
theorem topicByAddress_self {t : Topic} (ht : t ∈ topics) :
    topicByAddress.get? t.address = some t := topicByAddress_eq_some.mpr ⟨ht, rfl⟩

/-- In the table, the address determines the row. -/
theorem eq_of_address {t u : Topic} (ht : t ∈ topics) (hu : u ∈ topics)
    (h : t.address = u.address) : t = u := by
  have hfind := topicByAddress_self ht
  rw [h, topicByAddress_self hu] at hfind
  exact (Option.some_inj.mp hfind).symm

/-- In the table, the name determines the row. -/
theorem eq_of_name {t u : Topic} (ht : t ∈ topics) (hu : u ∈ topics) (h : t.name = u.name) :
    t = u := by
  have hfind : topicByName.get? t.name = some t := topicByName_eq_some.mpr ⟨ht, rfl⟩
  rw [h, topicByName_eq_some.mpr ⟨hu, rfl⟩] at hfind
  exact (Option.some_inj.mp hfind).symm

/-- A text is looked up as a name first, and then as an address. -/
theorem topic_name_eq_ok {s : String} {t : Topic} (h : topic (.name s) = .ok t) :
    topicByName.get? s = some t
      ∨ ∃ a, Address.parse s = .ok a ∧ topicByAddress.get? a = some t := by
  rw [topic] at h
  cases hs : topicByName.get? s with
  | some u =>
    rw [hs] at h
    exact .inl (congrArg some (Except.ok.inj h))
  | none =>
    rw [hs] at h
    cases ha : Address.parse s with
    | ok a =>
      rw [ha] at h
      exact .inr ⟨a, rfl, orRaise_eq_ok.mp h⟩
    | error e =>
      rw [ha] at h
      cases e <;> exact nomatch h

/-- A name or an address resolves to a row of the table. -/
theorem mem_topics_of_topic {ref : TopicRef} {t : Topic} (h : topic ref = .ok t)
    (href : ∀ u, ref ≠ .topic u) : t ∈ topics := by
  cases ref with
  | topic u => exact absurd rfl (href u)
  | address a => exact (topicByAddress_eq_some.mp (orRaise_eq_ok.mp h)).1
  | name s =>
    rcases topic_name_eq_ok h with hname | ⟨a, -, haddress⟩
    · exact (topicByName_eq_some.mp hname).1
    · exact (topicByAddress_eq_some.mp haddress).1

end Ddmp
