import Ddmp.Discovery.Collector
import Ddmp.Discovery.NamesTheorems

/-!
# Advertised services

What a service is, and what it means that a DNS message holds records of it: the format is
described here by relations between a byte string and what is written in it, without any of the
functions that read it.
-/

namespace Ddmp

open Lib BigEndian

/-! ## Names and messages -/

/-- A label of a domain name. -/
structure Label where
  text : List Char
  noDot : '.' ∉ text
  pos : 0 < (Utf8.encode text).length
  le : (Utf8.encode text).length ≤ 63

abbrev DomainName := List Label

namespace DomainName

/-- The text form. -/
def text (name : DomainName) : List Char := ['.'].intercalate (name.map Label.text)

/-- The labels on the wire. -/
def raws (name : DomainName) : List Bytes := name.map fun label => Utf8.encode label.text

/-- The name stands at the offset, plain or with at most 64 compression pointers, and ends before
`stop`. -/
def WrittenAt (data : Bytes) (offset : ℕ) (name : DomainName) (stop : ℕ) : Prop :=
  ∃ jumps ≤ 64, Spells data offset name.raws jumps stop

end DomainName

/-- A record of a message: its owner and type, and where its data is. -/
structure ResourceRecord where
  owner : DomainName
  rtype : ℕ
  offset : ℕ
  rdlen : ℕ

/-- The data of a record. -/
def ResourceRecord.rdata (data : Bytes) (r : ResourceRecord) : Bytes := slice data r.offset r.rdlen

/-- `n` questions between two offsets: a name, a type and a class each. -/
inductive Asked (data : Bytes) : ℕ → ℕ → ℕ → Prop
  | nil (offset : ℕ) : Asked data 0 offset offset
  | cons {n offset next stop : ℕ} {name : DomainName} (hname : name.WrittenAt data offset next)
      (hrest : Asked data n (next + 4) stop) : Asked data (n + 1) offset stop

/-- Records one after another: owner, type, class, time to live, length of the data, data. -/
inductive Listed (data : Bytes) : List ResourceRecord → ℕ → Prop
  | nil (offset : ℕ) : Listed data [] offset
  | cons {r : ResourceRecord} {rest : List ResourceRecord} {offset next : ℕ}
      (howner : r.owner.WrittenAt data offset next) (htype : u16At data next = some r.rtype)
      (hrdlen : u16At data (next + 8) = some r.rdlen) (hoffset : r.offset = next + 10)
      (hfits : r.offset + r.rdlen ≤ data.length)
      (hrest : Listed data rest (r.offset + r.rdlen)) : Listed data (r :: rest) offset

/-- A well-formed message: the four counts of its header, its questions and its records. -/
structure Message where
  data : Bytes
  questions : ℕ
  answers : ℕ
  authorities : ℕ
  additionals : ℕ
  body : ℕ
  records : List ResourceRecord
  hquestions : u16At data 4 = some questions
  hanswers : u16At data 6 = some answers
  hauthorities : u16At data 8 = some authorities
  hadditionals : u16At data 10 = some additionals
  asked : Asked data questions 12 body
  listed : Listed data records body
  counted : records.length = answers + authorities + additionals

/-! ## Services -/

/-- A key of a TXT record with its value. -/
structure TxtItem where
  key : List Char
  value : List Char
  key_ne : key ≠ []
  noEquals : '=' ∉ key
  stripped : strStrip value = value
  le : (Utf8.encode (key ++ '=' :: value)).length ≤ 255

/-- A service as it is advertised. The name of the instance is a first label before the name of
the service. -/
structure ServiceDescription where
  first : Label
  service : DomainName
  host : DomainName
  port : ℕ
  port_lt : port < 65536
  txt : List TxtItem
  keys_nodup : (txt.map TxtItem.key).Nodup
  addresses : List Bytes
  addresses_ne : addresses ≠ []
  addresses_length : ∀ a ∈ addresses, a.length = 4

namespace ServiceDescription

variable (d : ServiceDescription)

def instanceName : DomainName := d.first :: d.service

/-- The TXT map. -/
def txtMap : Dict (List Char) (List Char) := .ofList (d.txt.map fun item => (item.key, item.value))

/-- The data of a TXT record: strings behind their lengths, the empty ones anywhere between the
items. -/
def WritesTxt (rdata : Bytes) : Prop :=
  ∃ strings : List (List Char), (∀ s ∈ strings, (Utf8.encode s).length ≤ 255)
    ∧ rdata = strings.flatMap (fun s => labelBytes (Utf8.encode s))
    ∧ (strings.filter (· ≠ [])).Perm (d.txt.map fun item => item.key ++ '=' :: item.value)

/-- What has to be said about a service. -/
inductive Item
  | ptr
  | srv
  | txt
  | address (a : Bytes)

/-- The items of this service. -/
def Has : Item → Prop
  | .address a => a ∈ d.addresses
  | _ => True

/-- A record of a message says something about the service. -/
def Writes (data : Bytes) (r : ResourceRecord) : Item → Prop
  | .ptr => r.owner = d.service ∧ r.rtype = 12
      ∧ d.instanceName.WrittenAt data r.offset (r.offset + r.rdlen)
  | .srv => r.owner = d.instanceName ∧ r.rtype = 33 ∧ 6 ≤ r.rdlen
      ∧ u16At data (r.offset + 4) = some d.port
      ∧ d.host.WrittenAt data (r.offset + 6) (r.offset + r.rdlen)
  | .txt => r.owner = d.instanceName ∧ r.rtype = 16 ∧ d.WritesTxt (r.rdata data)
  | .address a => r.owner = d.host ∧ r.rtype = 1 ∧ r.rdata data = a ∧ a ∈ d.addresses

/-- A record of another type, or about other names, also when the case of letters is ignored. -/
structure Ignores (lower : List Char → List Char) (data : Bytes) (r : ResourceRecord) : Prop where
  ptr : r.rtype = 12 → lower r.owner.text ≠ lower d.service.text
    ∨ ∃ target stop, DomainName.WrittenAt data r.offset target stop
      ∧ lower target.text ≠ lower d.instanceName.text ∧ lower target.text ≠ lower d.host.text
  srv : r.rtype = 33 → lower r.owner.text ≠ lower d.instanceName.text
    ∧ ∃ target stop, DomainName.WrittenAt data (r.offset + 6) target stop
      ∧ lower target.text ≠ lower d.instanceName.text
  txt : r.rtype = 16 → lower r.owner.text ≠ lower d.instanceName.text
  address : r.rtype = 1 → lower r.owner.text ≠ lower d.host.text

/-- An entry of `services` that is right about the service. -/
structure Describes (entry : MdnsService) : Prop where
  instanceName : entry.instanceName = d.instanceName.text
  hostname : entry.hostname = d.host.text
  port : entry.port = d.port
  txt : ∀ key, entry.txt.get? key = d.txtMap.get? key
  nodup : entry.addresses.Nodup
  addresses : ∀ address, address ∈ entry.addresses ↔ address ∈ d.addresses.map inetNtoa

end ServiceDescription

end Ddmp
