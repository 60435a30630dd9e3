import Ddmp.Discovery.LayoutTheorems
import Ddmp.Lib.Pointwise

/-!
# Responses as they are written

A response without questions and without compression, from its records. `wellFormed_written` says
that it is well-formed.
-/

namespace Ddmp

open Lib BigEndian

/-- A record to be written: the labels of its owner, its type, its data. -/
structure Draft where
  owner : List Bytes
  rtype : ℕ
  rdata : Bytes

namespace Draft

/-- Owner, type, class 1, time to live 120, length of the data, data. -/
def bytes (r : Draft) : Bytes :=
  wire r.owner ++ (u16Bytes r.rtype
    ++ ([0, 1, 0, 0, 0, 120] ++ (u16Bytes r.rdata.length ++ r.rdata)))

/-- Valid names, where there have to be names, and numbers of 16 bits. -/
structure Valid (r : Draft) : Prop where
  owner : ValidName r.owner
  rtype : r.rtype < 65536
  length : r.rdata.length < 65536
  ptr : r.rtype = 12 → ∃ raws, ValidName raws ∧ r.rdata = wire raws
  srv : r.rtype = 33 →
    ∃ front raws, ValidName raws ∧ front.length = 6 ∧ r.rdata = front ++ wire raws

/-- The entry of a record that is written at an offset. -/
def entry (r : Draft) (offset : ℕ) : Entry :=
  ⟨r.owner, r.rtype, offset + (wire r.owner).length + 10, r.rdata.length⟩

end Draft

/-- The entries of records that are written from an offset on. -/
def entriesOf : ℕ → List Draft → List Entry
  | _, [] => []
  | offset, r :: rs =>
    r.entry offset :: entriesOf (offset + (wire r.owner).length + 10 + r.rdata.length) rs

/-- The response with these records, so many of them in each section. -/
def sections (answers authorities additionals : ℕ) (rs : List Draft) : Bytes :=
  [0, 0, 0x84, 0, 0, 0] ++ (u16Bytes answers ++ (u16Bytes authorities ++ (u16Bytes additionals
    ++ rs.flatMap Draft.bytes)))

/-- The response with these records as answers. -/
def written (rs : List Draft) : Bytes :=
  [0, 0, 0x84, 0, 0, 0] ++ (u16Bytes rs.length ++ ([0, 0, 0, 0] ++ rs.flatMap Draft.bytes))

/-! ## What has been written -/

/-- Labels that are written from texts are valid. -/
theorem validName_map_encode {texts : List (List Char)}
    (h : ∀ text ∈ texts, 0 < (Utf8.encode text).length ∧ (Utf8.encode text).length ≤ 63) :
    ValidName (texts.map Utf8.encode) := by
  rw [ValidName, List.forall_mem_map]
  exact fun text htext => ⟨(h text htext).1, (h text htext).2, text, rfl⟩

theorem ValidName.encode_decode {raws : List Bytes} (h : ValidName raws) {raw : Bytes}
    (hraw : raw ∈ raws) : Utf8.encode (Utf8.decodeReplace raw) = raw := by
  obtain ⟨-, -, text, rfl⟩ := h raw hraw
  rw [Utf8.decodeReplace_encode]

theorem ValidName.nameAt_of_drop {raws : List Bytes} (h : ValidName raws) {data rest : Bytes}
    {offset : ℕ} (hdata : data.drop offset = wire raws ++ rest) :
    NameAt data offset raws (offset + (wire raws).length) := by
  refine ⟨0, Nat.zero_le 64, spells_of_drop (fun raw hraw => ?_) hdata⟩
  obtain ⟨hpos, hle, -⟩ := h raw hraw
  omega

namespace Draft

variable {r : Draft} {data rest : Bytes} {offset : ℕ}

/-- The data of a record that is written. -/
theorem drop_rdata (h : data.drop offset = r.bytes ++ rest) :
    data.drop (r.entry offset).offset = r.rdata ++ rest := by
  rw [bytes, List.append_assoc, List.append_assoc, List.append_assoc, List.append_assoc] at h
  exact drop_of_drop (drop_of_drop (drop_of_drop (drop_of_drop h)))

theorem length_le (h : data.drop offset = r.bytes ++ rest) :
    (r.entry offset).offset + (r.entry offset).rdlen ≤ data.length := by
  have hbytes := congrArg List.length h
  simp only [bytes, List.length_drop, List.length_append, List.length_cons, List.length_nil,
    u16Bytes] at hbytes
  simp only [entry]
  omega

/-- A valid record stands where it is written. -/
theorem Valid.entriesAt (hr : r.Valid) (h : data.drop offset = r.bytes ++ rest)
    {entries : List Entry}
    (hrest : EntriesAt data entries ((r.entry offset).offset + (r.entry offset).rdlen)) :
    EntriesAt data (r.entry offset :: entries) offset := by
  rw [bytes, List.append_assoc, List.append_assoc, List.append_assoc, List.append_assoc] at h
  have htype := drop_of_drop h
  have hrdlen := drop_of_drop (drop_of_drop htype)
  exact .cons (hr.owner.nameAt_of_drop h) (u16At_of_drop hr.rtype htype)
    (u16At_of_drop hr.length hrdlen) rfl hrest

theorem Valid.ptr_nameAt (hr : r.Valid) (h : data.drop offset = r.bytes ++ rest)
    (htype : r.rtype = 12) : ∃ raws, ValidName raws
      ∧ NameAt data (r.entry offset).offset raws
        ((r.entry offset).offset + (r.entry offset).rdlen) := by
  obtain ⟨raws, hraws, hrdata⟩ := hr.ptr htype
  have hdrop := drop_rdata h
  rw [hrdata] at hdrop
  have hat := hraws.nameAt_of_drop hdrop
  rw [← hrdata] at hat
  exact ⟨raws, hraws, hat⟩

theorem Valid.srv_nameAt (hr : r.Valid) (h : data.drop offset = r.bytes ++ rest)
    (htype : r.rtype = 33) : ∃ raws, ValidName raws
      ∧ NameAt data ((r.entry offset).offset + 6) raws
        ((r.entry offset).offset + (r.entry offset).rdlen) := by
  obtain ⟨front, raws, hraws, hfront, hrdata⟩ := hr.srv htype
  have hdrop := drop_rdata h
  rw [hrdata, List.append_assoc] at hdrop
  have hat := hraws.nameAt_of_drop (drop_of_drop hdrop)
  have hlength : r.rdata.length = 6 + (wire raws).length := by
    rw [hrdata, List.length_append, hfront]
  rw [hfront, Nat.add_assoc, ← hlength] at hat
  exact ⟨raws, hraws, hat⟩

end Draft

/-! ## Responses -/

theorem entriesAt_of_drop {data : Bytes} {rs : List Draft} (hrs : ∀ r ∈ rs, r.Valid) {offset : ℕ}
    (h : data.drop offset = rs.flatMap Draft.bytes) :
    EntriesAt data (entriesOf offset rs) offset := by
  induction rs generalizing offset with
  | nil => exact .nil offset
  | cons r rs ih =>
    rw [List.forall_mem_cons] at hrs
    rw [List.flatMap_cons] at h
    exact hrs.1.entriesAt h (ih hrs.2 (drop_of_drop (Draft.drop_rdata h)))

/-- An entry is that of the record which is written there. -/
def Draft.WrittenAs (data : Bytes) (r : Draft) (e : Entry) : Prop :=
  ∃ start rest, data.drop start = r.bytes ++ rest ∧ e = r.entry start

namespace Draft.WrittenAs

variable {r : Draft} {data : Bytes} {e : Entry}

theorem owner_eq (h : r.WrittenAs data e) : e.owner = r.owner := by
  obtain ⟨start, rest, -, rfl⟩ := h
  rfl

theorem rtype_eq (h : r.WrittenAs data e) : e.rtype = r.rtype := by
  obtain ⟨start, rest, -, rfl⟩ := h
  rfl

theorem rdlen_eq (h : r.WrittenAs data e) : e.rdlen = r.rdata.length := by
  obtain ⟨start, rest, -, rfl⟩ := h
  rfl

theorem exists_drop (h : r.WrittenAs data e) : ∃ rest, data.drop e.offset = r.rdata ++ rest := by
  obtain ⟨start, rest, hdrop, rfl⟩ := h
  exact ⟨rest, drop_rdata hdrop⟩

theorem fits (h : r.WrittenAs data e) : e.offset + e.rdlen ≤ data.length := by
  obtain ⟨start, rest, hdrop, rfl⟩ := h
  exact length_le hdrop

end Draft.WrittenAs

/-- Every entry of the response is that of its record. -/
theorem forall₂_entriesOf {data : Bytes} {rs : List Draft} {offset : ℕ}
    (h : data.drop offset = rs.flatMap Draft.bytes) :
    List.Forall₂ (Draft.WrittenAs data) rs (entriesOf offset rs) := by
  induction rs generalizing offset with
  | nil => exact .nil
  | cons r rs ih =>
    rw [List.flatMap_cons] at h
    exact .cons ⟨offset, _, h, rfl⟩ (ih (drop_of_drop (Draft.drop_rdata h)))

theorem length_entriesOf (offset : ℕ) (rs : List Draft) :
    (entriesOf offset rs).length = rs.length := by
  induction rs generalizing offset with
  | nil => rfl
  | cons r rs ih => exact congrArg Nat.succ (ih _)

/-- A response that is written from valid records is well-formed. -/
theorem wellFormed_sections {rs : List Draft} (hrs : ∀ r ∈ rs, r.Valid)
    {answers authorities additionals : ℕ} (hcount : rs.length = answers + authorities + additionals)
    (hanswers : answers < 65536) (hauthorities : authorities < 65536)
    (hadditionals : additionals < 65536) :
    WellFormed (sections answers authorities additionals rs) (entriesOf 12 rs) := by
  have han : (sections answers authorities additionals rs).drop 6
      = u16Bytes answers ++ (u16Bytes authorities ++ (u16Bytes additionals
        ++ rs.flatMap Draft.bytes)) := rfl
  have hns : (sections answers authorities additionals rs).drop 8
      = u16Bytes authorities ++ (u16Bytes additionals ++ rs.flatMap Draft.bytes) := rfl
  have har : (sections answers authorities additionals rs).drop 10
      = u16Bytes additionals ++ rs.flatMap Draft.bytes := rfl
  have hbody : (sections answers authorities additionals rs).drop 12 = rs.flatMap Draft.bytes :=
    rfl
  have hopens :
      Opens (sections answers authorities additionals rs) (entriesOf 12 rs).length 12 := by
    rw [length_entriesOf]
    exact ⟨0, answers, authorities, additionals, rfl, u16At_of_drop hanswers han,
      u16At_of_drop hauthorities hns, u16At_of_drop hadditionals har, hcount, .nil 12⟩
  have hwritten {e : Entry} (he : e ∈ entriesOf 12 rs) :
      ∃ r ∈ rs, r.WrittenAs (sections answers authorities additionals rs) e :=
    Pointwise.exists_of_mem (forall₂_entriesOf hbody) he
  refine ⟨⟨12, hopens, entriesAt_of_drop hrs hbody⟩, fun e he => ?_, fun e he => ?_,
    fun e he htype => ?_, fun e he htype => ?_⟩
  · obtain ⟨r, -, hr⟩ := hwritten he
    exact hr.fits
  · obtain ⟨r, hmem, hr⟩ := hwritten he
    rw [hr.owner_eq]
    exact (hrs r hmem).owner
  · obtain ⟨r, hr, start, rest, hdrop, rfl⟩ := hwritten he
    exact (hrs r hr).ptr_nameAt hdrop htype
  · obtain ⟨r, hr, start, rest, hdrop, rfl⟩ := hwritten he
    exact (hrs r hr).srv_nameAt hdrop htype

theorem wellFormed_written {rs : List Draft} (hrs : ∀ r ∈ rs, r.Valid)
    (hcount : rs.length < 65536) : WellFormed (written rs) (entriesOf 12 rs) := by
  have hsections : written rs = sections rs.length 0 0 rs := rfl
  rw [hsections]
  exact wellFormed_sections hrs rfl hcount (by decide) (by decide)

end Ddmp
