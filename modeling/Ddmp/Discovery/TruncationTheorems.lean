import Ddmp.Discovery.BrowseTheorems
import Ddmp.Discovery.LayoutTheorems

/-!
# Records that are not complete

`parse_response` checks that a name and a header are there, but not that the data of a record is:
a slice is silently shorter. And `add` reads names in the whole datagram, whatever length the
record announces. `complete_iff` gives the messages for which neither matters.
-/

namespace Ddmp

open Lib BigEndian Fallible

variable {data : Bytes}

/-- The data of a record is all there. -/
def Record.Complete (data : Bytes) (record : Record) : Prop :=
  record.rdlen? data = some record.rdata.length

theorem Entry.complete_iff_fits {entries : List Entry} {e : Entry} (h : Layout data entries)
    (he : e ∈ entries) :
    (e.toRecord data).Complete data ↔ e.offset + e.rdlen ≤ data.length := by
  obtain ⟨hoffset, hrdlen⟩ := h.of_mem he
  have hlength : (e.toRecord data).rdata.length = min e.rdlen (data.length - e.offset) := by
    rw [← List.length_drop, ← List.length_take]
    rfl
  rw [Record.Complete, hrdlen, hlength, Option.some_inj]
  omega

/-- The parsed records are complete when no record announces more than there is. -/
theorem forall_complete_iff : (∀ r ∈ records data, r.Complete data) ↔ ¬ Overruns data := by
  constructor
  · rintro hcomplete ⟨entries, hlayout, e, he, hover⟩
    have hmem := hlayout.prefix_records.subset (List.mem_map_of_mem he)
    have hfits := (Entry.complete_iff_fits hlayout he).mp (hcomplete _ hmem)
    omega
  · intro hfits r hr
    obtain ⟨entries, hlayout, hrecords⟩ := exists_layout hr
    rw [hrecords] at hr
    obtain ⟨e, he, rfl⟩ := List.mem_map.mp hr
    refine (Entry.complete_iff_fits hlayout he).mpr ?_
    by_contra hover
    exact hfits ⟨entries, hlayout, e, he, by omega⟩

/-! ## The beginning of a message -/

variable {n : ℕ} {entries : List Entry} {e : Entry}

/-- A record that ends inside the beginning of a message is the same record there. -/
theorem Entry.toRecord_take (h : e.offset + e.rdlen ≤ n) :
    e.toRecord (data.take n) = e.toRecord data := by
  have hslice : slice (data.take n) e.offset e.rdlen = slice data e.offset e.rdlen := by
    rw [slice, slice, List.drop_take, List.take_take, min_eq_left (by omega)]
  rw [toRecord, toRecord, hslice]

/-- A record that does not is not: its data is shorter. -/
theorem Entry.toRecord_take_ne (hlt : n < data.length) (hoffset : e.offset ≤ n)
    (hover : n < e.offset + e.rdlen) : e.toRecord (data.take n) ≠ e.toRecord data := by
  intro heq
  have hlength : (slice (data.take n) e.offset e.rdlen).length
      = (slice data e.offset e.rdlen).length :=
    congrArg (fun r : Record => r.rdata.length) heq
  simp only [slice, List.length_take, List.length_drop] at hlength
  omega

/-- A beginning of a message gives a beginning of its records unless it cuts off the data of a
record. -/
theorem prefix_records_iff : records (data.take n) <+: records data
    ↔ (n < data.length → ¬ Overruns (data.take n)) := by
  constructor
  · rintro hprefix hlt ⟨entries, hlayout, e, he, hover⟩
    rw [List.length_take, min_eq_left hlt.le] at hover
    -- the record is in both lists at the same place, cut off in the first
    obtain ⟨i, hi, rfl⟩ := List.mem_iff_getElem.mp he
    have hcut := List.prefix_iff_getElem?.mp (hlayout.prefix_records.trans hprefix) i
      (by rwa [List.length_map])
    have hwhole := List.prefix_iff_getElem?.mp hlayout.of_take.prefix_records i
      (by rwa [List.length_map])
    rw [List.getElem_map] at hcut hwhole
    have hoffset := (hlayout.of_mem he).1
    rw [List.length_take, min_eq_left hlt.le] at hoffset
    exact Entry.toRecord_take_ne hlt hoffset hover
      (Option.some.inj (hcut.symm.trans hwhole))
  · intro hfits
    by_cases hlt : n < data.length
    · rcases (records (data.take n)).eq_nil_or_concat' with hnil | ⟨init, last, hlast⟩
      · rw [hnil]
        exact List.nil_prefix
      · obtain ⟨entries, hlayout, hrecords⟩ :=
          exists_layout (hlast ▸ List.mem_append_right init List.mem_cons_self)
        have hsame : entries.map (·.toRecord (data.take n)) = entries.map (·.toRecord data) := by
          refine List.map_congr_left fun e he => Entry.toRecord_take ?_
          by_contra hover
          refine hfits hlt ⟨entries, hlayout, e, he, ?_⟩
          rw [List.length_take, min_eq_left hlt.le]
          omega
        rw [hrecords, hsame]
        exact hlayout.of_take.prefix_records
    · rw [List.take_of_length_le (by omega)]

/-! ## Names that `add` reads -/

variable {lower : List Char → List Char} {service : List Char}

/-- `add` reads a name for a record, from an offset in its data up to `stop`. -/
def Record.ReadsName (lower : List Char → List Char) (service : List Char) (data : Bytes)
    (record : Record) (name : List Char) (stop : ℕ) : Prop :=
  ∃ offset, record.NamedAt lower service offset ∧ readName data offset = .ok (name, stop)

/-- The name in the data of a record is longer than the length that its header announces. -/
def Record.NameOverruns (lower : List Char → List Char) (service : List Char) (data : Bytes)
    (record : Record) : Prop :=
  ∃ offset raws stop rdlen, record.NamedAt lower service offset ∧ NameAt data offset raws stop
    ∧ record.rdlen? data = some rdlen ∧ record.offset + rdlen < stop

/-- The name that is read lies in the data of the record. -/
theorem name_inside_iff {record : Record} (hrecord : record ∈ records data) :
    (∀ name stop, record.ReadsName lower service data name stop →
      stop ≤ record.offset + record.rdata.length)
      ↔ ¬ record.NameOverruns lower service data := by
  obtain ⟨entries, hlayout, hrecords⟩ := exists_layout hrecord
  rw [hrecords] at hrecord
  obtain ⟨e, he, rfl⟩ := List.mem_map.mp hrecord
  obtain ⟨hoffset, hrdlen⟩ := hlayout.of_mem he
  -- a name never ends behind the message, so only the announced length counts
  have hinside (stop : ℕ) (hstop : stop ≤ data.length) :
      stop ≤ (e.toRecord data).offset + (e.toRecord data).rdata.length
        ↔ stop ≤ e.offset + e.rdlen := by
    simp only [Entry.toRecord, slice, List.length_take, List.length_drop]
    omega
  constructor
  · rintro hall ⟨offset, raws, stop, rdlen, hnamed, hat, hrdlen', hover⟩
    obtain rfl := Option.some.inj (hrdlen.symm.trans hrdlen')
    have hle := (hinside stop hat.stop_le).mp (hall _ _ ⟨offset, hnamed, hat.readName_eq⟩)
    exact absurd hover (Nat.not_lt.mpr hle)
  · rintro hnot name stop ⟨offset, hnamed, hread⟩
    obtain ⟨raws, hat, -⟩ := readName_eq_ok_iff.mp hread
    refine (hinside stop hat.stop_le).mpr ?_
    by_contra hover
    exact hnot ⟨offset, raws, stop, e.rdlen, hnamed, hat, hrdlen, Nat.lt_of_not_le hover⟩

namespace MdnsCollector

/-- The data of all records that `parse_response` returns is complete exactly if no record
announces more data than the message has; the records of a beginning of a message are a
beginning of its records unless the cut goes through the data of a record; and the names that
a browse learns lie in the data of their records unless a PTR record of the service or an SRV
record announces less data than its name has. -/
theorem complete_iff (lower : List Char → List Char) (service : List Char)
    (datagrams : List Bytes) (data : Bytes) :
    ((∀ r ∈ records data, r.Complete data) ↔ ¬ Overruns data)
      ∧ (∀ n, records (data.take n) <+: records data
        ↔ (n < data.length → ¬ Overruns (data.take n)))
      ∧ ((∀ p ∈ taken lower service datagrams, ∀ name stop,
          p.2.ReadsName lower (lower (stripDots service)) p.1 name stop →
            stop ≤ p.2.offset + p.2.rdata.length)
        ↔ ∀ p ∈ taken lower service datagrams,
          ¬ p.2.NameOverruns lower (lower (stripDots service)) p.1) := by
  refine ⟨forall_complete_iff, fun _ => prefix_records_iff, forall₂_congr fun p hp => ?_⟩
  exact name_inside_iff (mem_taken hp).2

/-- A TXT record of the root that announces five bytes and has two. -/
def cutTxt : Bytes :=
  [0, 0, 0x84, 0, 0, 0, 0, 1, 0, 0, 0, 0] ++ [0, 0, 16, 0, 1, 0, 0, 0, 120, 0, 5, 4, 97]

/-- A PTR record without data, before a record that begins with the name `a`. -/
def emptyPtr : Bytes :=
  [0, 0, 0x84, 0, 0, 0, 0, 2, 0, 0, 0, 0]
    ++ (5 :: bytesLit "_ddmp" ++ 4 :: bytesLit "_tcp" ++ 5 :: bytesLit "local" ++ [0])
    ++ [0, 12, 0, 1, 0, 0, 0, 120, 0, 0] ++ [1, 97, 0] ++ [0, 28, 0, 1, 0, 0, 0, 120, 0, 0]

/-- A record that is cut off is returned with what there is of its data, and so differently for
every beginning of the message; and a PTR record without data teaches the name behind it. -/
theorem incomplete_records :
    ¬ (∀ r ∈ records cutTxt, r.Complete cutTxt)
      ∧ ¬ records (cutTxt.take 24) <+: records cutTxt
      ∧ ¬ ∀ p ∈ taken strLower serviceType [emptyPtr], ∀ name stop,
        p.2.ReadsName strLower (strLower (stripDots serviceType)) p.1 name stop →
          stop ≤ p.2.offset + p.2.rdata.length := by
  refine ⟨fun hall => ?_, fun hprefix => ?_, fun hall => ?_⟩
  · have hcut : (records cutTxt).map (fun r => (r.rdlen? cutTxt, r.rdata))
        = [(some 5, [4, 97])] := by decide +kernel
    obtain ⟨r, hr, heq⟩ := List.mem_map.mp (hcut ▸ List.mem_cons_self)
    obtain ⟨hrdlen, hrdata⟩ := Prod.mk.inj heq
    have hcomplete := hall r hr
    rw [Record.Complete, hrdlen, hrdata] at hcomplete
    cases hcomplete
  · have hshorter := hprefix.map Record.rdata
    revert hshorter
    decide +kernel
  · have htaken : (taken strLower serviceType [emptyPtr]).map
          (fun p => (p.1, p.2.rtype, p.2.name, p.2.rdata, p.2.offset))
        = [(emptyPtr, 12, serviceType, [], 40), (emptyPtr, 28, "a".toList, [], 53)] := by
      decide +kernel
    obtain ⟨p, hp, heq⟩ := List.mem_map.mp (htaken ▸ List.mem_cons_self)
    simp only [Prod.mk.injEq] at heq
    obtain ⟨hdata, htype, hname, hrdata, hoffset⟩ := heq
    have hservice : strLower p.2.name = strLower (stripDots serviceType) := by
      rw [hname]
      decide
    have hread : readName p.1 p.2.offset = .ok ("a".toList, 43) := by
      rw [hdata, hoffset]
      exact eq_ok_of_toOption (by decide +kernel)
    have hle := hall p hp _ _ ⟨_, .inl ⟨htype, hservice, rfl⟩, hread⟩
    rw [hoffset, hrdata] at hle
    exact absurd hle (by decide)

end MdnsCollector

end Ddmp
