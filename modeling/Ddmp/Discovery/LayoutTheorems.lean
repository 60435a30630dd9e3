import Ddmp.Discovery.AddTheorems
import Ddmp.Discovery.Layout

/-!
# What is parsed of a message

`_read_name` returns the names that stand in a message, and `parse_response` the records, up to
the first that is not there. `parse_bounds` says where everything lies that they return.
-/

namespace Ddmp

open Lib BigEndian Fallible

variable {data : Bytes}

/-! ## Names -/

namespace Spells

variable {offset jumps stop : ℕ} {raws : List Bytes}

theorem lt_length (h : Spells data offset raws jumps stop) : offset < data.length := by
  cases h with
  | root hzero => exact (List.getElem?_eq_some_iff.mp hzero).1
  | label hlength => exact (List.getElem?_eq_some_iff.mp hlength).1
  | pointer hword =>
    have hlt := lt_length_of_u16At hword
    omega

theorem lt_stop (h : Spells data offset raws jumps stop) : offset < stop := by
  induction h with
  | root => omega
  | label _ _ _ _ ih => omega
  | pointer => omega

theorem stop_le (h : Spells data offset raws jumps stop) : stop ≤ data.length := by
  induction h with
  | root hzero => exact (List.getElem?_eq_some_iff.mp hzero).1
  | label _ _ _ _ ih => exact ih
  | pointer hword => exact lt_length_of_u16At hword

theorem nameEnds (h : Spells data offset raws jumps stop) : NameEnds data offset stop := by
  induction h with
  | root hzero => exact .root hzero
  | label hlength hpos hplain _ ih => exact .label hlength hpos hplain ih
  | pointer hword hpointer => exact .pointer hword hpointer

/-- A label that is followed by a name is not cut off. -/
theorem length_slice {length : ℕ} (h : Spells data (offset + 1 + length) raws jumps stop) :
    (slice data (offset + 1) length).length = length := by
  have hlt := h.lt_length
  rw [slice, List.length_take, List.length_drop]
  omega

theorem labelInside (h : Spells data offset raws jumps stop) :
    ∀ raw ∈ raws, LabelInside data raw := by
  induction h with
  | root => exact fun raw hraw => absurd hraw List.not_mem_nil
  | @label offset _ _ length _ hlength _ _ hrest ih =>
    have hslice := hrest.length_slice
    have hlt := hrest.lt_length
    refine List.forall_mem_cons.mpr ⟨⟨offset, ?_, ?_, ?_⟩, ih⟩
    · rw [hslice, hlength, UInt8.ofNat_toNat]
    · rw [hslice]
    · omega
  | pointer _ _ _ ih => exact ih

/-- What a beginning of a message spells, the message spells. -/
theorem of_take {n : ℕ} (h : Spells (data.take n) offset raws jumps stop) :
    Spells data offset raws jumps stop := by
  induction h with
  | root hzero => exact .root (getElem?_of_take hzero)
  | @label offset _ _ length _ hlength hpos hplain hrest ih =>
    have hlt := hrest.lt_length
    rw [List.length_take] at hlt
    have hslice : slice (data.take n) (offset + 1) length.toNat
        = slice data (offset + 1) length.toNat := by
      rw [slice, slice, List.drop_take, List.take_take, min_eq_left (by omega)]
    rw [hslice]
    exact .label (getElem?_of_take hlength) hpos hplain ih
  | pointer hword hpointer _ ih => exact .pointer (u16At_of_take hword) hpointer ih

end Spells

namespace readName

/-- What the loop returns stands in the message. -/
theorem spells_of_loop {offset stop hops stop' : ℕ} {labels : List (List Char)} {jumped : Bool}
    {name : List Char} (hhops : hops ≤ 64)
    (h : loop data offset labels jumped stop hops = .ok (name, stop')) :
    ∃ raws jumps last, hops + jumps ≤ 64 ∧ Spells data offset raws jumps last
      ∧ name = ['.'].intercalate (labels ++ raws.map Utf8.decodeReplace)
      ∧ stop' = if jumped then stop else last := by
  fun_induction loop data offset labels jumped stop hops with
  | case1 => cases h
  | case2 offset labels jumped stop hops hzero =>
    cases h
    refine ⟨[], 0, offset + 1, hhops, .root hzero, ?_, rfl⟩
    rw [List.map_nil, List.append_nil]
  | case3 => cases h
  | case4 => cases h
  | case5 offset labels jumped stop hops length hlength hpos hmask word hword hmore ih =>
    obtain ⟨raws, jumps, last, hle, hspells, hname, hstop⟩ := ih (by omega) h
    obtain ⟨high, low, hhigh, -, hvalue⟩ := u16At_eq_some_iff.mp hword
    cases hlength.symm.trans hhigh
    have hpointer := (and_C0_eq_iff length).mp hmask
    rw [and_3FFF] at hspells
    exact ⟨raws, jumps + 1, offset + 2, by omega, .pointer hword (by omega) hspells, hname, hstop⟩
  | case6 offset labels jumped stop hops length hlength hpos hmask _ ih =>
    obtain ⟨raws, jumps, last, hle, hspells, hname, hstop⟩ := ih hhops h
    rw [and_C0_eq_iff] at hmask
    refine ⟨_, jumps, last, hle, .label hlength hpos (by omega) hspells, ?_, hstop⟩
    rw [hname, List.map_cons, List.append_assoc, List.singleton_append]

end readName

/-- `_read_name` returns exactly the names that stand in the message. -/
theorem readName_eq_ok_iff {offset stop : ℕ} {name : List Char} :
    readName data offset = .ok (name, stop)
      ↔ ∃ raws, NameAt data offset raws stop ∧ name = textOf raws := by
  constructor
  · intro h
    obtain ⟨raws, jumps, last, hle, hspells, hname, rfl⟩ :=
      readName.spells_of_loop (Nat.zero_le 64) h
    exact ⟨raws, ⟨jumps, by omega, hspells⟩, hname⟩
  · rintro ⟨raws, ⟨jumps, hjumps, hspells⟩, rfl⟩
    exact readName_of_spells hspells hjumps

/-- At most one name stands at an offset. -/
theorem Spells.unique {data : Bytes} {offset jumps jumps' stop stop' : ℕ} {raws raws' : List Bytes}
    (h : Spells data offset raws jumps stop) (h' : Spells data offset raws' jumps' stop') :
    raws = raws' := by
  have hhigh {offset word : ℕ} {length : UInt8} (hlength : data[offset]? = some length)
      (hword : u16At data offset = some word) (hpointer : 0xC000 ≤ word) : 0xC0 ≤ length.toNat := by
    obtain ⟨high, low, hget, -, rfl⟩ := u16At_eq_some_iff.mp hword
    obtain rfl := Option.some.inj (hlength.symm.trans hget)
    have := low.toNat_lt
    omega
  induction h generalizing raws' jumps' stop' with
  | root hzero =>
    cases h' with
    | root => rfl
    | label hlength hpos => exact absurd (Option.some.inj (hlength.symm.trans hzero)) hpos
    | pointer hword hpointer => exact absurd (hhigh hzero hword hpointer) (by decide)
  | label hlength hpos hplain _ ih =>
    cases h' with
    | root hzero => exact absurd (Option.some.inj (hlength.symm.trans hzero)) hpos
    | label hlength' _ _ hrest' =>
      obtain rfl := Option.some.inj (hlength.symm.trans hlength')
      rw [ih hrest']
    | pointer hword hpointer =>
      have := hhigh hlength hword hpointer
      omega
  | pointer hword hpointer _ ih =>
    cases h' with
    | root hzero => exact absurd (hhigh hzero hword hpointer) (by decide)
    | label hlength _ hplain =>
      have := hhigh hlength hword hpointer
      omega
    | pointer hword' _ hrest' =>
      obtain rfl := Option.some.inj (hword.symm.trans hword')
      exact ih hrest'

namespace NameAt

variable {offset stop : ℕ} {raws : List Bytes}

theorem readName_eq (h : NameAt data offset raws stop) :
    readName data offset = .ok (textOf raws, stop) :=
  readName_eq_ok_iff.mpr ⟨raws, h, rfl⟩

theorem lt_stop (h : NameAt data offset raws stop) : offset < stop := by
  obtain ⟨_, -, hspells⟩ := h
  exact hspells.lt_stop

theorem stop_le (h : NameAt data offset raws stop) : stop ≤ data.length := by
  obtain ⟨_, -, hspells⟩ := h
  exact hspells.stop_le

theorem of_take {n : ℕ} (h : NameAt (data.take n) offset raws stop) :
    NameAt data offset raws stop := by
  obtain ⟨jumps, hjumps, hspells⟩ := h
  exact ⟨jumps, hjumps, hspells.of_take⟩

theorem unique {raws' : List Bytes} {stop' : ℕ} (h : NameAt data offset raws stop)
    (h' : NameAt data offset raws' stop') : raws = raws' := by
  obtain ⟨_, -, hspells⟩ := h
  obtain ⟨_, -, hspells'⟩ := h'
  exact hspells.unique hspells'

end NameAt

/-! ## Questions and records -/

theorem skipQuestions_eq_ok_iff {n offset stop : ℕ} :
    skipQuestions data n offset = .ok stop ↔ QuestionsAt data n offset stop := by
  constructor
  · intro h
    induction n generalizing offset with
    | zero =>
      cases h
      exact .nil _
    | succ n ih =>
      obtain ⟨⟨name, next⟩, hname, hrest⟩ := bind_eq_ok.mp h
      obtain ⟨raws, hat, -⟩ := readName_eq_ok_iff.mp hname
      exact .cons hat (ih hrest)
  · intro h
    induction h with
    | nil => rfl
    | cons hname _ ih =>
      rw [skipQuestions, hname.readName_eq, ok_bind]
      exact ih

theorem unpackBE_eq_ok_iff {offset word : ℕ} :
    unpackBE data offset = .ok word ↔ u16At data offset = some word := orRaise_eq_ok

/-- What `readRecord` returns is a record that stands there. -/
theorem readRecord_eq_ok_iff {offset stop : ℕ} {record : Record} :
    readRecord data offset = .ok (record, stop)
      ↔ ∃ e, EntriesAt data [e] offset ∧ record = e.toRecord data ∧ stop = e.offset + e.rdlen := by
  simp only [readRecord, bind_eq_ok, unpackBE_eq_ok_iff, pure_eq_ok, Prod.mk.injEq]
  constructor
  · rintro ⟨⟨name, next⟩, hname, rtype, htype, rdlen, hrdlen, rfl, rfl⟩
    obtain ⟨raws, hat, rfl⟩ := readName_eq_ok_iff.mp hname
    exact ⟨⟨raws, rtype, next + 10, rdlen⟩, .cons hat htype hrdlen rfl (.nil _), rfl, rfl⟩
  · rintro ⟨e, hat, rfl, rfl⟩
    obtain _ | ⟨howner, htype, hrdlen, hoffset, -⟩ := hat
    refine ⟨_, howner.readName_eq, _, htype, _, hrdlen, ?_, ?_⟩
    · rw [← hoffset]
      rfl
    · rw [← hoffset]

namespace EntriesAt

variable {offset : ℕ} {e : Entry} {entries : List Entry}

theorem head (h : EntriesAt data (e :: entries) offset) : EntriesAt data [e] offset := by
  obtain _ | ⟨howner, htype, hrdlen, hoffset, -⟩ := h
  exact .cons howner htype hrdlen hoffset (.nil _)

theorem tail (h : EntriesAt data (e :: entries) offset) :
    EntriesAt data entries (e.offset + e.rdlen) := by
  obtain _ | ⟨-, -, -, -, hrest⟩ := h
  exact hrest

theorem of_take {n : ℕ} (h : EntriesAt (data.take n) entries offset) :
    EntriesAt data entries offset := by
  induction h with
  | nil => exact .nil _
  | cons howner htype hrdlen hoffset _ ih =>
    exact .cons howner.of_take (u16At_of_take htype) (u16At_of_take hrdlen) hoffset ih

/-- The records that stand in a message are read. -/
theorem prefix_readRecords (h : EntriesAt data entries offset) {n : ℕ} (hn : entries.length ≤ n) :
    entries.map (·.toRecord data) <+: (readRecords data n offset).1 := by
  induction entries generalizing offset n with
  | nil => exact List.nil_prefix
  | cons e entries ih =>
    rw [List.length_cons] at hn
    obtain ⟨n, rfl⟩ : ∃ m, n = m + 1 := ⟨n - 1, by omega⟩
    have hrecord := readRecord_eq_ok_iff.mpr ⟨e, h.head, rfl, rfl⟩
    rw [readRecords, hrecord, List.map_cons]
    exact List.cons_prefix_cons.mpr ⟨rfl, ih h.tail (by omega)⟩

end EntriesAt

/-- What is read are records that stand in the message. -/
theorem exists_entriesAt (data : Bytes) (n offset : ℕ) :
    ∃ entries, EntriesAt data entries offset ∧ entries.length ≤ n
      ∧ (readRecords data n offset).1 = entries.map (·.toRecord data) := by
  induction n generalizing offset with
  | zero => exact ⟨[], .nil offset, Nat.le_refl 0, rfl⟩
  | succ n ih =>
    cases hrecord : readRecord data offset with
    | error e => exact ⟨[], .nil offset, Nat.zero_le _, by rw [readRecords, hrecord]; rfl⟩
    | ok next =>
      obtain ⟨record, stop⟩ := next
      obtain ⟨e, he, rfl, rfl⟩ := readRecord_eq_ok_iff.mp hrecord
      obtain ⟨entries, hentries, hlen, hread⟩ := ih (e.offset + e.rdlen)
      obtain _ | ⟨howner, htype, hrdlen, hoffset, -⟩ := he
      refine ⟨e :: entries, .cons howner htype hrdlen hoffset hentries, ?_, ?_⟩
      · rw [List.length_cons]
        omega
      · rw [readRecords, hrecord, List.map_cons, ← hread]

/-! ## Messages -/

theorem Opens.count_eq {count count' body body' : ℕ} (h : Opens data count body)
    (h' : Opens data count' body') : count = count' ∧ body = body' := by
  obtain ⟨qd, an, ns, ar, hqd, han, hns, har, rfl, hbody⟩ := h
  obtain ⟨qd', an', ns', ar', hqd', han', hns', har', rfl, hbody'⟩ := h'
  obtain rfl := Option.some.inj (hqd.symm.trans hqd')
  obtain rfl := Option.some.inj (han.symm.trans han')
  obtain rfl := Option.some.inj (hns.symm.trans hns')
  obtain rfl := Option.some.inj (har.symm.trans har')
  rw [← skipQuestions_eq_ok_iff] at hbody hbody'
  exact ⟨rfl, Except.ok.inj (hbody.symm.trans hbody')⟩

theorem Opens.of_take {n count body : ℕ} (h : Opens (data.take n) count body) :
    Opens data count body := by
  have hquestions {k offset stop : ℕ} (hk : QuestionsAt (data.take n) k offset stop) :
      QuestionsAt data k offset stop := by
    induction hk with
    | nil => exact .nil _
    | cons hname _ ih => exact .cons hname.of_take ih
  obtain ⟨qd, an, ns, ar, hqd, han, hns, har, rfl, hbody⟩ := h
  exact ⟨qd, an, ns, ar, u16At_of_take hqd, u16At_of_take han, u16At_of_take hns,
    u16At_of_take har, rfl, hquestions hbody⟩

/-- Without a header or its questions a message has no records; else they are read one after
another. -/
theorem records_eq (data : Bytes) :
    (∃ count body, Opens data count body ∧ records data = (readRecords data count body).1)
      ∨ records data = [] ∧ ∀ count body, ¬ Opens data count body := by
  have hparse := parseResponse_eq data
  by_cases hshort : data.length < 12
  · rw [parseResponse, if_pos hshort] at hparse
    refine .inr ⟨(Except.ok.inj hparse).symm, ?_⟩
    rintro count body ⟨qd, an, ns, ar, -, -, -, har, -⟩
    have hlt := lt_length_of_u16At har
    omega
  · obtain ⟨qd, hqd⟩ := exists_u16At (show 4 + 1 < data.length by omega)
    obtain ⟨an, han⟩ := exists_u16At (show 6 + 1 < data.length by omega)
    obtain ⟨ns, hns⟩ := exists_u16At (show 8 + 1 < data.length by omega)
    obtain ⟨ar, har⟩ := exists_u16At (show 10 + 1 < data.length by omega)
    rw [parseResponse, if_neg hshort, unpackBE_eq_ok_iff.mpr hqd, unpackBE_eq_ok_iff.mpr han,
      unpackBE_eq_ok_iff.mpr hns, unpackBE_eq_ok_iff.mpr har] at hparse
    simp only [ok_bind] at hparse
    cases hskip : skipQuestions data qd 12 with
    | error e =>
      rw [hskip] at hparse
      have he := raises_skipQuestions data qd 12 e hskip
      simp only [he, if_true, pure_eq_ok] at hparse
      refine .inr ⟨hparse.symm, ?_⟩
      rintro count body ⟨qd', an', ns', ar', hqd', -, -, -, -, hbody⟩
      obtain rfl := Option.some.inj (hqd.symm.trans hqd')
      rw [skipQuestions_eq_ok_iff.mpr hbody] at hskip
      cases hskip
    | ok body =>
      rw [hskip] at hparse
      dsimp only at hparse
      refine .inl ⟨an + ns + ar, body,
        ⟨qd, an, ns, ar, hqd, han, hns, har, rfl, skipQuestions_eq_ok_iff.mp hskip⟩, ?_⟩
      cases hraised : (readRecords data (an + ns + ar) body).2 with
      | none =>
        rw [hraised] at hparse
        exact (pure_eq_ok.mp hparse).symm
      | some e =>
        have he := isMalformed_of_readRecords hraised
        rw [hraised] at hparse
        simp only [he, if_true, pure_eq_ok] at hparse
        exact hparse.symm

/-- The records that stand in a message are parsed. -/
theorem Layout.prefix_records {entries : List Entry} (h : Layout data entries) :
    entries.map (·.toRecord data) <+: records data := by
  obtain ⟨count, body, hopens, hentries, hlen⟩ := h
  rcases records_eq data with ⟨count', body', hopens', hrecords⟩ | ⟨-, hnot⟩
  · obtain ⟨rfl, rfl⟩ := hopens.count_eq hopens'
    rw [hrecords]
    exact hentries.prefix_readRecords hlen
  · exact absurd hopens (hnot count body)

/-- What is parsed are records that stand in the message. -/
theorem exists_layout {record : Record} (h : record ∈ records data) :
    ∃ entries, Layout data entries ∧ records data = entries.map (·.toRecord data) := by
  rcases records_eq data with ⟨count, body, hopens, hrecords⟩ | ⟨hnil, -⟩
  · obtain ⟨entries, hentries, hlen, hread⟩ := exists_entriesAt data count body
    exact ⟨entries, ⟨count, body, hopens, hentries, hlen⟩, hrecords.trans hread⟩
  · rw [hnil] at h
    cases h

/-- All records of a well-formed response are parsed. -/
theorem WellFormed.records_eq {entries : List Entry} (h : WellFormed data entries) :
    records data = entries.map (·.toRecord data) := by
  obtain ⟨body, hopens, hentries⟩ := h.layout
  have hlayout : Layout data entries := ⟨_, body, hopens, hentries, Nat.le_refl _⟩
  refine (hlayout.prefix_records.eq_of_length_le ?_).symm
  rcases Ddmp.records_eq data with ⟨count, body', hopens', hrecords⟩ | ⟨-, hnot⟩
  · obtain ⟨rfl, rfl⟩ := hopens.count_eq hopens'
    obtain ⟨read, -, hlen, hread⟩ := exists_entriesAt data entries.length body
    rw [hrecords, hread, List.length_map, List.length_map]
    exact hlen
  · exact absurd hopens (hnot _ body)

theorem Layout.of_take {n : ℕ} {entries : List Entry} (h : Layout (data.take n) entries) :
    Layout data entries := by
  obtain ⟨count, body, hopens, hentries, hlen⟩ := h
  exact ⟨count, body, hopens.of_take, hentries.of_take, hlen⟩

/-! ## Where everything lies -/

/-- The length of the data that the header of a record announces: the two bytes before the
data. -/
def Record.rdlen? (data : Bytes) (record : Record) : Option ℕ := u16At data (record.offset - 2)

theorem QuestionsAt.le {n offset stop : ℕ} (h : QuestionsAt data n offset stop) :
    offset ≤ stop := by
  induction h with
  | nil => exact Nat.le_refl _
  | cons hname _ ih =>
    have hlt := hname.lt_stop
    omega

namespace EntriesAt

variable {offset : ℕ} {e e' : Entry} {entries : List Entry}

/-- A record is read from at least eleven bytes before its data. -/
theorem offset_bounds (h : EntriesAt data (e :: entries) offset) :
    offset + 11 ≤ e.offset ∧ e.offset ≤ data.length := by
  obtain _ | ⟨howner, -, hrdlen, hoffset, -⟩ := h
  have hname := howner.lt_stop
  have hlast := lt_length_of_u16At hrdlen
  omega

theorem rdlen?_eq (h : EntriesAt data (e :: entries) offset) :
    (e.toRecord data).rdlen? data = some e.rdlen := by
  obtain _ | ⟨-, -, hrdlen, hoffset, -⟩ := h
  have hbefore : (e.toRecord data).offset - 2 = e.offset - 2 := rfl
  rw [Record.rdlen?, hbefore, hoffset]
  exact hrdlen

theorem of_mem (h : EntriesAt data entries offset) (he : e ∈ entries) :
    ∃ start, EntriesAt data [e] start := by
  induction h with
  | nil => cases he
  | cons howner htype hrdlen hoffset _ ih =>
    rcases List.mem_cons.mp he with rfl | he
    · exact ⟨_, .cons howner htype hrdlen hoffset (.nil _)⟩
    · exact ih he

theorem lt_of_mem (h : EntriesAt data entries offset) (he : e ∈ entries) :
    e.rtype < 65536 ∧ e.rdlen < 65536 := by
  obtain ⟨start, hsingle⟩ := h.of_mem he
  obtain _ | ⟨-, htype, hrdlen, -, -⟩ := hsingle
  exact ⟨lt_of_u16At htype, lt_of_u16At hrdlen⟩

/-- From one record to the next: the data of the first and at least eleven bytes. -/
theorem isChain (h : EntriesAt data entries offset) :
    (entries.map (·.toRecord data)).IsChain fun r r' =>
      ∃ rdlen, r.rdlen? data = some rdlen ∧ r.offset + rdlen + 11 ≤ r'.offset := by
  induction entries generalizing offset with
  | nil => exact .nil
  | cons e entries ih =>
    cases entries with
    | nil => exact .singleton _
    | cons e' entries =>
      have hnext := h.tail.offset_bounds.1
      exact .cons_cons ⟨e.rdlen, h.rdlen?_eq, hnext⟩ (ih h.tail)

/-- Every record takes at least eleven bytes. -/
theorem length_le (h : EntriesAt data (e :: entries) offset) :
    offset + 11 * (e :: entries).length ≤ data.length := by
  induction entries generalizing offset e with
  | nil =>
    have hbounds := h.offset_bounds
    rw [List.length_singleton]
    omega
  | cons e' entries ih =>
    have hbounds := h.offset_bounds
    have hrest := ih h.tail
    rw [List.length_cons (a := e)]
    omega

end EntriesAt

theorem Layout.of_mem {entries : List Entry} {e : Entry} (h : Layout data entries)
    (he : e ∈ entries) : e.offset ≤ data.length
      ∧ (e.toRecord data).rdlen? data = some e.rdlen := by
  obtain ⟨count, body, -, hentries, -⟩ := h
  obtain ⟨start, hsingle⟩ := hentries.of_mem he
  exact ⟨hsingle.offset_bounds.2, hsingle.rdlen?_eq⟩

theorem Layout.length_le {entries : List Entry} (h : Layout data entries) :
    entries.length ≤ (data.length - 12) / 11 := by
  obtain ⟨count, body, ⟨qd, an, ns, ar, -, -, -, -, -, hquestions⟩, hentries, -⟩ := h
  have hbody := hquestions.le
  cases entries with
  | nil => exact Nat.zero_le _
  | cons e entries =>
    have hlen := hentries.length_le
    rw [Nat.le_div_iff_mul_le (by omega)]
    omega

/-- `_read_name` ends with a name or with `ValueError` or `struct.error`. A name is spelt with at
most 64 pointers and labels that are inside the message, and ends behind its first pointer or
its zero byte. `parse_response` always ends with a list of records, at least eleven bytes apart
from each other's data, whatever the counts of the header say. -/
theorem parse_bounds (data : Bytes) :
    (∀ offset, Raises (fun e => e.isMalformed = true) (readName data offset)
      ∧ ∀ name stop, readName data offset = .ok (name, stop) →
        ∃ raws jumps, Spells data offset raws jumps stop ∧ name = textOf raws ∧ jumps ≤ 64
          ∧ offset < stop ∧ stop ≤ data.length ∧ NameEnds data offset stop
          ∧ ∀ raw ∈ raws, LabelInside data raw)
      ∧ ∃ rs, parseResponse data = .ok rs
        ∧ rs.Pairwise (fun r r' => r.offset < r'.offset)
        ∧ rs.IsChain (fun r r' =>
          ∃ rdlen, r.rdlen? data = some rdlen ∧ r.offset + rdlen + 11 ≤ r'.offset)
        ∧ (∀ r ∈ rs, r.offset ≤ data.length)
        ∧ (data.length < 12 → rs = []) ∧ rs.length ≤ (data.length - 12) / 11 := by
  constructor
  · refine fun offset => ⟨raises_readName data offset, fun name stop h => ?_⟩
    obtain ⟨raws, ⟨jumps, hjumps, hspells⟩, hname⟩ := readName_eq_ok_iff.mp h
    exact ⟨raws, jumps, hspells, hname, hjumps, hspells.lt_stop, hspells.stop_le,
      hspells.nameEnds, hspells.labelInside⟩
  · refine ⟨records data, parseResponse_eq data, ?_⟩
    rcases (records data).eq_nil_or_concat' with hnil | ⟨init, last, hlast⟩
    · rw [hnil]
      exact ⟨.nil, .nil, fun _ hr => absurd hr List.not_mem_nil, fun _ => rfl, Nat.zero_le _⟩
    · have hmem : last ∈ records data := hlast ▸ List.mem_append_right init List.mem_cons_self
      obtain ⟨entries, hlayout, hrecords⟩ := exists_layout hmem
      have hlength := hlayout.length_le
      have hchain : (records data).IsChain fun r r' =>
          ∃ rdlen, r.rdlen? data = some rdlen ∧ r.offset + rdlen + 11 ≤ r'.offset := by
        obtain ⟨_, _, -, hentries, -⟩ := hlayout
        rw [hrecords]
        exact hentries.isChain
      have hincreasing : (records data).Pairwise fun r r' => r.offset < r'.offset :=
        List.isChain_iff_pairwise.mp (hchain.imp fun _ _ ⟨_, _, hle⟩ => by omega)
      refine ⟨hincreasing, hchain, fun r hr => ?_, fun hshort => ?_, ?_⟩
      · rw [hrecords, List.mem_map] at hr
        obtain ⟨e, he, rfl⟩ := hr
        exact (hlayout.of_mem he).1
      · rw [hrecords, List.map_eq_nil_iff, ← List.length_eq_zero_iff]
        omega
      · rw [hrecords, List.length_map]
        exact hlength

end Ddmp
