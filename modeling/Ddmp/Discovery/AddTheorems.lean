import Ddmp.Discovery.LearnTheorems

/-!
# Datagrams that break a browse

`parse_response` never raises, but `add` reads names of its own, and catches only `ValueError`
there. `collect_ok_iff` gives the datagrams with which a browse goes on.
-/

namespace Ddmp

open Lib BigEndian Fallible

/-! ## `parse_response` -/

/-- A computation that raises nothing but `ValueError` and `struct.error`. -/
abbrev RaisesMalformed {α : Type} (x : Except PyErr α) : Prop :=
  Raises (fun e => e.isMalformed = true) x

theorem raises_unpackBE (data : Bytes) (offset : ℕ) : RaisesMalformed (unpackBE data offset) := by
  unfold unpackBE
  cases u16At data offset with
  | none => exact raises_error rfl
  | some n => exact raises_ok n

theorem raises_skipQuestions (data : Bytes) (n offset : ℕ) :
    RaisesMalformed (skipQuestions data n offset) := by
  induction n generalizing offset with
  | zero => exact raises_ok offset
  | succ n ih => exact (raises_readName data offset).bind fun _ _ => ih _

theorem raises_readRecord (data : Bytes) (offset : ℕ) :
    RaisesMalformed (readRecord data offset) := by
  refine (raises_readName data offset).bind fun name _ => ?_
  refine (raises_unpackBE data name.2).bind fun rtype _ => ?_
  exact (raises_unpackBE data (name.2 + 8)).bind fun rdlen _ => raises_ok _

theorem isMalformed_of_readRecords {data : Bytes} {n offset : ℕ} {e : PyErr}
    (h : (readRecords data n offset).2 = some e) : e.isMalformed = true := by
  induction n generalizing offset with
  | zero => cases h
  | succ n ih =>
    rw [readRecords] at h
    cases hrecord : readRecord data offset with
    | error e' =>
      rw [hrecord] at h
      exact Option.some.inj h ▸ raises_readRecord data offset e' hrecord
    | ok next =>
      rw [hrecord] at h
      exact ih h

/-- The records of a message, up to the first malformed one. -/
def records (data : Bytes) : List Record :=
  match parseResponse data with
  | .ok records => records
  | .error _ => []

/-- No byte string makes `parse_response` raise. -/
theorem parseResponse_eq (data : Bytes) : parseResponse data = .ok (records data) := by
  suffices h : ∃ found, parseResponse data = .ok found by
    obtain ⟨found, h⟩ := h
    rw [records, h]
  unfold parseResponse
  split
  · exact ⟨[], rfl⟩
  · rename_i hlong
    -- the header is there
    have hheader (offset : ℕ) (h : offset + 1 < 12) : ∃ n, unpackBE data offset = .ok n := by
      obtain ⟨n, hword⟩ := exists_u16At (show offset + 1 < data.length by omega)
      exact ⟨n, by rw [unpackBE, hword, orRaise]⟩
    obtain ⟨qd, hqd⟩ := hheader 4 (by omega)
    obtain ⟨an, han⟩ := hheader 6 (by omega)
    obtain ⟨ns, hns⟩ := hheader 8 (by omega)
    obtain ⟨ar, har⟩ := hheader 10 (by omega)
    rw [hqd, han, hns, har]
    simp only [ok_bind]
    cases hskip : skipQuestions data qd 12 with
    | error e =>
      have he := raises_skipQuestions data qd 12 e hskip
      simp only [he, if_true]
      exact ⟨_, rfl⟩
    | ok offset =>
      dsimp only
      cases hraised : (readRecords data (an + ns + ar) offset).2 with
      | none => exact ⟨_, rfl⟩
      | some e =>
        have he := isMalformed_of_readRecords hraised
        simp only [he, if_true]
        exact ⟨_, rfl⟩

/-! ## `add` -/

/-- Where `add` reads a name for a record: in the data of a PTR record of the service, and behind
the first six bytes of an SRV record. -/
def Record.NamedAt (lower : List Char → List Char) (service : List Char) (record : Record)
    (offset : ℕ) : Prop :=
  record.rtype = 12 ∧ lower record.name = service ∧ offset = record.offset
    ∨ record.rtype = 33 ∧ 6 ≤ record.rdata.length ∧ offset = record.offset + 6

/-- A reader of at most 64 pointers gets to half a pointer at the end of the message. -/
def EndsInPointer (data : Bytes) (offset : ℕ) : Prop :=
  ∃ jumps ≤ 64, ∃ last, Walks data offset jumps last ∧ LonePointer data last

/-- A datagram without a record whose name ends in half a pointer. -/
def WholeNames (lower : List Char → List Char) (service : List Char) (data : Bytes) : Prop :=
  ∀ record ∈ records data, ∀ offset, record.NamedAt lower service offset →
    ¬ EndsInPointer data offset

/-- Of the two exceptions of a reader, only `struct.error` gets past `except ValueError`. -/
theorem unlessValueError_ok_iff {α : Type} {x : Except PyErr α} (hx : RaisesMalformed x) :
    (∃ o, unlessValueError x = .ok o) ↔ x ≠ .error .structError := by
  cases x with
  | ok a => exact iff_of_true ⟨some a, rfl⟩ (by simp)
  | error e =>
    have he := hx e rfl
    cases e with
    | valueError msg => exact iff_of_true ⟨none, rfl⟩ (by simp)
    | structError => exact iff_of_false (by simp [unlessValueError, PyErr.isValueError]) (by simp)
    | _ => cases he

/-- `add` gets past reading a name unless the name ends in half a pointer. -/
theorem readName_caught_iff {data : Bytes} {offset : ℕ} :
    (∃ o, unlessValueError (readName data offset) = .ok o) ↔ ¬ EndsInPointer data offset := by
  rw [unlessValueError_ok_iff (raises_readName data offset), Ne, readName_eq_structError_iff]
  rfl

namespace MdnsCollector

variable {lower : List Char → List Char} {service : List Char} {data : Bytes} {c c' : MdnsCollector}
variable {record : Record}

theorem learn_ok_iff : (∃ c', c.learn lower data record = .ok c')
    ↔ ∀ offset, record.NamedAt lower c.service offset → ¬ EndsInPointer data offset := by
  unfold learn
  dsimp only
  split
  · rename_i hptr
    have hnamed (offset : ℕ) : record.NamedAt lower c.service offset ↔ offset = record.offset := by
      simp [Record.NamedAt, hptr]
    rw [bind_ok_iff (by rintro (_ | ⟨inst, _⟩) <;> exact ⟨_, rfl⟩), readName_caught_iff]
    simp only [hnamed, forall_eq]
  · rename_i hptr
    split
    · rename_i hsrv
      have hnamed (offset : ℕ) :
          record.NamedAt lower c.service offset ↔ offset = record.offset + 6 := by
        simp [Record.NamedAt, hsrv]
      obtain ⟨port, hport⟩ := exists_u16At (show 4 + 1 < record.rdata.length from hsrv.2)
      rw [unpackBE, hport, orRaise, ok_bind,
        bind_ok_iff (by rintro (_ | ⟨target, _⟩) <;> exact ⟨_, rfl⟩), readName_caught_iff]
      simp only [hnamed, forall_eq]
    · rename_i hsrv
      -- no name is read for the other records
      have hnamed (offset : ℕ) : ¬ record.NamedAt lower c.service offset := by
        rintro (⟨htype, hname, -⟩ | ⟨htype, hlength, -⟩)
        · exact hptr ⟨htype, hname⟩
        · exact hsrv ⟨htype, hlength⟩
      refine iff_of_true ?_ fun offset h => absurd h (hnamed offset)
      split
      · exact ⟨_, rfl⟩
      · split <;> exact ⟨_, rfl⟩

theorem service_learn (h : c.learn lower data record = .ok c') : c'.service = c.service := by
  rcases note_of_learn h with rfl | ⟨fact, rfl⟩
  · rfl
  · exact service_note fact

theorem learnStep_ok_iff : (learnStep lower data c record).1 = .ok ()
    ↔ ∃ c', c.learn lower data record = .ok c' := by
  unfold learnStep
  split
  · rename_i c' h
    exact iff_of_true rfl ⟨c', h⟩
  · rename_i e h
    simp [h]

theorem service_learnStep : (learnStep lower data c record).2.service = c.service := by
  unfold learnStep
  split
  · rename_i h
    exact service_learn h
  · rfl

theorem add_eq (c : MdnsCollector) (data : Bytes) :
    c.add lower data = forEach (learnStep lower data) c (records data) := by
  rw [add, parseResponse_eq]

theorem add_ok_iff : (c.add lower data).1 = .ok () ↔ WholeNames lower c.service data := by
  rw [add_eq]
  refine forEach_ok_iff (I := fun c' => c'.service = c.service) (fun _ _ hs => ?_)
    (fun _ _ hs => ?_) rfl
  · exact service_learnStep.trans hs
  · rw [learnStep_ok_iff, learn_ok_iff, hs]

theorem service_add : (c.add lower data).2.service = c.service := by
  rw [add_eq]
  exact forEach_preserves (I := fun c' : MdnsCollector => c'.service = c.service)
    (fun _ _ _ hs => service_learnStep.trans hs) rfl

/-- A browse takes all its datagrams exactly if none of them has a PTR record of the service, or an
SRV record, whose name ends in half a pointer at the end of the datagram. -/
theorem collect_ok_iff (lower : List Char → List Char) (service : List Char)
    (datagrams : List Bytes) :
    (collect lower (fresh lower service) datagrams).1 = .ok ()
      ↔ ∀ data ∈ datagrams, WholeNames lower (lower (stripDots service)) data := by
  refine forEach_ok_iff (I := fun c : MdnsCollector => c.service = lower (stripDots service))
    (fun _ _ hs => ?_) (fun _ _ hs => ?_) rfl
  · exact service_add.trans hs
  · rw [add_ok_iff, hs]

/-- One PTR record of the service, whose data is the first byte of a pointer. -/
def halfPointer : Bytes :=
  [0, 0, 0x84, 0, 0, 0, 0, 1, 0, 0, 0, 0]
    ++ (5 :: bytesLit "_ddmp" ++ 4 :: bytesLit "_tcp" ++ 5 :: bytesLit "local" ++ [0])
    ++ [0, 12, 0, 1, 0, 0, 0, 120, 0, 1, 0xC0]

/-- The first datagram of a browse makes `add` raise. -/
theorem halfPointer_breaks_add :
    (add strLower (fresh strLower serviceType) halfPointer).1 = .error .structError := by
  have hraises : (match (add strLower (fresh strLower serviceType) halfPointer).1 with
      | .error .structError => true
      | _ => false) = true := by
    decide +kernel
  split at hraises
  · assumption
  · cases hraises

end MdnsCollector

end Ddmp
