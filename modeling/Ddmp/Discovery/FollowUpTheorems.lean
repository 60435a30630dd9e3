import Ddmp.Discovery.Collector
import Ddmp.Discovery.NamesTheorems

/-!
# The follow-up query

`missing` asks about names as they were received, and `_encode_name` writes whatever text it is
given. `followUp_of_labels` gives the names for which the query says what it should.
-/

namespace Ddmp

open Lib BigEndian Fallible

/-- The names of a question section, each read with `_read_name` and followed by four bytes; and
the offset behind the section. -/
def readQuestions (data : Bytes) : ℕ → ℕ → Except PyErr (List (List Char) × ℕ)
  | 0, offset => .ok ([], offset)
  | n + 1, offset => do
    let (name, offset) ← readName data offset
    let (names, offset) ← readQuestions data n (offset + 4)
    return (name :: names, offset)

/-! ## What is written -/

/-- The class field of a question. -/
def classOf (unicastResponse : Bool) : ℕ := 1 ||| if unicastResponse then 0x8000 else 0

/-- A question on the wire. -/
def questionBytes (qclass : ℕ) (question : Question) : Bytes :=
  wire ((labelsOf question.1).map Utf8.encode) ++ (u16Bytes question.2 ++ u16Bytes qclass)

/-- A name that is short enough to be written, and a type of 16 bits. -/
def Question.Fits (question : Question) : Prop :=
  (∀ label ∈ labelsOf question.1, (Utf8.encode label).length ≤ 255) ∧ question.2 ≤ 65535

theorem packBE_eq_ok_iff {n : ℕ} {bytes : Bytes} :
    packBE n = .ok bytes ↔ n ≤ 65535 ∧ bytes = u16Bytes n := by
  simp only [packBE, bind_eq_ok, raiseIf_eq_ok, pure_eq_ok, not_lt]
  constructor
  · rintro ⟨-, hle, rfl⟩
    exact ⟨hle, rfl⟩
  · rintro ⟨hle, rfl⟩
    exact ⟨(), hle, rfl⟩

theorem classOf_le (unicastResponse : Bool) : classOf unicastResponse ≤ 65535 := by
  cases unicastResponse <;> decide

theorem encodeQuestion_eq_ok_iff {unicastResponse : Bool} {question : Question} {bytes : Bytes} :
    encodeQuestion (classOf unicastResponse) question = .ok bytes
      ↔ question.Fits ∧ bytes = questionBytes (classOf unicastResponse) question := by
  simp only [encodeQuestion, bind_eq_ok, pure_eq_ok, packBE_eq_ok_iff, encodeName_eq_ok_iff]
  constructor
  · rintro ⟨_, ⟨hlabels, rfl⟩, _, ⟨htype, rfl⟩, _, ⟨-, rfl⟩, rfl⟩
    exact ⟨⟨hlabels, htype⟩, rfl⟩
  · rintro ⟨⟨hlabels, htype⟩, rfl⟩
    exact ⟨_, ⟨hlabels, rfl⟩, _, ⟨htype, rfl⟩, _, ⟨classOf_le _, rfl⟩, rfl⟩

/-- The query for a list of questions. -/
def queryBytes (unicastResponse : Bool) (questions : List Question) : Bytes :=
  ([0, 0, 0, 0] ++ u16Bytes questions.length ++ [0, 0, 0, 0, 0, 0])
    ++ (questions.map (questionBytes (classOf unicastResponse))).flatten

theorem buildQuery_eq_ok_iff {service : List Char} {unicastResponse : Bool}
    {questions : List Question} (hne : questions ≠ []) {bytes : Bytes} :
    buildQuery service unicastResponse questions = .ok bytes
      ↔ questions.length ≤ 65535 ∧ (∀ question ∈ questions, question.Fits)
        ∧ bytes = queryBytes unicastResponse questions := by
  have hclass : (1 ||| if unicastResponse then 0x8000 else 0) = classOf unicastResponse := rfl
  simp only [buildQuery, if_neg hne, bind_eq_ok, pure_eq_ok, packBE_eq_ok_iff, hclass,
    mapM_eq_ok_iff fun _ _ => encodeQuestion_eq_ok_iff]
  constructor
  · rintro ⟨_, ⟨hlength, rfl⟩, _, ⟨hfits, rfl⟩, rfl⟩
    exact ⟨hlength, hfits, rfl⟩
  · rintro ⟨hlength, hfits, rfl⟩
    exact ⟨_, ⟨hlength, rfl⟩, _, ⟨hfits, rfl⟩, rfl⟩

/-! ## What is read back -/

theorem readQuestions_of_drop {qclass : ℕ} {questions : List Question}
    (hlegible : ∀ question ∈ questions, Legible question.1) {data : Bytes} {offset : ℕ}
    (hdata : data.drop offset = (questions.map (questionBytes qclass)).flatten) :
    readQuestions data questions.length offset = .ok (questions.map Prod.fst,
      offset + (questions.map (questionBytes qclass)).flatten.length) := by
  induction questions generalizing offset with
  | nil => rfl
  | cons question questions ih =>
    rw [List.forall_mem_cons] at hlegible
    have hfour : (u16Bytes question.2 ++ u16Bytes qclass).length = 4 := rfl
    rw [List.map_cons, List.flatten_cons, questionBytes, List.append_assoc] at hdata
    have hname := hlegible.1.readName_of_drop hdata
    have hfields := drop_of_drop hdata
    have hnext := drop_of_drop hfields
    rw [hfour] at hnext
    rw [List.length_cons, readQuestions, hname, ok_bind]
    dsimp only
    rw [ih hlegible.2 hnext, ok_bind, List.map_cons, List.map_cons, List.flatten_cons,
      questionBytes, List.length_append, List.length_append, hfour]
    simp only [pure_eq_ok, Prod.mk.injEq, true_and]
    omega

/-! ## The questions of the collector -/

namespace MdnsCollector

variable {lower : List Char → List Char} {c : MdnsCollector}

/-- Only SRV, TXT and A records are asked for. -/
theorem type_of_mem_missing {question : Question} (h : question ∈ c.missing lower) :
    question.2 ∈ [33, 16, 1] := by
  rw [missing, List.mem_flatMap] at h
  obtain ⟨inst, -, h⟩ := h
  unfold questions at h
  split at h
  · simp only [List.mem_cons, List.not_mem_nil, or_false] at h
    rcases h with rfl | rfl <;> simp
  · rw [List.mem_append] at h
    rcases h with h | h
    · split at h
      · rw [List.mem_singleton.mp h]
        simp
      · cases h
    · split at h
      · rw [List.mem_singleton.mp h]
        simp
      · cases h

/-- In every state of the collector, a follow-up query of fewer than 65536 questions is built
exactly if no label of their names is longer than 255 bytes; and if the labels have 1 to 191
bytes, reading the names of its question section back gives the names asked for, up to the end
of the query. -/
theorem followUp_of_labels (lower : List Char → List Char) (c : MdnsCollector)
    (hne : c.missing lower ≠ []) (hcount : (c.missing lower).length < 65536)
    (service : List Char) (unicastResponse : Bool) :
    ((∃ msg, buildQuery service unicastResponse (c.missing lower) = .ok msg)
        ↔ ∀ question ∈ c.missing lower, ∀ label ∈ labelsOf question.1,
          (Utf8.encode label).length ≤ 255)
      ∧ ((∀ question ∈ c.missing lower, Legible question.1) →
        ∃ msg, buildQuery service unicastResponse (c.missing lower) = .ok msg
          ∧ readQuestions msg (c.missing lower).length 12
            = .ok ((c.missing lower).map Prod.fst, msg.length)) := by
  have hfits (question : Question) (hmem : question ∈ c.missing lower) : question.Fits
      ↔ ∀ label ∈ labelsOf question.1, (Utf8.encode label).length ≤ 255 := by
    have htype := type_of_mem_missing hmem
    refine and_iff_left ?_
    simp only [List.mem_cons, List.not_mem_nil, or_false] at htype
    omega
  have hbuilt : (∃ msg, buildQuery service unicastResponse (c.missing lower) = .ok msg)
      ↔ ∀ question ∈ c.missing lower, ∀ label ∈ labelsOf question.1,
        (Utf8.encode label).length ≤ 255 := by
    simp only [buildQuery_eq_ok_iff hne]
    rw [← forall₂_congr hfits]
    exact ⟨fun ⟨_, _, hall, _⟩ => hall, fun hall => ⟨_, by omega, hall, rfl⟩⟩
  refine ⟨hbuilt, fun hlegible => ?_⟩
  have hshort : ∀ question ∈ c.missing lower, ∀ label ∈ labelsOf question.1,
      (Utf8.encode label).length ≤ 255 := by
    intro question hmem label hlabel
    rw [labelsOf, (hlegible question hmem).stripDots_eq] at hlabel
    have hlt := (hlegible question hmem label hlabel).2
    omega
  obtain ⟨msg, hmsg⟩ := hbuilt.mpr hshort
  refine ⟨msg, hmsg, ?_⟩
  obtain ⟨-, -, rfl⟩ := (buildQuery_eq_ok_iff hne).mp hmsg
  -- the header has 12 bytes, and the questions are the rest
  have hheader : ([0, 0, 0, 0] ++ u16Bytes (c.missing lower).length ++ [0, 0, 0, 0, 0, 0]).length
      = 12 := rfl
  have hdrop : (queryBytes unicastResponse (c.missing lower)).drop 12
      = ((c.missing lower).map (questionBytes (classOf unicastResponse))).flatten := by
    rw [queryBytes, ← hheader, List.drop_left]
  rw [readQuestions_of_drop hlegible hdrop, queryBytes, List.length_append, hheader]

/-- The answer of a cooler to a browse when it carries the PTR record only. -/
def ptrOnly (name : Bytes) : Bytes :=
  [0, 0, 0x84, 0, 0, 0, 0, 1, 0, 0, 0, 0]
    ++ wire [bytesLit "_ddmp", bytesLit "_tcp", bytesLit "local"]
    ++ [0, 12, 0, 1, 0, 0, 0, 120] ++ u16Bytes name.length ++ name

/-- The collector after one datagram. -/
def after (data : Bytes) : MdnsCollector := (collect strLower (fresh strLower serviceType) [data]).2

/-- An instance on the service itself. -/
theorem followUp_of_labels_ptrOnly :
    ∃ msg, buildQuery serviceType false
          ((after (ptrOnly (wire [bytesLit "CFX5"]))).missing strLower) = .ok msg
      ∧ readQuestions msg 2 12 = .ok (["CFX5".toList, "CFX5".toList], msg.length) := by
  have hmissing : (after (ptrOnly (wire [bytesLit "CFX5"]))).missing strLower
      = [("CFX5".toList, 33), ("CFX5".toList, 16)] := by decide +kernel
  have hread := (followUp_of_labels strLower (after (ptrOnly (wire [bytesLit "CFX5"])))
    (by rw [hmissing]; simp) (by rw [hmissing]; simp) serviceType false).2
  rw [hmissing] at hread ⊢
  exact hread (by decide +kernel)

/-- A label of 86 bytes that are not UTF-8 is read as 86 replacement characters, of three bytes
each. -/
theorem no_followUp_after_longLabel :
    (collect strLower (fresh strLower serviceType) [ptrOnly (wire [List.replicate 86 0xFF])]).1
        = .ok ()
      ∧ ((after (ptrOnly (wire [List.replicate 86 0xFF]))).missing strLower).length = 2
      ∧ ∀ msg, buildQuery serviceType false
          ((after (ptrOnly (wire [List.replicate 86 0xFF]))).missing strLower) ≠ .ok msg :=
  ⟨eq_ok_of_toOption (by decide +kernel), by decide +kernel, ne_ok_of_toOption (by decide +kernel)⟩

end MdnsCollector

end Ddmp
