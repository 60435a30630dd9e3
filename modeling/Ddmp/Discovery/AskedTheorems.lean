import Ddmp.Discovery.FollowUpTheorems
import Ddmp.Discovery.LayoutTheorems
import Ddmp.Discovery.MissingTheorems
import Ddmp.Discovery.Written
import Ddmp.Lib.Pieces
import Mathlib.Data.List.Flatten

/-!
# Asking for the name that was received

A name is kept as text, its labels joined with dots, and split again when it is written. The labels
of an instance are free text and may have dots of their own: `asked_as_received_iff` says for
which names the question is the one about the name that was received.
-/

namespace Ddmp

open Lib BigEndian Fallible

/-! ## Names on the wire -/

/-- Names of labels of less than 256 bytes are told apart by what is written. -/
theorem wire_injective {raws raws' : List Bytes} (hraws : ∀ raw ∈ raws, raw.length < 256)
    (hraws' : ∀ raw ∈ raws', raw.length < 256) (h : wire raws = wire raws') : raws = raws' := by
  have hlength (raw : Bytes) (rest : List Bytes) :
      (wire (raw :: rest)).length = raw.length + 1 + (wire rest).length := by
    rw [wire_cons, List.length_append, labelBytes, List.length_cons]
  have hpos (rest : List Bytes) : 0 < (wire rest).length := by
    rw [wire, List.length_append]
    exact Nat.succ_pos _
  have hnil : (wire []).length = 1 := rfl
  induction raws generalizing raws' with
  | nil =>
    cases raws' with
    | nil => rfl
    | cons raw' raws' =>
      have hsame := congrArg List.length h
      rw [hlength, hnil] at hsame
      have := hpos raws'
      omega
  | cons raw raws ih =>
    cases raws' with
    | nil =>
      have hsame := congrArg List.length h
      rw [hlength, hnil] at hsame
      have := hpos raws
      omega
    | cons raw' raws' =>
      rw [List.forall_mem_cons] at hraws hraws'
      rw [wire_cons, wire_cons, labelBytes, labelBytes, List.cons_append, List.cons_append,
        List.cons.injEq] at h
      have hsame : raw.length = raw'.length := by
        have hvalue := congrArg UInt8.toNat h.1
        rwa [Utf8.toNat_ofNat hraws.1, Utf8.toNat_ofNat hraws'.1] at hvalue
      obtain ⟨rfl, hrest⟩ := List.append_inj h.2 hsame
      rw [ih hraws.2 hraws'.2 hrest]

/-! ## Labels through the text and back -/

theorem mem_splitOn_of_mem_labelsOf {name label : List Char} (h : label ∈ labelsOf name) :
    label ∈ name.splitOn '.' :=
  Pieces.mem_splitOn_of_dropWhile (Pieces.mem_splitOn_of_rdropWhile h)

namespace ValidName

variable {raws : List Bytes}

/-- The labels that are written are pieces of the labels received, so they are not too long. -/
theorem length_le (h : ValidName raws) {label : List Char}
    (hlabel : label ∈ labelsOf (textOf raws)) : (Utf8.encode label).length ≤ 63 := by
  have hpiece := mem_splitOn_of_mem_labelsOf hlabel
  rcases eq_or_ne raws [] with rfl | hne
  · rw [List.mem_singleton.mp hpiece]
    exact Nat.zero_le _
  · rw [textOf, Pieces.splitOn_intercalate_eq (by simpa using hne), List.mem_flatMap] at hpiece
    obtain ⟨text, htext, hpiece⟩ := hpiece
    obtain ⟨raw, hraw, rfl⟩ := List.mem_map.mp htext
    have hsub := (Pieces.of_mem_splitOn hpiece).2.flatMap String.utf8EncodeChar
    have hle := hsub.length_le
    have hencode := congrArg List.length (h.encode_decode hraw)
    have hraw63 := (h raw hraw).2.1
    rw [Utf8.encode] at hencode ⊢
    omega

/-- The labels that are written are those received, unless one of them has a dot or there are
none. -/
theorem labels_iff (h : ValidName raws) : (labelsOf (textOf raws)).map Utf8.encode = raws
    ↔ raws ≠ [] ∧ ∀ raw ∈ raws, '.' ∉ Utf8.decodeReplace raw := by
  constructor
  · intro hsame
    refine ⟨?_, fun raw hraw => ?_⟩
    · rintro rfl
      exact List.splitOn_ne_nil _ _ (List.map_eq_nil_iff.mp hsame)
    · rw [← hsame] at hraw
      obtain ⟨label, hlabel, rfl⟩ := List.mem_map.mp hraw
      rw [Utf8.decodeReplace_encode]
      exact (Pieces.of_mem_splitOn hlabel).1
  · rintro ⟨hne, hdots⟩
    have hsplit : (textOf raws).splitOn '.' = raws.map Utf8.decodeReplace := by
      refine List.splitOn_intercalate '.' ?_ (by simpa using hne)
      rw [List.forall_mem_map]
      exact hdots
    have hlegible : Legible (textOf raws) := by
      unfold Legible
      rw [hsplit, List.forall_mem_map]
      intro raw hraw
      have hvalid := h raw hraw
      rw [h.encode_decode hraw]
      omega
    rw [labelsOf, hlegible.stripDots_eq, hsplit, List.map_map]
    exact (List.map_congr_left fun raw hraw => h.encode_decode hraw).trans (List.map_id raws)

end ValidName

/-! ## Names that a browse asks for -/

/-- What a well-formed response names is a valid name. -/
theorem WellFormed.validName {data : Bytes} {entries : List Entry} (h : WellFormed data entries)
    {lower : List Char → List Char} {service : List Char} {e : Entry} (he : e ∈ entries)
    {raws : List Bytes} (hnames : e.Names lower service data raws) : ValidName raws := by
  rcases hnames with ⟨htype, -, _, -, hspells⟩ | ⟨htype, _, -, hspells⟩
  · obtain ⟨raws', hvalid, _, -, hspells'⟩ := h.ptr e he htype
    rwa [hspells.unique hspells']
  · obtain ⟨raws', hvalid, _, -, hspells'⟩ := h.srv e he htype
    rwa [hspells.unique hspells']

namespace MdnsCollector

variable {lower : List Char → List Char} {service : List Char}
variable {responses : List (Bytes × List Entry)}

/-- One of the responses names an instance or a host by these labels. -/
def Announced (lower : List Char → List Char) (service : List Char)
    (responses : List (Bytes × List Entry)) (raws : List Bytes) : Prop :=
  ∃ r ∈ responses, ∃ e ∈ r.2, e.Names lower (lower (stripDots service)) r.1 raws

/-- What is asked for is an instance or the host of an SRV record that was learned. -/
theorem fact_of_mem_missing {datagrams : List Bytes} {question : Question}
    (h : question ∈ (browsed lower service datagrams).missing lower) :
    .ptr question.1 ∈ facts lower service datagrams
      ∨ ∃ name port, .srv name port question.1 ∈ facts lower service datagrams := by
  obtain ⟨inst, hinst, hquestion⟩ := mem_missing_iff.mp h
  rcases mem_questions_iff.mp hquestion with ⟨rfl, -⟩ | ⟨rfl, -⟩ | ⟨s, hs, -, rfl⟩
  · exact .inl (ptr_mem_facts hinst)
  · exact .inl (ptr_mem_facts hinst)
  · obtain ⟨⟨port, target⟩, hlookup, rfl⟩ := Option.map_eq_some_iff.mp hs
    obtain ⟨key, -, hget⟩ := get?_of_lookup hlookup
    exact .inr ⟨key, port, srv_mem_facts hget⟩

/-- After well-formed responses every question is about a name that one of them announced. -/
theorem announced_of_mem_missing (hwf : ∀ r ∈ responses, WellFormed r.1 r.2) {question : Question}
    (h : question ∈ (browsed lower service (responses.map Prod.fst)).missing lower) :
    ∃ raws, Announced lower service responses raws ∧ question.1 = textOf raws := by
  -- a record that was taken is one of the entries of a response
  have hentry {p : Bytes × Record} (hp : p ∈ taken lower service (responses.map Prod.fst)) :
      ∃ r ∈ responses, ∃ e ∈ r.2, p = (r.1, e.toRecord r.1) := by
    obtain ⟨hdata, hrecord⟩ := mem_taken hp
    obtain ⟨r, hr, hdata⟩ := List.mem_map.mp hdata
    rw [← hdata, (hwf r hr).records_eq] at hrecord
    obtain ⟨e, he, hrecord⟩ := List.mem_map.mp hrecord
    exact ⟨r, hr, e, he, Prod.ext hdata.symm hrecord.symm⟩
  rcases fact_of_mem_missing h with hfact | ⟨name, port, hfact⟩
  · obtain ⟨p, hp, hfact⟩ := mem_facts_iff.mp hfact
    obtain ⟨r, hr, e, he, rfl⟩ := hentry hp
    rcases Record.fact?_cases hfact with ⟨inst, _, heq, htype, hname, hread⟩ | ⟨_, _, _, heq, -⟩
      | ⟨heq, -⟩ | ⟨heq, -⟩
    · cases heq
      obtain ⟨raws, -, hat⟩ := (hwf r hr).ptr e he htype
      have htext := hread.symm.trans hat.readName_eq
      refine ⟨raws, ⟨r, hr, e, he, .inl ⟨htype, hname, hat⟩⟩, ?_⟩
      exact congrArg Prod.fst (Except.ok.inj htext)
    · cases heq
    · cases heq
    · cases heq
  · obtain ⟨p, hp, hfact⟩ := mem_facts_iff.mp hfact
    obtain ⟨r, hr, e, he, rfl⟩ := hentry hp
    rcases Record.fact?_cases hfact with ⟨_, _, heq, -⟩ | ⟨_, target, _, heq, htype, -, -, hread⟩
      | ⟨heq, -⟩ | ⟨heq, -⟩
    · cases heq
    · cases heq
      obtain ⟨raws, -, hat⟩ := (hwf r hr).srv e he htype
      have htext := hread.symm.trans hat.readName_eq
      exact ⟨raws, ⟨r, hr, e, he, .inr ⟨htype, hat⟩⟩, congrArg Prod.fst (Except.ok.inj htext)⟩
    · cases heq
    · cases heq

/-! ## The questions on the wire -/

/-- The query is built, and what it has for the question is the name of these labels. -/
def AskedAs (unicastResponse : Bool) (service : List Char) (questions : List Question)
    (question : Question) (raws : List Bytes) : Prop :=
  buildQuery service unicastResponse questions = .ok (queryBytes unicastResponse questions)
    ∧ questionBytes (classOf unicastResponse) question
      = wire raws ++ (u16Bytes question.2 ++ u16Bytes (classOf unicastResponse))

theorem fits_of_mem_missing (hwf : ∀ r ∈ responses, WellFormed r.1 r.2) {question : Question}
    (h : question ∈ (browsed lower service (responses.map Prod.fst)).missing lower) :
    question.Fits := by
  obtain ⟨raws, ⟨r, hr, e, he, hnames⟩, hname⟩ := announced_of_mem_missing hwf h
  have htype := type_of_mem_missing h
  simp only [List.mem_cons, List.not_mem_nil, or_false] at htype
  refine ⟨fun label hlabel => ?_, by omega⟩
  rw [hname] at hlabel
  have hle := ((hwf r hr).validName he hnames).length_le hlabel
  omega

/-- The bytes of a question are those of the name that was received, unless a label has a dot or
there are none. -/
theorem questionBytes_eq_iff {raws : List Bytes} (hvalid : ValidName raws) {question : Question}
    (hname : question.1 = textOf raws) (qclass : ℕ) :
    questionBytes qclass question = wire raws ++ (u16Bytes question.2 ++ u16Bytes qclass)
      ↔ raws ≠ [] ∧ ∀ raw ∈ raws, '.' ∉ Utf8.decodeReplace raw := by
  rw [questionBytes, hname, List.append_left_inj, ← hvalid.labels_iff]
  refine ⟨wire_injective ?_ ?_, congrArg wire⟩
  · rw [List.forall_mem_map]
    intro label hlabel
    have hle := hvalid.length_le hlabel
    omega
  · intro raw hraw
    have hle := (hvalid raw hraw).2.1
    omega

/-- After well-formed responses a question about an announced name is asked by the labels that
were received exactly if the name has labels and none of them has a dot; the query must not
have more questions than its header can count. All questions are about announced names. -/
theorem asked_as_received_iff (lower : List Char → List Char) (service : List Char)
    (responses : List (Bytes × List Entry)) (hwf : ∀ r ∈ responses, WellFormed r.1 r.2)
    (unicastResponse : Bool) :
    (∀ question ∈ (browsed lower service (responses.map Prod.fst)).missing lower,
        ∃ raws, Announced lower service responses raws ∧ question.1 = textOf raws)
      ∧ ∀ question ∈ (browsed lower service (responses.map Prod.fst)).missing lower,
        ∀ raws, Announced lower service responses raws → question.1 = textOf raws →
          (AskedAs unicastResponse service
              ((browsed lower service (responses.map Prod.fst)).missing lower) question raws
            ↔ ((browsed lower service (responses.map Prod.fst)).missing lower).length ≤ 65535
              ∧ raws ≠ [] ∧ ∀ raw ∈ raws, '.' ∉ Utf8.decodeReplace raw) := by
  refine ⟨fun question h => announced_of_mem_missing hwf h, ?_⟩
  rintro question hquestion raws ⟨r, hr, e, he, hnames⟩ hname
  refine and_congr ?_ (questionBytes_eq_iff ((hwf r hr).validName he hnames) hname _)
  rw [buildQuery_eq_ok_iff (List.ne_nil_of_mem hquestion)]
  exact ⟨And.left, fun hcount => ⟨hcount, fun _ hmem => fits_of_mem_missing hwf hmem, rfl⟩⟩

/-- The answer of a cooler with the PTR record of an instance of one label, written plainly. -/
def browseAnswer (label : List Char) : Draft :=
  ⟨["_ddmp".toList, "_tcp".toList, "local".toList].map Utf8.encode, 12,
    wire [Utf8.encode label]⟩

def browseAnswers (label : List Char) : List (Bytes × List Entry) :=
  [(written [browseAnswer label], entriesOf 12 [browseAnswer label])]

theorem validName_singleton {label : List Char}
    (h : 0 < (Utf8.encode label).length ∧ (Utf8.encode label).length ≤ 63) :
    ValidName [Utf8.encode label] := by
  intro raw hraw
  rw [List.mem_singleton.mp hraw]
  exact ⟨h.1, h.2, label, rfl⟩

theorem wellFormed_browseAnswers {label : List Char}
    (h : 0 < (Utf8.encode label).length ∧ (Utf8.encode label).length ≤ 63) :
    ∀ r ∈ browseAnswers label, WellFormed r.1 r.2 := by
  have hvalid : (browseAnswer label).Valid :=
    { owner := validName_map_encode (by decide +kernel)
      rtype := show 12 < 65536 by decide
      length := by
        simp only [browseAnswer, wire, labelBytes, List.flatMap_singleton, List.length_append,
          List.length_cons, List.length_nil]
        omega
      ptr := fun _ => ⟨_, validName_singleton h, rfl⟩
      srv := fun htype => absurd htype (show 12 ≠ 33 by decide) }
  intro r hr
  rw [List.mem_singleton.mp hr]
  exact wellFormed_written (by simpa using hvalid) (by simp)

theorem announced_browseAnswers {label : List Char}
    (h : 0 < (Utf8.encode label).length ∧ (Utf8.encode label).length ≤ 63) :
    Announced strLower serviceType (browseAnswers label) [Utf8.encode label] := by
  have hdrop : (written [browseAnswer label]).drop 12 = (browseAnswer label).bytes ++ [] := by
    rfl
  have hat := (validName_singleton h).nameAt_of_drop (Draft.drop_rdata hdrop)
  refine ⟨_, List.mem_singleton_self _, _, List.mem_singleton_self _, .inl ⟨rfl, ?_, hat⟩⟩
  show strLower (textOf (["_ddmp".toList, "_tcp".toList, "local".toList].map Utf8.encode)) = _
  decide +kernel

/-- The instance `CFX5` is asked for by its own label. -/
theorem asked_as_received_cfx5 :
    AskedAs false serviceType
      ((browsed strLower serviceType
        ((browseAnswers "CFX5".toList).map Prod.fst)).missing strLower)
      ("CFX5".toList, 33) [Utf8.encode "CFX5".toList] := by
  have hmissing : (browsed strLower serviceType
        ((browseAnswers "CFX5".toList).map Prod.fst)).missing strLower
      = [("CFX5".toList, 33), ("CFX5".toList, 16)] := by decide +kernel
  refine ((asked_as_received_iff strLower serviceType (browseAnswers "CFX5".toList)
    (wellFormed_browseAnswers (by decide +kernel)) false).2 _ ?_ _
    (announced_browseAnswers (by decide +kernel)) (by decide +kernel)).mpr ?_
  · rw [hmissing]
    exact List.mem_cons_self
  · rw [hmissing]
    decide +kernel

/-- The instance `a.b` is of one label, and is asked for by the labels `a` and `b`. -/
theorem asked_for_another_name : ∃ question raws,
    (∀ r ∈ browseAnswers "a.b".toList, WellFormed r.1 r.2)
      ∧ Announced strLower serviceType (browseAnswers "a.b".toList) raws
      ∧ question ∈ (browsed strLower serviceType
        ((browseAnswers "a.b".toList).map Prod.fst)).missing strLower
      ∧ question.1 = textOf raws
      ∧ questionBytes (classOf false) question = wire (["a".toList, "b".toList].map Utf8.encode)
        ++ (u16Bytes question.2 ++ u16Bytes (classOf false))
      ∧ ¬ AskedAs false serviceType ((browsed strLower serviceType
        ((browseAnswers "a.b".toList).map Prod.fst)).missing strLower) question raws := by
  refine ⟨("a.b".toList, 33), [Utf8.encode "a.b".toList],
    wellFormed_browseAnswers (by decide +kernel), announced_browseAnswers (by decide +kernel), ?_,
    by decide +kernel, by decide +kernel, fun hasked => ?_⟩
  · have hmissing : (browsed strLower serviceType
          ((browseAnswers "a.b".toList).map Prod.fst)).missing strLower
        = [("a.b".toList, 33), ("a.b".toList, 16)] := by decide +kernel
    rw [hmissing]
    exact List.mem_cons_self
  · exact absurd hasked.2 (by decide +kernel)

end MdnsCollector

end Ddmp
