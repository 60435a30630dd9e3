import Ddmp.Discovery.RecasedResponses

/-!
# Services in whatever case

The tables of the collector are filled under names as they are received, but for addresses, and
looked up case after case. `caseFree_iff` says for which responses the case of the names does not
matter to what `services` lists.
-/

namespace Ddmp

open Lib AsciiCase

namespace MdnsCollector

variable {lower : List Char → List Char} {service : List Char}
variable {responses : List (Bytes × List Entry)}

theorem Outline.ofRow_injective (addresses : List Char → List String) :
    Function.Injective (Outline.ofRow addresses) := by
  rintro ⟨inst, ⟨port, host⟩, txt⟩ ⟨inst', ⟨port', host'⟩, txt'⟩ h
  obtain ⟨rfl, rfl, rfl, -, rfl⟩ := Outline.mk.inj h
  rfl

/-- Any spelling of the logs is received in some case of the names. -/
theorem CaseFree.spellingFree {hlower : ∀ name, lower (asciiLower name) = lower name}
    (hwf : ∀ r ∈ responses, WellFormed r.1 r.2) (hshort : ∀ r ∈ responses, ShortTargets r)
    (h : CaseFree lower service responses) :
    (spelling lower hlower).SpellingFree (announced (received lower service responses))
      (srvLog lower (received lower service responses))
      (txtLog (received lower service responses)) fun _ => none := by
  intro names srv txt hnames hsrv htxt
  obtain ⟨facts, hrespelt, rfl, rfl, rfl⟩ := exists_respelt hlower hnames hsrv htxt
  obtain ⟨responses', hrecased, rfl⟩ := exists_recased hwf hshort hrespelt
  have hrows := h responses' hrecased
  rw [outlines_eq hlower (wellFormed_of_recased hrecased), outlines_eq hlower hwf,
    addressesOf_eq_of_plain (received_recased hlower hwf hrecased)] at hrows
  exact Multiset.map_injective (Outline.ofRow_injective _) hrows

/-- The case of names does not matter to what `services` lists after well-formed responses if the
records of every instance agree; and only then, when names are short enough to be written out. -/
theorem caseFree_iff (lower : List Char → List Char)
    (hlower : ∀ name, lower (asciiLower name) = lower name) (service : List Char)
    (responses : List (Bytes × List Entry)) (hwf : ∀ r ∈ responses, WellFormed r.1 r.2) :
    (CaseSteady lower hlower service responses → CaseFree lower service responses)
      ∧ ((∀ r ∈ responses, ShortTargets r) →
        (CaseFree lower service responses ↔ CaseSteady lower hlower service responses)) :=
  ⟨fun h => h.caseFree hwf, fun hshort =>
    ⟨fun h => Spelling.rows_eq_iff.mp (h.spellingFree hwf hshort), fun h => h.caseFree hwf⟩⟩

/-! ## Two spellings of an instance -/

/-- `str.lower()` of a character does not depend on its ASCII case. -/
theorem lowerChar_toLower (c : Char) : lowerChar c.toLower = lowerChar c := by
  have hupper (c : Char) : 'A' ≤ c ∧ c ≤ 'Z' ↔ 65 ≤ c.toNat ∧ c.toNat ≤ 90 := Iff.rfl
  by_cases h : 65 ≤ c.toNat ∧ c.toNat ≤ 90
  · have hnat : c.toLower.toNat = c.toNat + 32 := by rw [toNat_toLower, if_pos h]
    have hlower : ¬ ('A' ≤ c.toLower ∧ c.toLower ≤ 'Z') := by
      rw [hupper]
      omega
    rw [lowerChar, if_neg hlower, if_neg (by omega), lowerChar, if_pos ((hupper c).mpr h), ← hnat,
      Char.ofNat_toNat]
  · have hsame : c.toLower = c := Char.toNat_inj.mp (by rw [toNat_toLower, if_neg h])
    rw [hsame]

theorem strLower_asciiLower (name : List Char) : strLower (asciiLower name) = strLower name := by
  rw [strLower, strLower, asciiLower, List.map_map]
  exact List.map_congr_left fun c _ => lowerChar_toLower c

/-- The PTR record of an instance of one label. -/
def ptrRecord (inst : List Char) : Parts :=
  ⟨["_ddmp".toList, "_tcp".toList, "local".toList].map Utf8.encode, 12, [],
    [inst].map Utf8.encode⟩

/-- Its SRV record, with port 13142. -/
def srvRecord (inst host : List Char) : Parts :=
  ⟨[inst].map Utf8.encode, 33, [0, 0, 0, 0, 0x33, 0x56], [host].map Utf8.encode⟩

theorem length_wire_singleton (text : List Char) :
    (wire ([text].map Utf8.encode)).length = (Utf8.encode text).length + 2 := by
  rw [List.map_singleton, wire_cons, List.length_append, labelBytes, List.length_cons]
  rfl

theorem valid_ptrRecord {inst : List Char}
    (h : 0 < (Utf8.encode inst).length ∧ (Utf8.encode inst).length ≤ 63) :
    (ptrRecord inst).Valid where
  owner := validName_map_encode (by decide +kernel)
  target := validName_map_encode (by simpa using h)
  rtype := show 12 < 65536 by decide
  front := show 0 < 65536 by decide
  ptr _ := rfl
  srv htype := absurd htype (show 12 ≠ 33 by decide)
  short _ := by
    rw [ptrRecord, length_wire_singleton]
    omega

theorem valid_srvRecord {inst host : List Char}
    (hinst : 0 < (Utf8.encode inst).length ∧ (Utf8.encode inst).length ≤ 63)
    (hhost : 0 < (Utf8.encode host).length ∧ (Utf8.encode host).length ≤ 63) :
    (srvRecord inst host).Valid where
  owner := validName_map_encode (by simpa using hinst)
  target := validName_map_encode (by simpa using hhost)
  rtype := show 33 < 65536 by decide
  front := show 6 < 65536 by decide
  ptr htype := absurd htype (show 33 ≠ 12 by decide)
  srv _ := rfl
  short _ := by
    rw [srvRecord, length_wire_singleton]
    omega

theorem textOf_singleton (text : List Char) : textOf ([text].map Utf8.encode) = text := by
  rw [textOf, List.map_singleton, List.map_singleton, Utf8.decodeReplace_encode]
  exact List.intercalate_singleton

theorem fact?_ptrRecord (inst : List Char) :
    (ptrRecord inst).fact? strLower (strLower (stripDots serviceType)) = some (.ptr inst) := by
  have hservice : strLower (textOf (["_ddmp".toList, "_tcp".toList, "local".toList].map
      Utf8.encode)) = strLower (stripDots serviceType) := by decide +kernel
  rw [Parts.fact?, ptrRecord, factOf, if_pos rfl, if_pos hservice, textOf_singleton]

theorem fact?_srvRecord (lower : List Char → List Char) (service inst host : List Char) :
    (srvRecord inst host).fact? lower service = some (.srv inst 13142 host) := by
  rw [Parts.fact?, srvRecord, factOf, if_neg (show ¬ 33 = 12 by decide), if_pos rfl,
    textOf_singleton, textOf_singleton]
  rfl

/-- The case of the names does not matter where every record comes once. -/
theorem caseFree_oneRecord : CaseFree strLower serviceType
    [responseOf 2 0 0 [ptrRecord "CFX5".toList, srvRecord "CFX5".toList "cooler".toList]] := by
  have hvalid : ∀ p ∈ [ptrRecord "CFX5".toList, srvRecord "CFX5".toList "cooler".toList],
      p.Valid := by
    rw [List.forall_mem_cons, List.forall_mem_singleton]
    exact ⟨valid_ptrRecord (by decide +kernel),
      valid_srvRecord (by decide +kernel) (by decide +kernel)⟩
  have hreceived : received strLower serviceType
      [responseOf 2 0 0 [ptrRecord "CFX5".toList, srvRecord "CFX5".toList "cooler".toList]]
      = [.ptr "CFX5".toList, .srv "CFX5".toList 13142 "cooler".toList] := by
    rw [received, List.flatMap_singleton, taughtBy_responseOf hvalid,
      List.filterMap_cons_some (fact?_ptrRecord _), List.filterMap_cons_some (fact?_srvRecord ..),
      List.filterMap_nil]
  refine (caseFree_iff strLower strLower_asciiLower serviceType _ ?_).1 ?_
  · rw [List.forall_mem_singleton]
    exact wellFormed_responseOf hvalid rfl (by decide) (by decide) (by decide)
  · rw [CaseSteady, hreceived]
    refine ⟨List.pairwise_singleton _ _, fun k _ => ?_, fun k _ _ => ?_⟩
    · exact Spelling.settled_of_forall_eq (u := (13142, "cooler".toList)) (by decide)
    · apply Spelling.settled_of_forall_eq (u := fun _ => none)
      intro e he
      exact absurd he List.not_mem_nil

/-- Two PTR records of the instance `CFX5`, the second one in some case. -/
def twice (inst : List Char) : List (Bytes × List Entry) :=
  [responseOf 3 0 0 [ptrRecord "CFX5".toList, ptrRecord inst,
    srvRecord "CFX5".toList "cooler".toList]]

/-- The instance is listed once, or twice when one of its PTR records is in another case. -/
theorem listed_twice : (∀ r ∈ twice "CFX5".toList, WellFormed r.1 r.2)
    ∧ List.Forall₂ Recased (twice "CFX5".toList) (twice "cfx5".toList)
    ∧ (outlines strLower serviceType (twice "CFX5".toList)).card = 1
    ∧ (outlines strLower serviceType (twice "cfx5".toList)).card = 2 := by
  have hvalid {inst : List Char} (hinst : inst = "CFX5".toList ∨ inst = "cfx5".toList) :
      ∀ p ∈ [ptrRecord "CFX5".toList, ptrRecord inst, srvRecord "CFX5".toList "cooler".toList],
        p.Valid := by
    rw [List.forall_mem_cons, List.forall_mem_cons, List.forall_mem_singleton]
    refine ⟨valid_ptrRecord (by decide +kernel), valid_ptrRecord ?_,
      valid_srvRecord (by decide +kernel) (by decide +kernel)⟩
    rcases hinst with rfl | rfl <;> decide +kernel
  have hcase : SameLabels (["cfx5".toList].map Utf8.encode) (["CFX5".toList].map Utf8.encode) := by
    rw [SameLabels]
    decide +kernel
  refine ⟨?_, .cons ?_ .nil, ?_, ?_⟩
  · rw [twice, List.forall_mem_singleton]
    exact wellFormed_responseOf (hvalid (.inl rfl)) rfl (by decide) (by decide) (by decide)
  · refine recased_responseOf (hvalid (.inl rfl)) (hvalid (.inr rfl)) ?_ rfl (by decide) (by decide)
      (by decide)
    refine .cons ⟨rfl, rfl, rfl, rfl⟩ (.cons ⟨rfl, rfl, rfl, hcase⟩ (.cons ?_ .nil))
    exact ⟨rfl, rfl, rfl, rfl⟩
  · decide +kernel
  · decide +kernel

end MdnsCollector

end Ddmp
