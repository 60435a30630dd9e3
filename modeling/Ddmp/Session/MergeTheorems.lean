import Ddmp.Session.StateTheorems

/-!
# The compartments of the decoded state

`from_values` merges seven arrays of any lengths with a compartment count that is published on its
own. `feedAll_compartments` says what each compartment then has, after any stream.
-/

namespace Ddmp

open Lib Fallible

/-! ## Attributes -/

/-- `getattr(compartment, attr)`. -/
def Compartment.attr (c : Compartment) : CompartmentAttr → Value
  | .powered => c.powered
  | .temperatureC => c.temperatureC
  | .setpointC => c.setpointC
  | .doorOpen => c.doorOpen
  | .rangeC => c.rangeC
  | .recommendedRangeC => c.recommendedRangeC
  | .offsetC => c.offsetC

@[simp] theorem Compartment.index_setAttr (c : Compartment) (v : Value) (a : CompartmentAttr) :
    (c.setAttr v a).index = c.index := by
  cases a <;> rfl

theorem Compartment.attr_setAttr (c : Compartment) (v : Value) (a b : CompartmentAttr) :
    (c.setAttr v a).attr b = if a = b then v else c.attr b := by
  cases a <;> cases b <;> rfl

theorem CompartmentAttr.mem_all (a : CompartmentAttr) : a ∈ all := by
  cases a <;> decide

namespace CoolerState

/-! ## The loop over the arrays -/

/-- A compartment with the item of its index, if the array has one. -/
def withItem (c : Compartment) (attr : CompartmentAttr) : Option Value → Compartment
  | some v => c.setAttr v attr
  | none => c

theorem getElem?_fill (attr : CompartmentAttr) (vs : List Value) (cs : List Compartment) (i : ℕ) :
    (fill attr vs cs)[i]? = cs[i]?.map fun c => withItem c attr vs[i]? := by
  induction vs, cs using fill.induct generalizing i with
  | case1 v vs c cs ih =>
    cases i with
    | zero => rfl
    | succ i => exact ih i
  | case2 vs cs hshort =>
    rw [fill]
    · cases vs with
      | nil => cases cs[i]? <;> rfl
      | cons v vs =>
        cases cs with
        | nil => rfl
        | cons c cs => exact absurd rfl (hshort v vs c cs rfl)
    · exact hshort

/-- One compartment through the loop. -/
theorem getElem?_fills (items : CompartmentAttr → List Value) (attrs : List CompartmentAttr)
    (cs : List Compartment) (i : ℕ) :
    (attrs.foldl (fun cs attr => fill attr (items attr) cs) cs)[i]?
      = cs[i]?.map fun c => attrs.foldl (fun c attr => withItem c attr (items attr)[i]?) c := by
  induction attrs generalizing cs with
  | nil =>
    rw [List.foldl_nil]
    cases cs[i]? <;> rfl
  | cons attr attrs ih =>
    rw [List.foldl_cons, ih, getElem?_fill, Option.map_map]
    rfl

/-- What the loop writes to a compartment, and what it leaves. -/
theorem attr_foldl_withItem (items : CompartmentAttr → List Value) (i : ℕ)
    (attrs : List CompartmentAttr) (c : Compartment) :
    (attrs.foldl (fun c attr => withItem c attr (items attr)[i]?) c).index = c.index
      ∧ ∀ attr, (attrs.foldl (fun c attr => withItem c attr (items attr)[i]?) c).attr attr
        = if attr ∈ attrs then ((items attr)[i]?).getD (c.attr attr) else c.attr attr := by
  have hitem (c : Compartment) (a b : CompartmentAttr) :
      (withItem c a (items a)[i]?).attr b
        = if a = b then ((items b)[i]?).getD (c.attr b) else c.attr b := by
    by_cases hab : a = b
    · obtain rfl := hab
      rw [if_pos rfl]
      cases (items a)[i]? with
      | none => rfl
      | some v => rw [withItem, Compartment.attr_setAttr, if_pos rfl, Option.getD_some]
    · rw [if_neg hab]
      cases (items a)[i]? with
      | none => rfl
      | some v => rw [withItem, Compartment.attr_setAttr, if_neg hab]
  have hindex (c : Compartment) (a : CompartmentAttr) :
      (withItem c a (items a)[i]?).index = c.index := by
    cases (items a)[i]? with
    | none => rfl
    | some v => exact c.index_setAttr v a
  induction attrs generalizing c with
  | nil => exact ⟨rfl, fun attr => (if_neg List.not_mem_nil).symm⟩
  | cons a attrs ih =>
    obtain ⟨ihindex, ihattr⟩ := ih (withItem c a (items a)[i]?)
    refine ⟨ihindex.trans (hindex c a), fun attr => ?_⟩
    rw [List.foldl_cons, ihattr, hitem]
    by_cases ha : a = attr
    · -- an attribute that comes again is given the same item
      have hmem : attr ∈ a :: attrs := ha ▸ List.mem_cons_self
      rw [if_pos ha, if_pos hmem]
      split
      · cases (items attr)[i]? <;> rfl
      · rfl
    · have hmem : attr ∈ a :: attrs ↔ attr ∈ attrs :=
        List.mem_cons.trans (or_iff_right (Ne.symm ha))
      rw [if_neg ha]
      simp only [hmem]

theorem getElem?_filled (items : CompartmentAttr → List Value) (count i : ℕ) :
    (filled items count)[i]? = if i < count then
      some (CompartmentAttr.all.foldl (fun c attr => withItem c attr (items attr)[i]?)
        { index := i }) else none := by
  rw [filled, getElem?_fills, List.getElem?_map, Option.map_map]
  by_cases hi : i < count
  · rw [List.getElem?_range hi, if_pos hi]
    rfl
  · rw [List.getElem?_eq_none (by rw [List.length_range]; omega), if_neg hi]
    rfl

theorem length_filled (items : CompartmentAttr → List Value) (count : ℕ) :
    (filled items count).length = count := by
  have hiff (i : ℕ) : (filled items count).length ≤ i ↔ count ≤ i := by
    rw [← List.getElem?_eq_none_iff, getElem?_filled, ite_eq_right_iff]
    simp
  have hcount := hiff count
  have hlength := hiff (filled items count).length
  omega

/-- Each of the compartments that the loops leave has the items of its index. -/
theorem filled_spec {items : CompartmentAttr → List Value} {count i : ℕ} {c : Compartment}
    (h : (filled items count)[i]? = some c) :
    c.index = i ∧ ∀ attr, c.attr attr = ((items attr)[i]?).getD .none := by
  rw [getElem?_filled, Option.ite_none_right_eq_some] at h
  obtain ⟨-, hc⟩ := h
  obtain rfl := Option.some.inj hc
  obtain ⟨hindex, hattr⟩ := attr_foldl_withItem items i CompartmentAttr.all { index := i }
  refine ⟨hindex, fun attr => ?_⟩
  rw [hattr, if_pos attr.mem_all]
  cases attr <;> rfl

/-- `range(max(lengths + [count]))` for a count that is a number. -/
theorem maxCount_int_eq (lengths : List ℕ) (n : ℤ) :
    maxCount lengths (.int n) = .ok (max (lengths.foldl max 0 : ℕ) n) := by
  have hle : PyFloat.le (.fin n) (.fin (lengths.foldl max 0 : ℕ)) = true
      ↔ n ≤ (lengths.foldl max 0 : ℕ) := by
    simp only [PyFloat.le, decide_eq_true_iff]
    exact_mod_cast Iff.rfl
  unfold maxCount
  simp only [Value.number?, Value.toInt, reduceCtorEq, false_or, hle]
  split
  · rw [max_eq_left (by assumption)]
  · rw [max_eq_right (by omega)]

end CoolerState

namespace Session

open CoolerState

/-! ## What was published -/

/-- The array last published for an attribute, decoded; empty before it is published. -/
def lastArray (frames : List Frame) (attr : CompartmentAttr) : List Value :=
  match (topicByName.get? attr.topicName).bind fun t =>
    (lastPublish t.address frames).bind fun payload => (t.codec.decode payload).toOption with
  | some (.list xs) => xs
  | _ => []

/-- The compartment count last published; 0 before it is published. -/
def lastCount (frames : List Frame) : ℤ :=
  match (lastPublish (mccc 0x02) frames).bind fun payload =>
    (Codec.int32.decode payload).toOption with
  | some (.int n) => n
  | _ => 0

/-- The length of the longest array. -/
def longest (items : CompartmentAttr → List Value) : ℕ :=
  (CompartmentAttr.all.map fun attr => (items attr).length).foldl max 0

variable {s : Session} {frames : List Frame}

/-- `values.get(name) or []` is the array last published. -/
theorem Coherent.array_eq (hs : s.Coherent) (hraw : ∀ a, s.raw.get? a = lastPublish a frames)
    (attr : CompartmentAttr) :
    (get s.values attr.topicName).orElse (.list []) = .ok (.list (lastArray frames attr)) := by
  obtain ⟨t, ht, hname, harray⟩ := attr.exists_topic
  have hrow : topicByName.get? attr.topicName = some t := topicByName_eq_some.mpr ⟨ht, hname⟩
  have hget : get s.values attr.topicName
      = .ofOption ((lastPublish t.address frames).map t.stored) := by
    rw [← hname, ← hraw]
    exact congrArg Value.ofOption (hs.stored t ht)
  rw [hget, lastArray, hrow, Option.bind_some]
  cases lastPublish t.address frames with
  | none => rfl
  | some payload =>
    obtain ⟨xs, hxs⟩ := Codec.decode_of_isArray harray payload
    rw [Option.map_some, Option.bind_some, t.stored_of_decode hxs, hxs]
    cases xs <;> rfl

/-- `values.get("nocpt") or 0` is the count last published. -/
theorem Coherent.count_eq (hs : s.Coherent) (hraw : ∀ a, s.raw.get? a = lastPublish a frames)
    (hcount : ∀ payload, lastPublish (mccc 0x02) frames = some payload → 4 ≤ payload.length) :
    (get s.values "nocpt").orElse (.int 0) = .ok (.int (lastCount frames)) := by
  have hget : get s.values "nocpt"
      = .ofOption ((lastPublish nocpt.address frames).map nocpt.stored) := by
    rw [← hraw]
    exact congrArg Value.ofOption (hs.stored nocpt (by decide))
  have haddress : nocpt.address = mccc 0x02 := rfl
  rw [hget, haddress, lastCount]
  cases hlast : lastPublish (mccc 0x02) frames with
  | none => rfl
  | some payload =>
    obtain ⟨n, hn⟩ := Codec.decode_int32_of_le (hcount payload hlast)
    rw [Option.map_some, Option.bind_some, nocpt.stored_of_decode hn, hn]
    exact orElse_int n

/-- After any stream whose last compartment count, if any, has four bytes, the state has as many
compartments as the count says or the longest array has, and each has its index and, for
every attribute, the item of that index in the array last published, or `None`. -/
theorem feedAll_compartments (tps : List Topic) (chunks : List Bytes)
    (hcount : ∀ payload, lastPublish (mccc 0x02) (reference chunks.flatten).frames = some payload →
      4 ≤ payload.length) :
    ∃ (events : List Event) (s : Session) (st : CoolerState),
      feedAll { topics := tps } chunks = .ok (events, s) ∧ s.state = .ok st
        ∧ (st.compartments.length : ℤ)
          = max (longest (lastArray (reference chunks.flatten).frames) : ℤ)
            (lastCount (reference chunks.flatten).frames)
        ∧ ∀ (i : ℕ) (c : Compartment), st.compartments[i]? = some c → c.index = i
          ∧ ∀ attr, c.attr attr
            = ((lastArray (reference chunks.flatten).frames attr)[i]?).getD .none := by
  obtain ⟨events, s, hfeed, hco, hraw⟩ : ∃ events s,
      feedAll { topics := tps } chunks = .ok (events, s) ∧ s.Coherent
        ∧ ∀ a, s.raw.get? a = lastPublish a (reference chunks.flatten).frames := by
    refine ⟨_, _, feedAll_eq chunks { topics := tps } rfl,
      (coherent_of_empty rfl rfl).afterFrames _, fun a => ?_⟩
    rw [raw_afterFrames]
    exact Option.or_none
  obtain ⟨codes, hcodes⟩ := hco.tupleOf_errst
  have hcompartments := fromValues_map_compartments hcodes (hco.array_eq hraw)
  rw [hco.count_eq hraw hcount, ok_bind, maxCount_int_eq, ok_bind] at hcompartments
  cases hstate : fromValues s.values with
  | error e =>
    rw [hstate] at hcompartments
    cases hcompartments
  | ok st =>
    rw [hstate] at hcompartments
    have hst : st.compartments = filled _ _ := Except.ok.inj hcompartments
    refine ⟨events, s, st, hfeed, hstate, ?_, fun i c hc => ?_⟩
    · rw [hst, length_filled, Int.toNat_of_nonneg (le_max_of_le_left (Int.natCast_nonneg _))]
      rfl
    · rw [hst] at hc
      exact filled_spec hc

/-- A compartment count of one, and set-points of two compartments. -/
def countOfOne : Bytes := bytesLit "EAIAABoBAAAA\rEAUAABrQBwAAoA8AAA==\r"

/-- The state then has two compartments. -/
theorem feedAll_compartments_countOfOne :
    ∃ (events : List Event) (s : Session) (st : CoolerState),
      feedAll {} [countOfOne] = .ok (events, s) ∧ s.state = .ok st
        ∧ st.compartments.length = 2 := by
  have hframes : (reference [countOfOne].flatten).frames
      = [⟨0x10, mccc 0x02, [1, 0, 0, 0]⟩,
        ⟨0x10, mccc 0x05, [0xD0, 0x07, 0, 0, 0xA0, 0x0F, 0, 0]⟩] := by decide +kernel
  have hcount (payload : Bytes)
      (h : lastPublish (mccc 0x02) (reference [countOfOne].flatten).frames = some payload) :
      4 ≤ payload.length := by
    have hlast : lastPublish (mccc 0x02) (reference [countOfOne].flatten).frames
        = some [1, 0, 0, 0] := by
      rw [hframes]
      decide +kernel
    rw [← Option.some.inj (hlast.symm.trans h)]
    decide
  have hmax : max (longest (lastArray (reference [countOfOne].flatten).frames) : ℤ)
      (lastCount (reference [countOfOne].flatten).frames) = 2 := by
    rw [hframes]
    decide +kernel
  obtain ⟨events, s, st, hfeed, hstate, hlength, -⟩ :=
    feedAll_compartments subscribeTopics [countOfOne] hcount
  rw [hmax] at hlength
  exact ⟨events, s, st, hfeed, hstate, by omega⟩

end Session

end Ddmp
