import Ddmp.Lib.Fallible
import Ddmp.Session.HistoryTheorems

/-!
# When the decoded state can be read

`CoolerState.from_values` meets only lists and missing entries in the array topics, because
their codecs decode every payload. The compartment count is the one value it does arithmetic
on, and `max` raises when that value is a raw byte string.
-/

namespace Ddmp

open Lib

/-- The topic of an array attribute; its codec decodes to lists. -/
theorem CompartmentAttr.exists_topic (attr : CompartmentAttr) :
    ∃ t ∈ topics, t.name = attr.topicName ∧ t.codec.isArray = true := by
  cases attr <;> decide

namespace CoolerState

/-- The compartments that the loops over the arrays leave. -/
def filled (items : CompartmentAttr → List Value) (count : ℕ) : List Compartment :=
  CompartmentAttr.all.foldl (fun cs attr => fill attr (items attr) cs)
    ((List.range count).map fun i => { index := i })

/-- With lists for arrays, only the compartment count can raise. -/
theorem fromValues_map_compartments {values : Dict String Value} {codes : List Value}
    {items : CompartmentAttr → List Value}
    (herrs : tupleOf (get values "errst") = .ok codes)
    (harrays : ∀ attr, (get values attr.topicName).orElse (.list []) = .ok (.list (items attr))) :
    (fromValues values).map compartments = (do
      let c ← (get values "nocpt").orElse (.int 0)
      let n ← maxCount (CompartmentAttr.all.map fun attr => (items attr).length) c
      return filled items n.toNat) := by
  -- the three loops of the source never raise on lists
  have hmap : (CompartmentAttr.all.mapM fun attr => do
      let arr ← (get values attr.topicName).orElse (.list [])
      return (attr, arr))
      = Except.ok (CompartmentAttr.all.map fun attr => (attr, Value.list (items attr))) := by
    apply Fallible.mapM_ok
    intro attr _
    rw [harrays]
    rfl
  have hlens : ((CompartmentAttr.all.map fun attr => (attr, Value.list (items attr))).mapM
      fun e => e.2.len) = Except.ok (CompartmentAttr.all.map fun attr => (items attr).length) := by
    rw [List.mapM_map]
    exact Fallible.mapM_ok fun _ _ => rfl
  have hfill : ∀ cs : List Compartment,
      ((CompartmentAttr.all.map fun attr => (attr, Value.list (items attr))).foldlM
        (fun cs e => do return fill e.1 (← e.2.iter) cs) cs)
        = (Except.ok (CompartmentAttr.all.foldl (fun cs attr => fill attr (items attr) cs) cs) :
          Except PyErr (List Compartment)) := by
    intro cs
    rw [List.foldlM_map]
    exact Fallible.foldlM_ok (fun _ _ _ => rfl) cs
  unfold fromValues
  rw [herrs, hmap]
  dsimp only
  cases (get values "nocpt").orElse (.int 0) with
  | error e => rfl
  | ok c =>
    simp only [bind, Except.bind, hlens]
    cases maxCount (CompartmentAttr.all.map fun attr => (items attr).length) c with
    | error e => rfl
    | ok n =>
      have hcompartments := hfill ((List.range n.toNat).map fun i => { index := i })
      simp only [bind, Except.bind] at hcompartments
      simp only [hcompartments]
      rfl

/-- With lists for arrays, reading the state stands or falls with the compartment count. -/
theorem fromValues_isOk_iff {values : Dict String Value} {codes : List Value}
    {items : CompartmentAttr → List Value}
    (herrs : tupleOf (get values "errst") = .ok codes)
    (harrays : ∀ attr, (get values attr.topicName).orElse (.list []) = .ok (.list (items attr))) :
    (∃ st, fromValues values = .ok st)
      ↔ ∃ c n, (get values "nocpt").orElse (.int 0) = .ok c
        ∧ maxCount (CompartmentAttr.all.map fun attr => (items attr).length) c = .ok n := by
  have hcompartments := fromValues_map_compartments herrs harrays
  constructor
  · rintro ⟨st, hst⟩
    rw [hst] at hcompartments
    obtain ⟨c, hc, hrest⟩ := Fallible.bind_eq_ok.mp hcompartments.symm
    obtain ⟨n, hn, -⟩ := Fallible.bind_eq_ok.mp hrest
    exact ⟨c, n, hc, hn⟩
  · rintro ⟨c, n, hc, hn⟩
    rw [hc, Fallible.ok_bind, hn, Fallible.ok_bind] at hcompartments
    cases hst : fromValues values with
    | ok st => exact ⟨st, rfl⟩
    | error e =>
      rw [hst] at hcompartments
      cases hcompartments

/-- `max` fails on a count that is not a number, and on nothing else that `nocpt` can hold. -/
theorem maxCount_int (lengths : List ℕ) (n : ℤ) : ∃ m, maxCount lengths (.int n) = .ok m := by
  unfold maxCount
  simp only [Value.number?, Value.toInt]
  split
  · exact ⟨_, rfl⟩
  · exact ⟨n, rfl⟩

/-- An empty byte string is no count; any other is not a number. -/
theorem maxCount_bytes (lengths : List ℕ) (payload : Bytes) :
    (∃ c n, (Value.bytes payload).orElse (.int 0) = .ok c ∧ maxCount lengths c = .ok n)
      ↔ payload = [] := by
  cases payload with
  | nil =>
    obtain ⟨m, hm⟩ := maxCount_int lengths 0
    exact ⟨fun _ => rfl, fun _ => ⟨.int 0, m, rfl, hm⟩⟩
  | cons b rest =>
    constructor
    · rintro ⟨c, n, hc, hn⟩
      have hbytes : c = .bytes (b :: rest) := (Except.ok.inj hc).symm
      have hraise : maxCount lengths (.bytes (b :: rest)) = .error .typeError := rfl
      rw [hbytes, hraise] at hn
      exact absurd hn nofun
    · intro h
      exact absurd h (List.cons_ne_nil b rest)

/-- `n or 0`. -/
theorem orElse_int (n : ℤ) : (Value.int n).orElse (.int 0) = .ok (.int n) := by
  by_cases hzero : n = 0
  · rw [hzero]
    rfl
  · simp [Value.orElse, Value.truth, hzero, bind, Except.bind, pure, Except.pure]

/-- The topic of the compartment count. -/
def nocpt : Topic := { name := "nocpt", address := mccc 0x02, codec := .int32 }

end CoolerState

namespace Session

open CoolerState

/-- An array topic holds a list, or nothing yet. -/
theorem Coherent.get_array {s : Session} (h : s.Coherent) {t : Topic} (ht : t ∈ Ddmp.topics)
    (harr : t.codec.isArray = true) :
    get s.values t.name = .none ∨ ∃ xs, get s.values t.name = .list xs := by
  have hget : get s.values t.name = .ofOption ((s.raw.get? t.address).map t.stored) :=
    congrArg Value.ofOption (h.stored t ht)
  rw [hget]
  cases s.raw.get? t.address with
  | none => exact .inl rfl
  | some payload =>
    obtain ⟨xs, hxs⟩ := Codec.decode_of_isArray harr payload
    exact .inr ⟨xs, t.stored_of_decode hxs⟩

/-- The error codes never raise: they are a list, or not there. -/
theorem Coherent.tupleOf_errst {s : Session} (h : s.Coherent) :
    ∃ codes, tupleOf (get s.values "errst") = .ok codes := by
  have hmem : { name := "errst", address := mccc 0x12, codec := .u16Array } ∈ Ddmp.topics := by
    decide
  rcases h.get_array hmem rfl with hget | ⟨xs, hget⟩
  · exact ⟨[], by rw [hget]; rfl⟩
  · rw [hget]
    cases xs <;> exact ⟨_, rfl⟩

/-- Reading the state of a session whose dictionaries agree fails exactly when the compartment
count was published with one, two or three bytes. -/
theorem Coherent.state_isOk_iff {s : Session} (h : s.Coherent) :
    (∃ st, s.state = .ok st)
      ↔ ∀ payload, s.raw.get? (mccc 0x02) = some payload →
          payload = [] ∨ 4 ≤ payload.length := by
  have harrays : ∀ attr : CompartmentAttr,
      ∃ xs, (get s.values attr.topicName).orElse (.list []) = .ok (.list xs) := by
    intro attr
    obtain ⟨t, ht, hname, harr⟩ := attr.exists_topic
    rw [← hname]
    rcases h.get_array ht harr with hget | ⟨xs, hget⟩
    · exact ⟨[], by rw [hget]; rfl⟩
    · rw [hget]
      cases xs <;> exact ⟨_, rfl⟩
  obtain ⟨codes, hcodes⟩ := h.tupleOf_errst
  choose items hitems using harrays
  -- only the count is left, and that is a number, or bytes that did not decode
  have hnocpt : get s.values "nocpt"
      = .ofOption ((s.raw.get? nocpt.address).map nocpt.stored) :=
    congrArg Value.ofOption (h.stored nocpt (by decide))
  rw [state, fromValues_isOk_iff hcodes hitems, hnocpt]
  have haddr : nocpt.address = mccc 0x02 := rfl
  rw [haddr]
  cases s.raw.get? (mccc 0x02) with
  | none =>
    obtain ⟨m, hm⟩ := maxCount_int (CompartmentAttr.all.map fun attr => (items attr).length) 0
    exact ⟨fun _ _ hp => (nomatch hp), fun _ => ⟨.int 0, m, rfl, hm⟩⟩
  | some payload =>
    simp only [Option.map_some, Value.ofOption, Option.some_inj, forall_eq']
    by_cases hlen : 4 ≤ payload.length
    · obtain ⟨n, hn⟩ := Codec.decode_int32_of_le hlen
      rw [nocpt.stored_of_decode hn]
      obtain ⟨m, hm⟩ := maxCount_int (CompartmentAttr.all.map fun attr => (items attr).length) n
      exact ⟨fun _ => .inr hlen, fun _ => ⟨.int n, m, orElse_int n, hm⟩⟩
    · rw [nocpt.stored_of_lt (Nat.lt_of_not_le hlen), maxCount_bytes, or_iff_left hlen]

/-- After any stream the state can be read exactly if the last compartment count, when there
is one, was published with no bytes at all or with at least four. -/
theorem feedAll_state_isOk_iff (tps : List Topic) (chunks : List Bytes) :
    ∃ events s, feedAll { topics := tps } chunks = .ok (events, s)
      ∧ ((∃ st, s.state = .ok st)
        ↔ ∀ payload, lastPublish (mccc 0x02) (reference chunks.flatten).frames = some payload →
            payload = [] ∨ 4 ≤ payload.length) := by
  refine ⟨_, _, feedAll_eq chunks { topics := tps } rfl, ?_⟩
  rw [((coherent_of_empty rfl rfl).afterFrames _).state_isOk_iff, raw_afterFrames]
  rw [Dict.get?_empty, Option.or_none]
  rfl

/-- A compartment count of one byte is stored as `b"\x01"`, and `max` raises `TypeError`. -/
theorem state_raises_short_count :
    ∃ events s, feedAll {} [bytesLit "EAIAABoB\r"] = .ok (events, s)
      ∧ s.state = .error .typeError := ⟨_, _, rfl, rfl⟩

end Session

end Ddmp
