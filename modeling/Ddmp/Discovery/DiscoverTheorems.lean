import Ddmp.Discovery.Discover

/-!
# Merged hits

Hits from different sources are merged when they have the same key. `found_spec` says what an entry
of the `found` map has of the hits that went into it, and how far it depends on their order.
-/

namespace Ddmp

open Lib Lib.Collate

namespace Discovered

variable {lower : List Char → List Char} {a b d e : Discovered}

/-! ## Keys -/

theorem rtake_ne_nil {l : List Char} (h : l ≠ []) : l.rtake 6 ≠ [] := by
  have hpos := List.length_pos_iff.mpr h
  rw [List.rtake_eq_reverse_take_reverse, Ne, List.reverse_eq_nil_iff, List.take_eq_nil_iff,
    List.reverse_eq_nil_iff]
  exact fun hnil => hnil.elim (by omega) h

/-- The key of a hit with an id is made of the id. -/
theorem key_of_id (h : d.coolerId ≠ []) : d.key lower = d.coolerId.rtake 6 := by
  have hshort : d.shortId lower = d.coolerId.rtake 6 := if_pos h
  rw [key, hshort, if_pos (rtake_ne_nil h)]

/-- The key of a hit without one is made of the name. -/
theorem key_congr (hid : a.coolerId = []) (hid' : b.coolerId = []) (hname : a.name = b.name) :
    a.key lower = b.key lower := by
  rw [key, key, shortId, shortId, hid, hid', hname]

/-- Merging keeps keys, whichever of the two has the id or the name. -/
theorem key_merge (h : a.key lower = b.key lower) : (merge a b).key lower = a.key lower := by
  by_cases ha : a.coolerId = []
  · have hid : (merge a b).coolerId = b.coolerId := if_pos ha
    by_cases hb : b.coolerId = []
    · by_cases hname : a.name = []
      · rw [h]
        exact key_congr (hid.trans hb) hb (if_pos hname)
      · exact key_congr (hid.trans hb) ha (if_neg hname)
    · rw [h, key_of_id hb, key_of_id (hid.symm ▸ hb), hid]
  · have hid : (merge a b).coolerId = a.coolerId := if_neg ha
    rw [key_of_id ha, key_of_id (hid.symm ▸ ha), hid]

/-! ## Fields -/

/-- A field of the entry is empty only if it is empty in the hit. -/
structure Fills (e d : Discovered) : Prop where
  coolerId : e.coolerId = [] → d.coolerId = []
  name : e.name = [] → d.name = []
  hostname : Falsy [] e.hostname → Falsy [] d.hostname
  ip : Falsy "" e.ip → Falsy "" d.ip
  port : e.port = 0 → d.port = 0
  firmware : Falsy [] e.firmware → Falsy [] d.firmware
  sku : Falsy [] e.sku → Falsy [] d.sku
  instanceName : Falsy [] e.instanceName → Falsy [] d.instanceName

/-- Two hits agree on the fields that are empty in neither. -/
structure Agrees (a b : Discovered) : Prop where
  coolerId : a.coolerId ≠ [] → b.coolerId ≠ [] → a.coolerId = b.coolerId
  name : a.name ≠ [] → b.name ≠ [] → a.name = b.name
  hostname : ¬ Falsy [] a.hostname → ¬ Falsy [] b.hostname → a.hostname = b.hostname
  ip : ¬ Falsy "" a.ip → ¬ Falsy "" b.ip → a.ip = b.ip
  port : a.port ≠ 0 → b.port ≠ 0 → a.port = b.port
  firmware : ¬ Falsy [] a.firmware → ¬ Falsy [] b.firmware → a.firmware = b.firmware
  sku : ¬ Falsy [] a.sku → ¬ Falsy [] b.sku → a.sku = b.sku
  instanceName : ¬ Falsy [] a.instanceName → ¬ Falsy [] b.instanceName →
    a.instanceName = b.instanceName

/-- The hit with `None` for every empty field that may be `None`. -/
def plain (d : Discovered) : Discovered :=
  { d with
    hostname := if Falsy [] d.hostname then none else d.hostname
    ip := if Falsy "" d.ip then none else d.ip
    firmware := if Falsy [] d.firmware then none else d.firmware
    sku := if Falsy [] d.sku then none else d.sku
    instanceName := if Falsy [] d.instanceName then none else d.instanceName }

end Discovered

/-! ## Entries -/

open Discovered

section found

variable {lower : List Char → List Char} {hits : List Discovered} {k : List Char} {e : Discovered}

theorem found_eq_collate (lower : List Char → List Char) (hits : List Discovered) :
    found lower hits = collate (key lower) merge hits := by
  have hstep (table : Dict (List Char) Discovered) (d : Discovered) :
      remember lower table d = Collate.remember (key lower) merge table d := by
    rw [remember, Collate.remember]
    cases table.get? (d.key lower) <;> rfl
  rw [found, collate]
  congr 1
  funext table d
  exact hstep table d

/-- A field of an entry is the merge of the fields of the hits with its key. -/
theorem field_of_found {φ : Type} {f : Discovered → φ} {op : φ → φ → φ}
    (hf : ∀ a b, f (merge a b) = op (f a) (f b)) (h : (found lower hits).get? k = some e) :
    merged op ((hits.filter (key lower · = k)).map f) = some (f e) := by
  rw [found_eq_collate, get?_collate] at h
  rw [← map_merged hf, h, Option.map_some]

/-- Of a field that keeps the first value that is not empty: it is empty only if it is empty in
all hits. -/
theorem fills_of_found {φ : Type} (f : Discovered → φ) (empty : φ → Prop) [DecidablePred empty]
    (hf : ∀ a b, f (merge a b) = firstOf empty (f a) (f b))
    (h : (found lower hits).get? k = some e) {d : Discovered} (hd : d ∈ hits)
    (hk : d.key lower = k) : empty (f e) → empty (f d) := by
  intro hempty
  refine (first_spec (field_of_found hf h)).2 hempty _ (List.mem_map_of_mem ?_)
  exact List.mem_filter.mpr ⟨hd, decide_eq_true hk⟩

/-- And it is the same for every order of hits that agree, but for which empty value it is. -/
theorem field_perm {φ : Type} (f : Discovered → φ) (empty : φ → Prop) [DecidablePred empty]
    (hf : ∀ a b, f (merge a b) = firstOf empty (f a) (f b)) {hits' : List Discovered}
    (hperm : hits.Perm hits')
    (hagree : ∀ a ∈ hits, ∀ b ∈ hits, a.key lower = b.key lower →
      ¬ empty (f a) → ¬ empty (f b) → f a = f b) {e' : Discovered}
    (h : (found lower hits).get? k = some e) (h' : (found lower hits').get? k = some e') :
    f e = f e' ∨ empty (f e) ∧ empty (f e') := by
  refine first_perm ((hperm.filter _).map f) ?_ (field_of_found hf h) (field_of_found hf h')
  simp only [List.forall_mem_map, List.mem_filter, decide_eq_true_iff]
  rintro a ⟨ha, hka⟩ b ⟨hb, hkb⟩
  exact hagree a ha b hb (hka.trans hkb.symm)

theorem mem_sources_iff (h : (found lower hits).get? k = some e) (source : Source) :
    source ∈ e.sources ↔ ∃ d ∈ hits, d.key lower = k ∧ source ∈ d.sources := by
  have hfield : merged Or ((hits.filter (key lower · = k)).map fun d => source ∈ d.sources)
      = some (source ∈ e.sources) :=
    field_of_found (fun a b => propext Finset.mem_union) h
  rw [merged_or hfield]
  simp only [List.mem_map, List.mem_filter, decide_eq_true_iff]
  constructor
  · rintro ⟨_, ⟨d, ⟨hd, hk⟩, rfl⟩, hsource⟩
    exact ⟨d, hd, hk, hsource⟩
  · rintro ⟨d, hd, hk, hsource⟩
    exact ⟨_, ⟨d, ⟨hd, hk⟩, rfl⟩, hsource⟩

/-- An entry is under its own key. -/
theorem key_of_found (h : (found lower hits).get? k = some e) : e.key lower = k := by
  rw [found_eq_collate] at h
  exact key_of_get?_collate (fun a b => key_merge) h

theorem isSome_found_iff : ((found lower hits).get? k).isSome ↔ ∃ d ∈ hits, d.key lower = k := by
  rw [found_eq_collate, get?_collate, ← Option.ne_none_iff_isSome, Ne, merged_eq_none_iff,
    List.filter_eq_nil_iff]
  simp

/-- An optional field that is the same, or empty both times, is the same when it is empty if it is
`none`. -/
theorem ite_falsy_eq {τ : Type} [DecidableEq τ] {empty : τ} {x y : Option τ}
    (h : x = y ∨ Falsy empty x ∧ Falsy empty y) :
    (if Falsy empty x then none else x) = if Falsy empty y then none else y := by
  rcases h with rfl | ⟨hx, hy⟩
  · rfl
  · rw [if_pos hx, if_pos hy]

/-- Entries of the map for two orders of hits that agree are the same, but for empty fields. -/
theorem plain_eq_of_found {hits' : List Discovered} (hperm : hits.Perm hits')
    (hagree : ∀ a ∈ hits, ∀ b ∈ hits, a.key lower = b.key lower → a.Agrees b) {e' : Discovered}
    (h : (found lower hits).get? k = some e) (h' : (found lower hits').get? k = some e') :
    e.plain = e'.plain := by
  have hexact {φ : Type} {empty x y : φ} (hxy : x = y ∨ x = empty ∧ y = empty) : x = y :=
    hxy.elim id fun hboth => hboth.1.trans hboth.2.symm
  ext1
  · show e.coolerId = e'.coolerId
    exact hexact (field_perm Discovered.coolerId (· = []) (fun _ _ => rfl) hperm
      (fun a ha b hb hk => (hagree a ha b hb hk).coolerId) h h')
  · show e.name = e'.name
    exact hexact (field_perm Discovered.name (· = []) (fun _ _ => rfl) hperm
      (fun a ha b hb hk => (hagree a ha b hb hk).name) h h')
  · exact ite_falsy_eq (field_perm Discovered.hostname (Falsy []) (fun _ _ => rfl) hperm
      (fun a ha b hb hk => (hagree a ha b hb hk).hostname) h h')
  · exact ite_falsy_eq (field_perm Discovered.ip (Falsy "") (fun _ _ => rfl) hperm
      (fun a ha b hb hk => (hagree a ha b hb hk).ip) h h')
  · show e.port = e'.port
    exact hexact (field_perm Discovered.port (· = 0) (fun _ _ => rfl) hperm
      (fun a ha b hb hk => (hagree a ha b hb hk).port) h h')
  · exact ite_falsy_eq (field_perm Discovered.firmware (Falsy []) (fun _ _ => rfl) hperm
      (fun a ha b hb hk => (hagree a ha b hb hk).firmware) h h')
  · exact ite_falsy_eq (field_perm Discovered.sku (Falsy []) (fun _ _ => rfl) hperm
      (fun a ha b hb hk => (hagree a ha b hb hk).sku) h h')
  · exact ite_falsy_eq (field_perm Discovered.instanceName (Falsy []) (fun _ _ => rfl) hperm
      (fun a ha b hb hk => (hagree a ha b hb hk).instanceName) h h')
  · ext source
    exact (mem_sources_iff h source).trans
      (by simp only [hperm.mem_iff]; exact (mem_sources_iff h' source).symm)

theorem plain_found_perm {hits' : List Discovered} (hperm : hits.Perm hits')
    (hagree : ∀ a ∈ hits, ∀ b ∈ hits, a.key lower = b.key lower → a.Agrees b) (k : List Char) :
    ((found lower hits).get? k).map plain = ((found lower hits').get? k).map plain := by
  have hsome : ((found lower hits).get? k).isSome ↔ ((found lower hits').get? k).isSome := by
    simp only [isSome_found_iff, hperm.mem_iff]
  cases h : (found lower hits).get? k with
  | none =>
    cases h' : (found lower hits').get? k with
    | none => rfl
    | some e' =>
      rw [h, h'] at hsome
      cases hsome.mpr rfl
  | some e =>
    cases h' : (found lower hits').get? k with
    | none =>
      rw [h, h'] at hsome
      cases hsome.mp rfl
    | some e' => exact congrArg some (plain_eq_of_found hperm hagree h h')

end found

/-- Every entry of the `found` map is under its own key, so that no two results have the same key;
every hit has an entry; a field of an entry is empty only if it is empty in every hit with the
key, and its sources are those of all of them. If hits with the same key agree where neither is
empty, the map is the same for every order of the hits, but for which empty value stands in a
field that is empty in all of them. -/
theorem found_spec (lower : List Char → List Char) (hits : List Discovered) :
    (∀ k e, (found lower hits).get? k = some e →
        e.key lower = k ∧ (∀ d ∈ hits, d.key lower = k → e.Fills d)
          ∧ ∀ source, source ∈ e.sources ↔ ∃ d ∈ hits, d.key lower = k ∧ source ∈ d.sources)
      ∧ (∀ k, ((found lower hits).get? k).isSome ↔ ∃ d ∈ hits, d.key lower = k)
      ∧ ((found lower hits).entries.map fun entry => entry.2.key lower).Nodup
      ∧ ((∀ a ∈ hits, ∀ b ∈ hits, a.key lower = b.key lower → a.Agrees b) →
        ∀ hits', hits.Perm hits' → ∀ k,
          ((found lower hits).get? k).map plain = ((found lower hits').get? k).map plain) := by
  refine ⟨fun k e h => ⟨key_of_found h, fun d hd hk => ?_, mem_sources_iff h⟩,
    fun k => isSome_found_iff, ?_, fun hagree hits' hperm k => plain_found_perm hperm hagree k⟩
  · exact
      { coolerId := fills_of_found Discovered.coolerId (· = []) (fun _ _ => rfl) h hd hk
        name := fills_of_found Discovered.name (· = []) (fun _ _ => rfl) h hd hk
        hostname := fills_of_found Discovered.hostname (Falsy []) (fun _ _ => rfl) h hd hk
        ip := fills_of_found Discovered.ip (Falsy "") (fun _ _ => rfl) h hd hk
        port := fills_of_found Discovered.port (· = 0) (fun _ _ => rfl) h hd hk
        firmware := fills_of_found Discovered.firmware (Falsy []) (fun _ _ => rfl) h hd hk
        sku := fills_of_found Discovered.sku (Falsy []) (fun _ _ => rfl) h hd hk
        instanceName := fills_of_found Discovered.instanceName (Falsy []) (fun _ _ => rfl) h hd hk }
  · have hkeys : ((found lower hits).entries.map fun entry => entry.2.key lower)
        = (found lower hits).keys := by
      apply List.map_congr_left
      intro entry hentry
      exact key_of_found ((Dict.lookup_eq_some_iff (found lower hits).nodup).mpr hentry)
    rw [hkeys]
    exact (found lower hits).nodup

/-- The entry of a service with these TXT data. -/
def serviceHit (txt : Dict (List Char) (List Char)) : Discovered :=
  fromService
    { instanceName := "CFX5".toList
      hostname := "MC1_34f12c.local".toList
      port := 13143
      addresses := ["10.0.0.1"]
      txt }

/-- Two hits that differ in an empty `sku` only: the entry has that of the last one. -/
theorem found_depends_on_order :
    ∃ hits hits' : List Discovered, hits.Perm hits'
      ∧ (∀ a ∈ hits, ∀ b ∈ hits, a.Agrees b ∧ a.sources = b.sources)
      ∧ ((found strLower hits).get? "34f12c".toList).map sku = some (some [])
      ∧ ((found strLower hits').get? "34f12c".toList).map sku = some none := by
  refine ⟨[serviceHit .empty, serviceHit (.ofList [("sku".toList, [])])],
    [serviceHit (.ofList [("sku".toList, [])]), serviceHit .empty], .swap _ _ [], ?_,
    by decide +kernel, by decide +kernel⟩
  intro a ha b hb
  rcases List.mem_pair.mp ha with rfl | rfl <;> rcases List.mem_pair.mp hb with rfl | rfl
  all_goals exact ⟨by constructor <;> decide +kernel, by decide +kernel⟩

end Ddmp
