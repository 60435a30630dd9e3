import Mathlib.Data.List.Nodup
import Mathlib.Tactic.Common

/-!
# Insertion-ordered dictionaries

A dictionary is its list of entries in insertion order; that no key occurs twice is part of
the type. Assigning to a key that is present keeps its place, as Python's `dict` does.
-/

namespace Lib

/-- A finite map that remembers the order in which its keys were first inserted. -/
structure Dict (κ ν : Type*) where
  entries : List (κ × ν)
  nodup : (entries.map Prod.fst).Nodup

namespace Dict

variable {κ ν : Type*} [DecidableEq κ]

/-- The dictionary without entries. -/
def empty : Dict κ ν := ⟨[], List.nodup_nil⟩

/-- Replace the value of `k`, or append a new entry. -/
def assign (k : κ) (v : ν) : List (κ × ν) → List (κ × ν)
  | [] => [(k, v)]
  | (k', v') :: rest => if k' = k then (k', v) :: rest else (k', v') :: assign k v rest

/-- The keys after an assignment: unchanged, or with the new key at the end. -/
theorem keys_assign (k : κ) (v : ν) (l : List (κ × ν)) :
    (assign k v l).map Prod.fst
      = if k ∈ l.map Prod.fst then l.map Prod.fst else l.map Prod.fst ++ [k] := by
  induction l with
  | nil => simp [assign]
  | cons e rest ih =>
    obtain ⟨k', v'⟩ := e
    by_cases hk : k' = k
    · simp [assign, hk]
    · have hk' : ¬ k = k' := fun h => hk h.symm
      simp only [assign, if_neg hk, List.map_cons, ih, List.mem_cons, hk', false_or]
      split <;> simp

/-- `d.get(k)`. -/
def get? (d : Dict κ ν) (k : κ) : Option ν := d.entries.lookup k

/-- `d[k] = v`. -/
def set (d : Dict κ ν) (k : κ) (v : ν) : Dict κ ν where
  entries := assign k v d.entries
  nodup := by
    rw [keys_assign]
    split
    · exact d.nodup
    · -- a new key goes to the end
      rename_i hk
      rw [List.nodup_append]
      refine ⟨d.nodup, List.nodup_singleton k, ?_⟩
      intro a ha b hb hab
      rw [List.mem_singleton] at hb
      exact hk (hb ▸ hab ▸ ha)

/-- The dictionary built by assigning the entries of a list one after another. -/
def ofList (l : List (κ × ν)) : Dict κ ν :=
  l.foldl (fun d e => d.set e.1 e.2) empty

@[simp] theorem get?_empty (k : κ) : (empty : Dict κ ν).get? k = none := rfl

theorem lookup_cons_ne {k k' : κ} (h : k' ≠ k) (v : ν) (l : List (κ × ν)) :
    ((k', v) :: l).lookup k = l.lookup k := by
  rw [List.lookup_cons, beq_false_of_ne h.symm]

theorem lookup_assign_self (k : κ) (v : ν) (l : List (κ × ν)) :
    (assign k v l).lookup k = some v := by
  induction l with
  | nil => exact List.lookup_cons_self
  | cons e rest ih =>
    obtain ⟨k', v'⟩ := e
    by_cases hk : k' = k
    · subst hk
      rw [assign, if_pos rfl, List.lookup_cons_self]
    · rw [assign, if_neg hk, lookup_cons_ne hk, ih]

theorem lookup_assign_ne {k k' : κ} (h : k ≠ k') (v : ν) (l : List (κ × ν)) :
    (assign k v l).lookup k' = l.lookup k' := by
  induction l with
  | nil => exact lookup_cons_ne h v []
  | cons e rest ih =>
    obtain ⟨k₀, v₀⟩ := e
    by_cases hk : k₀ = k
    · subst hk
      rw [assign, if_pos rfl, lookup_cons_ne h, lookup_cons_ne h]
    · rw [assign, if_neg hk, List.lookup_cons, List.lookup_cons, ih]

@[simp] theorem get?_set_self (d : Dict κ ν) (k : κ) (v : ν) : (d.set k v).get? k = some v :=
  lookup_assign_self k v d.entries

theorem get?_set_ne (d : Dict κ ν) {k k' : κ} (h : k ≠ k') (v : ν) :
    (d.set k v).get? k' = d.get? k' := lookup_assign_ne h v d.entries

theorem get?_set (d : Dict κ ν) (k k' : κ) (v : ν) :
    (d.set k v).get? k' = if k = k' then some v else d.get? k' := by
  split
  · rename_i h
    rw [← h, get?_set_self]
  · rename_i h
    exact get?_set_ne d h v

/-! ## Replaying a log of assignments -/

/-- Perform the assignments of a log one after another. -/
def replay (d : Dict κ ν) (log : List (κ × ν)) : Dict κ ν :=
  log.foldl (fun d e => d.set e.1 e.2) d

/-- The values a log assigns to `k`, in order. -/
def assigned (k : κ) (log : List (κ × ν)) : List ν :=
  (log.filter fun e => e.1 = k).map Prod.snd

theorem replay_append (d : Dict κ ν) (log log' : List (κ × ν)) :
    d.replay (log ++ log') = (d.replay log).replay log' :=
  List.foldl_append

theorem assigned_cons (k : κ) (e : κ × ν) (log : List (κ × ν)) :
    assigned k (e :: log) = if e.1 = k then e.2 :: assigned k log else assigned k log := by
  by_cases h : e.1 = k <;> simp [assigned, h]

/-- The last assignment to a key decides; without one the old entry stays. -/
theorem get?_replay (d : Dict κ ν) (log : List (κ × ν)) (k : κ) :
    (d.replay log).get? k = (assigned k log).getLast?.or (d.get? k) := by
  induction log generalizing d with
  | nil => rfl
  | cons e log ih =>
    have hstep : d.replay (e :: log) = (d.set e.1 e.2).replay log := rfl
    rw [hstep, ih, get?_set, assigned_cons]
    -- the first assignment matters only if the rest of the log has none for the key
    by_cases h : e.1 = k
    · rw [if_pos h, if_pos h, List.getLast?_cons]
      cases (assigned k log).getLast? <;> rfl
    · rw [if_neg h, if_neg h]

/-! ## Dictionaries without repeated keys -/

theorem assigned_of_not_mem {k : κ} {l : List (κ × ν)} (h : k ∉ l.map Prod.fst) :
    assigned k l = [] := by
  rw [assigned, List.map_eq_nil_iff, List.filter_eq_nil_iff]
  intro e he hk
  exact h (List.mem_map.mpr ⟨e, he, of_decide_eq_true hk⟩)

/-- Without repeated keys the last assignment is the only one. -/
theorem getLast?_assigned {l : List (κ × ν)} (hl : (l.map Prod.fst).Nodup) (k : κ) :
    (assigned k l).getLast? = l.lookup k := by
  induction l with
  | nil => rfl
  | cons e rest ih =>
    obtain ⟨k₀, v₀⟩ := e
    rw [List.map_cons, List.nodup_cons] at hl
    rw [assigned_cons]
    by_cases hk : k₀ = k
    · subst hk
      rw [if_pos rfl, assigned_of_not_mem hl.1, List.getLast?_singleton, List.lookup_cons_self]
    · rw [if_neg hk, lookup_cons_ne hk, ih hl.2]

/-- `ofList` of a list without repeated keys holds exactly the entries of the list. -/
theorem get?_ofList {l : List (κ × ν)} (hl : (l.map Prod.fst).Nodup) (k : κ) :
    (ofList l).get? k = l.lookup k := by
  have hreplay : ofList l = empty.replay l := rfl
  rw [hreplay, get?_replay, getLast?_assigned hl, get?_empty, Option.or_none]

theorem lookup_eq_some_iff {l : List (κ × ν)} (hl : (l.map Prod.fst).Nodup) {k : κ} {v : ν} :
    l.lookup k = some v ↔ (k, v) ∈ l := by
  induction l with
  | nil => simp
  | cons e rest ih =>
    obtain ⟨k₀, v₀⟩ := e
    rw [List.map_cons, List.nodup_cons] at hl
    by_cases hk : k₀ = k
    · subst hk
      have hnot : (k₀, v) ∉ rest := fun h => hl.1 (List.mem_map.mpr ⟨_, h, rfl⟩)
      simp [hnot, eq_comm]
    · have hk' : ¬ k = k₀ := fun h => hk h.symm
      rw [lookup_cons_ne hk]
      simp [hk', ih hl.2]

/-- The order of the entries does not matter to `get?`. -/
theorem get?_ofList_perm {l l' : List (κ × ν)} (h : l.Perm l') (hl : (l.map Prod.fst).Nodup)
    (k : κ) : (ofList l).get? k = (ofList l').get? k := by
  have hl' : (l'.map Prod.fst).Nodup := (h.map Prod.fst).nodup_iff.mp hl
  ext v
  rw [get?_ofList hl, get?_ofList hl', lookup_eq_some_iff hl, lookup_eq_some_iff hl', h.mem_iff]

/-- A table with one entry for each row, under a key of the row: looking a key up finds the
row with that key. -/
theorem get?_ofList_key {key : ν → κ} {rows : List ν} (h : (rows.map key).Nodup) {k : κ} {v : ν} :
    (ofList (rows.map fun v => (key v, v))).get? k = some v ↔ v ∈ rows ∧ key v = k := by
  have hkeys : ((rows.map fun v => (key v, v)).map Prod.fst).Nodup := by
    rw [List.map_map]
    exact h
  rw [get?_ofList hkeys, lookup_eq_some_iff hkeys, List.mem_map]
  constructor
  · rintro ⟨w, hw, heq⟩
    rw [Prod.mk.injEq] at heq
    obtain ⟨hkey, rfl⟩ := heq
    exact ⟨hw, hkey⟩
  · rintro ⟨hv, rfl⟩
    exact ⟨v, hv, rfl⟩

/-! ## Keys -/

/-- `list(d)`. -/
def keys (d : Dict κ ν) : List κ := d.entries.map Prod.fst

theorem isSome_get?_iff {d : Dict κ ν} {k : κ} : (d.get? k).isSome ↔ k ∈ d.keys := by
  simp only [get?, Option.isSome_iff_exists, lookup_eq_some_iff d.nodup, keys, List.mem_map]
  constructor
  · rintro ⟨v, hv⟩
    exact ⟨(k, v), hv, rfl⟩
  · rintro ⟨⟨_, v⟩, hv, rfl⟩
    exact ⟨v, hv⟩

theorem mem_keys_set {d : Dict κ ν} {k k' : κ} {v : ν} :
    k' ∈ (d.set k v).keys ↔ k' ∈ d.keys ∨ k' = k := by
  rw [keys, keys, set, keys_assign]
  split
  · rename_i hk
    exact ⟨.inl, fun h => h.elim id fun h => h ▸ hk⟩
  · rw [List.mem_append, List.mem_singleton]

/-- The keys after a log of assignments: the old ones and those assigned. -/
theorem mem_keys_replay {d : Dict κ ν} {log : List (κ × ν)} {k : κ} :
    k ∈ (d.replay log).keys ↔ k ∈ d.keys ∨ k ∈ log.map Prod.fst := by
  induction log generalizing d with
  | nil => simp [replay]
  | cons e log ih =>
    have hstep : d.replay (e :: log) = (d.set e.1 e.2).replay log := rfl
    rw [hstep, ih, mem_keys_set, List.map_cons, List.mem_cons, or_assoc]

/-- The first of the keys after a log is the first of the old ones, otherwise the first that is
assigned. -/
theorem find?_keys_replay {d : Dict κ ν} {log : List (κ × ν)} (p : κ → Bool) :
    (d.replay log).keys.find? p = (d.keys ++ log.map Prod.fst).find? p := by
  induction log generalizing d with
  | nil => rw [List.map_nil, List.append_nil]; rfl
  | cons e log ih =>
    have hstep : d.replay (e :: log) = (d.set e.1 e.2).replay log := rfl
    rw [hstep, ih, keys, set, keys_assign, List.map_cons, List.find?_append]
    split
    · rename_i hmem
      rw [List.find?_append, List.find?_cons]
      cases hp : p e.1 with
      | false => rfl
      | true =>
        -- a key that is there comes first
        obtain ⟨k, hk⟩ : ∃ k, (d.entries.map Prod.fst).find? p = some k :=
          Option.isSome_iff_exists.mp (List.find?_isSome.mpr ⟨e.1, hmem, hp⟩)
        rw [keys, hk]
        rfl
    · rw [← List.find?_append, List.append_assoc]
      rfl

/-! ## Logs that repeat their end, and parts of logs -/

/-- Repeating the end of a log leaves every entry as it is. -/
theorem get?_replay_suffix {log log' : List (κ × ν)} (h : log' <:+ log) (d : Dict κ ν) (k : κ) :
    (d.replay (log ++ log')).get? k = (d.replay log).get? k := by
  obtain ⟨before, hbefore⟩ : assigned k log' <:+ assigned k log := (h.filter _).map _
  have happend : assigned k (log ++ log') = assigned k log ++ assigned k log' := by
    rw [assigned, List.filter_append, List.map_append, assigned, assigned]
  rw [get?_replay, get?_replay, happend, ← hbefore, List.getLast?_append, List.getLast?_append]
  cases (assigned k log').getLast? <;> simp

/-- Keys that are there already change nothing in the order of the keys. -/
theorem find?_keys_replay_append {log log' : List (κ × ν)} (h : log' ⊆ log) (d : Dict κ ν)
    (p : κ → Bool) : (d.replay (log ++ log')).keys.find? p = (d.replay log).keys.find? p := by
  rw [find?_keys_replay, find?_keys_replay, List.map_append, ← List.append_assoc,
    List.find?_append]
  cases hfind : (d.keys ++ log.map Prod.fst).find? p with
  | some k => rfl
  | none =>
    rw [Option.none_or, List.find?_eq_none]
    intro k hk
    obtain ⟨e, he, rfl⟩ := List.mem_map.mp hk
    exact List.find?_eq_none.mp hfind e.1
      (List.mem_append_right _ (List.mem_map_of_mem (h he)))

/-- Only the assignments to keys like it matter for a key. -/
theorem get?_replay_filter (log : List (κ × ν)) {p : κ → Bool} {k : κ} (hk : p k = true) :
    (empty.replay (log.filter fun e => p e.1)).get? k = (empty.replay log).get? k := by
  have hassigned : assigned k (log.filter fun e => p e.1) = assigned k log := by
    rw [assigned, assigned, List.filter_filter]
    congr 1
    apply List.filter_congr
    intro e _
    by_cases he : e.1 = k
    · rw [he, hk, Bool.and_true]
    · rw [decide_eq_false he, Bool.false_and]
  rw [get?_replay, get?_replay, hassigned]

theorem find?_keys_replay_filter (log : List (κ × ν)) (p : κ → Bool) :
    (empty.replay (log.filter fun e => p e.1)).keys.find? p
      = (empty.replay log).keys.find? p := by
  have hempty : (empty : Dict κ ν).keys = [] := rfl
  rw [find?_keys_replay, find?_keys_replay, hempty, List.nil_append, List.nil_append,
    List.find?_map, List.find?_map, List.find?_filter]
  simp only [Function.comp_def, and_self, Bool.decide_eq_true]

theorem map_snd_find?_entries (d : Dict κ ν) (p : κ → Bool) :
    (d.entries.find? fun e => p e.1).map Prod.snd = (d.keys.find? p).bind d.get? := by
  rw [keys, List.find?_map, Function.comp_def]
  cases hfind : d.entries.find? fun e => p e.1 with
  | none => rfl
  | some e =>
    have hget := (lookup_eq_some_iff d.nodup).mpr (List.mem_of_find?_eq_some hfind)
    exact hget.symm

/-- `dict.fromkeys(l)`. -/
def fromKeys (l : List κ) : Dict κ Unit := ofList (l.map fun k => (k, ()))

theorem mem_keys_fromKeys {l : List κ} {k : κ} : k ∈ (fromKeys l).keys ↔ k ∈ l := by
  have hreplay : fromKeys l = empty.replay (l.map fun k => (k, ())) := rfl
  rw [hreplay, mem_keys_replay, List.map_map]
  simp [keys, empty]

theorem keys_replay_of_subset {log : List (κ × ν)} {d : Dict κ ν}
    (h : log.map Prod.fst ⊆ d.keys) : (d.replay log).keys = d.keys := by
  induction log generalizing d with
  | nil => rfl
  | cons e log ih =>
    rw [List.map_cons, List.cons_subset] at h
    have hkeys : (d.set e.1 e.2).keys = d.keys := by
      rw [keys, set, keys_assign]
      exact if_pos h.1
    have hstep : d.replay (e :: log) = (d.set e.1 e.2).replay log := rfl
    rw [hstep, ih (hkeys ▸ h.2), hkeys]

/-- What is there already makes no difference. -/
theorem keys_fromKeys_append {l l' : List κ} (h : l' ⊆ l) :
    (fromKeys (l ++ l')).keys = (fromKeys l).keys := by
  have hreplay : fromKeys (l ++ l') = (fromKeys l).replay (l'.map fun k => (k, ())) := by
    rw [fromKeys, List.map_append]
    exact List.foldl_append
  have hkeys : (l'.map fun k => (k, ())).map Prod.fst = l' := by
    rw [List.map_map]
    exact List.map_id l'
  rw [hreplay]
  apply keys_replay_of_subset
  intro k hk
  rw [hkeys] at hk
  exact mem_keys_fromKeys.mpr (h hk)

end Dict

end Lib
