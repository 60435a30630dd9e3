import Ddmp.Lib.Dict
import Mathlib.Data.Finset.Dedup

/-!
# Tables whose keys have several spellings

A table is filled under keys as they are spelt. A key that it does not have is looked up by a fold
that identifies all spellings of a key, and may identify more: what is found is what stands under
the first key with the same fold. So it depends on the spelling which entry is found.

`found_eq_of_settled` says when it does not.
-/

namespace Lib

/-- Keys that can be spelt in several ways: `plain` picks one spelling of every key, and `fold`
does not depend on the spelling. -/
structure Spelling (κ φ : Type*) where
  plain : κ → κ
  fold : κ → φ
  plain_plain (k : κ) : plain (plain k) = plain k
  fold_plain (k : κ) : fold (plain k) = fold k

namespace Spelling

open Dict

variable {κ φ ν τ : Type*} (S : Spelling κ φ)

/-- The key has no other spelling. -/
def Fixed (k : κ) : Prop := ∀ k', S.plain k' = S.plain k → k' = k

/-- A log with its keys in their plain spelling. -/
def plainLog (log : List (κ × ν)) : List (κ × ν) := log.map fun e => (S.plain e.1, e.2)

/-- The first entry under a key with the same fold. -/
def first? [DecidableEq φ] (log : List (κ × ν)) (k : κ) : Option (κ × ν) :=
  log.find? fun e => S.fold e.1 = S.fold k

/-- What is found in the table of a log: the last value under the key itself, otherwise the last
one under the first key with the same fold. -/
def found [DecidableEq κ] [DecidableEq φ] (log : List (κ × ν)) (k : κ) : Option ν :=
  (assigned k log).getLast?.or
    ((S.first? log k).bind fun first => (assigned first.1 log).getLast?)

/-- The value is that of an entry which another spelling of the key and of the log may make the one
that is found. An entry with a fixed key is found only if it is the last under that key. The entry
has a spelling of the key; or, if that can miss the key itself, of the first key with the same
fold. -/
def CanBeFound [DecidableEq φ] (log : List (κ × ν)) (k : κ) (v : ν) : Prop :=
  ∃ pre key post, log = pre ++ (key, v) :: post ∧ (S.Fixed key → key ∉ post.map Prod.fst)
    ∧ (S.plain key = S.plain k
      ∨ (S.Fixed k → k ∉ log.map Prod.fst)
        ∧ ∃ first, S.first? log k = some first ∧ S.plain key = S.plain first.1)

/-- Whichever entry is found, its value is the same. -/
def Settled [DecidableEq φ] (log : List (κ × ν)) (k : κ) : Prop :=
  ∀ v w, S.CanBeFound log k v → S.CanBeFound log k w → v = w

variable {S} {log log' pre post : List (κ × ν)} {k k' : κ} {v w : ν}

/-! ## Other spellings -/

theorem fold_eq_of_plain (h : S.plain k' = S.plain k) : S.fold k' = S.fold k := by
  rw [← S.fold_plain k', h, S.fold_plain]

theorem exists_ne_plain (h : ¬ S.Fixed k) : ∃ alt, S.plain alt = S.plain k ∧ alt ≠ S.plain k := by
  simp only [Fixed, not_forall] at h
  obtain ⟨k', hplain, hne⟩ := h
  by_cases hk : k = S.plain k
  · exact ⟨k', hplain, fun hk' => hne (hk'.trans hk.symm)⟩
  · exact ⟨k, rfl, hk⟩

theorem plainLog_append (pre post : List (κ × ν)) :
    S.plainLog (pre ++ post) = S.plainLog pre ++ S.plainLog post := List.map_append

theorem plainLog_cons (k : κ) (v : ν) (post : List (κ × ν)) :
    S.plainLog ((k, v) :: post) = (S.plain k, v) :: S.plainLog post := rfl

theorem plainLog_plainLog (log : List (κ × ν)) : S.plainLog (S.plainLog log) = S.plainLog log := by
  rw [plainLog, plainLog, List.map_map]
  exact List.map_congr_left fun e _ => Prod.ext (S.plain_plain e.1) rfl

theorem map_plain_map_plain (keys : List κ) :
    (keys.map S.plain).map S.plain = keys.map S.plain := by
  rw [List.map_map]
  exact List.map_congr_left fun j _ => S.plain_plain j

theorem plain_of_mem_map {keys : List κ} (h : k ∈ keys.map S.plain) : S.plain k = k := by
  obtain ⟨q, -, rfl⟩ := List.mem_map.mp h
  exact S.plain_plain q

theorem plain_of_mem_plainLog {e : κ × ν} (h : e ∈ S.plainLog log) : S.plain e.1 = e.1 := by
  obtain ⟨e, -, rfl⟩ := List.mem_map.mp h
  exact S.plain_plain e.1

/-- All keys but one in their plain spelling. -/
theorem map_plain_middle (x y : List κ) {c k : κ} (hc : S.plain c = S.plain k) :
    (x.map S.plain ++ c :: y.map S.plain).map S.plain = (x ++ k :: y).map S.plain := by
  rw [List.map_append, List.map_append, List.map_cons, List.map_cons, map_plain_map_plain,
    map_plain_map_plain, hc]

/-- Where an entry stands in one spelling there is one in the other. -/
theorem exists_entry_of_plainLog (h : S.plainLog log = S.plainLog (pre ++ (k, v) :: post)) :
    ∃ pre' k' post', log = pre' ++ (k', v) :: post' ∧ S.plain k' = S.plain k
      ∧ S.plainLog post' = S.plainLog post := by
  rw [plainLog_append, plainLog_cons] at h
  obtain ⟨pre', tail, rfl, -, htail⟩ := List.map_eq_append_iff.mp h
  obtain ⟨⟨k', v'⟩, post', rfl, hentry, hpost⟩ := List.map_eq_cons_iff.mp htail
  obtain ⟨hkey, rfl⟩ := Prod.mk.inj hentry
  exact ⟨pre', k', post', rfl, hkey, hpost⟩

/-- The key of an entry, in another spelling. -/
theorem exists_key_of_plainLog (h : S.plainLog log' = S.plainLog log)
    (hk : k ∈ log.map Prod.fst) : ∃ k' ∈ log'.map Prod.fst, S.plain k' = S.plain k := by
  obtain ⟨⟨_, v⟩, he, rfl⟩ := List.mem_map.mp hk
  obtain ⟨pre, post, rfl⟩ := List.append_of_mem he
  obtain ⟨pre', k', post', rfl, hkey, -⟩ := exists_entry_of_plainLog h
  exact ⟨k', List.mem_map.mpr ⟨(k', v), by simp, rfl⟩, hkey⟩

theorem Fixed.mem_of_plainLog (hk : S.Fixed k) (h : S.plainLog log' = S.plainLog log)
    (hmem : k ∈ log.map Prod.fst) : k ∈ log'.map Prod.fst := by
  obtain ⟨k', hk', hkey⟩ := exists_key_of_plainLog h hmem
  exact hk k' hkey ▸ hk'

section first

variable [DecidableEq φ]

theorem fold_of_first? {first : κ × ν} (h : S.first? log k = some first) :
    S.fold first.1 = S.fold k := by
  have hfold := List.find?_some h
  exact of_decide_eq_true hfold

theorem first?_congr (h : S.fold k' = S.fold k) : S.first? log k' = S.first? log k := by
  rw [first?, first?, h]

theorem isSome_first?_iff : (S.first? log k).isSome ↔ ∃ e ∈ log, S.fold e.1 = S.fold k := by
  simp only [first?, List.find?_isSome, decide_eq_true_eq]

/-- The first entry with the same fold is the same in all spellings. -/
theorem first?_plainLog (h : S.plainLog log' = S.plainLog log) (hk : S.fold k' = S.fold k) :
    (S.first? log' k').map (fun e => (S.plain e.1, e.2))
      = (S.first? log k).map fun e => (S.plain e.1, e.2) := by
  have hplain (log : List (κ × ν)) (k : κ) :
      (S.first? log k).map (fun e => (S.plain e.1, e.2)) = S.first? (S.plainLog log) k := by
    rw [first?, first?, plainLog, List.find?_map]
    congr 2
    funext e
    simp only [Function.comp_apply, S.fold_plain]
  rw [hplain, hplain, h, first?, first?, hk]

/-- Where all values are the same any lookup is settled. -/
theorem settled_of_forall_eq {u : ν} (h : ∀ e ∈ log, e.2 = u) : S.Settled log k := by
  have hvalue {v : ν} (hv : S.CanBeFound log k v) : v = u := by
    obtain ⟨pre, key, post, rfl, -⟩ := hv
    exact h (key, v) (List.mem_append_right pre List.mem_cons_self)
  exact fun v w hv hw => (hvalue hv).trans (hvalue hw).symm

theorem CanBeFound.isSome_first? (h : S.CanBeFound log k v) : (S.first? log k).isSome := by
  obtain ⟨pre, key, post, rfl, -, hsame | ⟨-, first, hfirst, -⟩⟩ := h
  · exact isSome_first?_iff.mpr ⟨(key, v), by simp, fold_eq_of_plain hsame⟩
  · exact Option.isSome_of_eq_some hfirst

/-- What can be found in one spelling can be found in any other. -/
theorem CanBeFound.of_plainLog (hv : S.CanBeFound log' k' v)
    (hlog : S.plainLog log = S.plainLog log') (hk : S.plain k = S.plain k') :
    S.CanBeFound log k v := by
  obtain ⟨pre', key', post', rfl, hlast, hfound⟩ := hv
  obtain ⟨pre, key, post, rfl, hkey, hpost⟩ := exists_entry_of_plainLog hlog
  refine ⟨pre, key, post, rfl, fun hfixed hmem => ?_, ?_⟩
  · obtain rfl := hfixed key' hkey.symm
    exact hlast hfixed (hfixed.mem_of_plainLog hpost.symm hmem)
  · rcases hfound with hsame | ⟨hmiss, first', hfirst', hsame⟩
    · exact .inl (hkey.trans (hsame.trans hk.symm))
    · have hfirst := first?_plainLog hlog (fold_eq_of_plain hk)
      rw [hfirst', Option.map_some, Option.map_eq_some_iff] at hfirst
      obtain ⟨first, hfirst, heq⟩ := hfirst
      have hplain : S.plain first.1 = S.plain first'.1 := (Prod.mk.inj heq).1
      refine .inr ⟨fun hfixed hmem => ?_, first, hfirst, hkey.trans (hsame.trans hplain.symm)⟩
      obtain rfl := hfixed k' hk.symm
      exact hmiss hfixed (hfixed.mem_of_plainLog hlog.symm hmem)

end first

/-! ## Entries of a log -/

variable [DecidableEq κ]

theorem assigned_eq_nil_iff : assigned k log = [] ↔ k ∉ log.map Prod.fst := by
  refine ⟨fun h hk => ?_, assigned_of_not_mem⟩
  obtain ⟨e, he, hk⟩ := List.mem_map.mp hk
  rw [assigned, List.map_eq_nil_iff, List.filter_eq_nil_iff] at h
  exact h e he (decide_eq_true hk)

theorem exists_last (h : (assigned k log).getLast? = some v) :
    ∃ pre post, log = pre ++ (k, v) :: post ∧ k ∉ post.map Prod.fst := by
  induction log with
  | nil => cases h
  | cons e log ih =>
    rw [assigned_cons] at h
    cases hlast : (assigned k log).getLast? with
    | some w =>
      have hw : w = v := by
        split at h
        · rw [List.getLast?_cons, hlast] at h
          exact Option.some.inj h
        · exact Option.some.inj (hlast.symm.trans h)
      obtain ⟨pre, post, rfl, hpost⟩ := ih (hw ▸ hlast)
      exact ⟨e :: pre, post, rfl, hpost⟩
    | none =>
      split at h
      · rename_i hkey
        rw [List.getLast?_cons, hlast] at h
        refine ⟨[], log, ?_, assigned_eq_nil_iff.mp (List.getLast?_eq_none_iff.mp hlast)⟩
        rw [List.nil_append, ← hkey, ← Option.some.inj h]
        rfl
      · rw [hlast] at h
        cases h

theorem getLast?_assigned_of_last (pre : List (κ × ν)) (v : ν) (hpost : k ∉ post.map Prod.fst) :
    (assigned k (pre ++ (k, v) :: post)).getLast? = some v := by
  have hsplit : assigned k (pre ++ (k, v) :: post) = assigned k pre ++ [v] := by
    rw [assigned, List.filter_append, List.map_append, ← assigned, ← assigned, assigned_cons,
      if_pos rfl, assigned_of_not_mem hpost]
  rw [hsplit, List.getLast?_append, List.getLast?_singleton]
  rfl

theorem isSome_getLast?_assigned (hk : k ∈ log.map Prod.fst) :
    (assigned k log).getLast?.isSome := by
  rw [List.getLast?_isSome, Ne, assigned_eq_nil_iff, not_not]
  exact hk

/-! ## What is found -/

variable [DecidableEq φ]

theorem found_of_last (hpost : k ∉ post.map Prod.fst) :
    S.found (pre ++ (k, v) :: post) k = some v := by
  rw [found, getLast?_assigned_of_last pre v hpost]
  rfl

theorem found_of_not_mem (h : k ∉ log.map Prod.fst) :
    S.found log k = (S.first? log k).bind fun first => (assigned first.1 log).getLast? := by
  rw [found, assigned_of_not_mem h]
  rfl

/-- Values that are mapped are found mapped. -/
theorem found_map {α : Type*} (g : ν → α) (log : List (κ × ν)) (k : κ) :
    S.found (log.map fun e => (e.1, g e.2)) k = (S.found log k).map g := by
  have hlast (k : κ) :
      (assigned k (log.map fun e => (e.1, g e.2))).getLast? = (assigned k log).getLast?.map g := by
    rw [assigned, assigned, List.filter_map, List.map_map, ← List.getLast?_map, List.map_map]
    rfl
  have hfirst : S.first? (log.map fun e => (e.1, g e.2)) k
      = (S.first? log k).map fun e => (e.1, g e.2) := List.find?_map ..
  rw [found, found, hlast, hfirst]
  cases (assigned k log).getLast? with
  | some v => rfl
  | none =>
    cases S.first? log k with
    | none => rfl
    | some first => exact hlast first.1

/-- Something is found if there is a key with the same fold. -/
theorem isSome_found (log : List (κ × ν)) (k : κ) :
    (S.found log k).isSome = (S.first? log k).isSome := by
  have hlast {e : κ × ν} (he : e ∈ log) : (assigned e.1 log).getLast?.isSome :=
    isSome_getLast?_assigned (List.mem_map.mpr ⟨e, he, rfl⟩)
  by_cases hk : k ∈ log.map Prod.fst
  · obtain ⟨e, he, rfl⟩ := List.mem_map.mp hk
    rw [found, Option.isSome_or, hlast he, isSome_first?_iff.mpr ⟨e, he, rfl⟩, Bool.true_or]
  · rw [found_of_not_mem hk]
    cases hfirst : S.first? log k with
    | none => rfl
    | some first => exact hlast (List.mem_of_find?_eq_some hfirst)

/-- What is found can be found. -/
theorem canBeFound_of_found (h : S.found log k = some v) : S.CanBeFound log k v := by
  by_cases hk : k ∈ log.map Prod.fst
  · obtain ⟨w, hlast⟩ := Option.isSome_iff_exists.mp (isSome_getLast?_assigned hk)
    rw [found, hlast, Option.some_or] at h
    obtain ⟨pre, post, hlog, hpost⟩ := exists_last (hlast.trans h)
    exact ⟨pre, k, post, hlog, fun _ => hpost, .inl rfl⟩
  · rw [found_of_not_mem hk] at h
    obtain ⟨first, hfirst, hlast⟩ := Option.bind_eq_some_iff.mp h
    obtain ⟨pre, post, hlog, hpost⟩ := exists_last hlast
    exact ⟨pre, first.1, post, hlog, fun _ => hpost, .inr ⟨fun _ => hk, first, hfirst, rfl⟩⟩

theorem isSome_found_plainLog (hlog : S.plainLog log' = S.plainLog log)
    (hk : S.fold k' = S.fold k) : (S.found log' k').isSome = (S.found log k).isSome := by
  have hfirst := congrArg Option.isSome (first?_plainLog hlog hk)
  rwa [Option.isSome_map, Option.isSome_map, ← isSome_found, ← isSome_found] at hfirst

/-- A lookup that is settled finds the same in all spellings. -/
theorem found_eq_of_settled (h : S.Settled log k) (hlog : S.plainLog log' = S.plainLog log)
    (hk : S.plain k' = S.plain k) : S.found log' k' = S.found log k := by
  have hsome := isSome_found_plainLog hlog (fold_eq_of_plain hk)
  cases hv : S.found log k with
  | none =>
    rw [hv] at hsome
    exact Option.not_isSome_iff_eq_none.mp (Bool.not_eq_true _ ▸ hsome)
  | some v =>
    rw [hv] at hsome
    obtain ⟨w, hw⟩ := Option.isSome_iff_exists.mp hsome
    have hcan := (canBeFound_of_found hw).of_plainLog hlog.symm hk.symm
    rw [hw, h w v hcan (canBeFound_of_found hv)]

end Spelling

end Lib
