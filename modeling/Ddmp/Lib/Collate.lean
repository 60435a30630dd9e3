import Ddmp.Lib.Dict
import Mathlib.Data.List.Induction

/-!
# Collecting values under their keys

Values come one after another, each with a key of its own; those with the same key are merged into
one. What is kept under a key is the merge of the values with that key, in their order
(`get?_collate`), so that what can be said of a merge can be said of the table, field by field.

Many merges keep of two values the first one that is not empty. `first_perm` says how far such a
merge depends on the order of the values.
-/

namespace Lib

variable {κ α φ : Type} [DecidableEq κ]

/-! ## Merging a list -/

namespace Collate

/-- The values of a list, merged from the left; `none` when there are none. -/
def merged (merge : α → α → α) : List α → Option α
  | [] => none
  | a :: rest => some (rest.foldl merge a)

variable {merge : α → α → α}

theorem merged_concat (l : List α) (a : α) :
    merged merge (l ++ [a]) = some ((merged merge l).elim a (merge · a)) := by
  cases l with
  | nil => rfl
  | cons b rest =>
    rw [List.cons_append, merged, List.foldl_append]
    rfl

theorem merged_eq_none_iff {l : List α} : merged merge l = none ↔ l = [] := by
  cases l with
  | nil => exact ⟨fun _ => rfl, fun _ => rfl⟩
  | cons a rest => exact ⟨fun h => (nomatch h), fun h => (nomatch h)⟩

/-- What holds of every value, and of a merge of two for which it holds, holds of the merge. -/
theorem of_merged {P : α → Prop} (hmerge : ∀ a b, P a → P b → P (merge a b)) {l : List α}
    (hl : ∀ a ∈ l, P a) {r : α} (h : merged merge l = some r) : P r := by
  induction l using List.reverseRecOn generalizing r with
  | nil => cases h
  | append_singleton l a ih =>
    have ha : P a := hl a (List.mem_append_right l List.mem_cons_self)
    rw [merged_concat, Option.some_inj] at h
    cases hm : merged merge l with
    | none =>
      rw [hm] at h
      exact h ▸ ha
    | some b =>
      rw [hm] at h
      exact h ▸ hmerge b a (ih (fun x hx => hl x (List.mem_append_left [a] hx)) hm) ha

/-- A field of a merge, when the merge merges the field. -/
theorem map_merged {f : α → φ} {op : φ → φ → φ} (hf : ∀ a b, f (merge a b) = op (f a) (f b))
    (l : List α) : (merged merge l).map f = merged op (l.map f) := by
  induction l using List.reverseRecOn with
  | nil => rfl
  | append_singleton l a ih =>
    rw [merged_concat, List.map_append, List.map_singleton, merged_concat, ← ih]
    cases merged merge l with
    | none => rfl
    | some b => exact congrArg some (hf b a)

/-- A merge of propositions with `or` is that one of them holds. -/
theorem merged_or {l : List Prop} {p : Prop} (h : merged Or l = some p) : p ↔ ∃ q ∈ l, q := by
  induction l using List.reverseRecOn generalizing p with
  | nil => cases h
  | append_singleton l q ih =>
    rw [merged_concat, Option.some_inj] at h
    simp only [List.mem_append, List.mem_singleton, or_and_right, exists_or, exists_eq_left]
    cases hm : merged Or l with
    | none =>
      obtain rfl := merged_eq_none_iff.mp hm
      obtain rfl : q = p := h
      simp
    | some b =>
      rw [hm] at h
      obtain rfl : (b ∨ q) = p := h
      rw [ih hm]

/-! ## The first value that is not empty -/

/-- The first of two values, unless it is empty. -/
def firstOf (empty : φ → Prop) [DecidablePred empty] (a b : φ) : φ := if empty a then b else a

variable {empty : φ → Prop} [DecidablePred empty]

/-- The last value counts only if it is the only one, or those before it are merged to an empty
one. -/
theorem merged_firstOf_concat {l : List φ} {a r : φ}
    (h : merged (firstOf empty) (l ++ [a]) = some r) : l = [] ∧ r = a
      ∨ ∃ b, merged (firstOf empty) l = some b ∧ (empty b ∧ r = a ∨ ¬ empty b ∧ r = b) := by
  rw [merged_concat, Option.some_inj] at h
  cases hm : merged (firstOf empty) l with
  | none =>
    left
    rw [hm] at h
    exact ⟨merged_eq_none_iff.mp hm, h.symm⟩
  | some b =>
    right
    refine ⟨b, rfl, ?_⟩
    rw [hm] at h
    change (if empty b then a else b) = r at h
    split at h
    · rename_i hb
      exact .inl ⟨hb, h.symm⟩
    · rename_i hb
      exact .inr ⟨hb, h.symm⟩

/-- The merge is one of the values, and empty only if all of them are. -/
theorem first_spec {l : List φ} {r : φ} (h : merged (firstOf empty) l = some r) :
    r ∈ l ∧ (empty r → ∀ a ∈ l, empty a) := by
  induction l using List.reverseRecOn generalizing r with
  | nil => cases h
  | append_singleton l a ih =>
    rcases merged_firstOf_concat h with ⟨rfl, rfl⟩ | ⟨b, hm, hcase⟩
    · exact ⟨List.mem_cons_self, fun hempty x hx => List.mem_singleton.mp hx ▸ hempty⟩
    · obtain ⟨hmem, hall⟩ := ih hm
      rcases hcase with ⟨hb, rfl⟩ | ⟨hb, rfl⟩
      · refine ⟨List.mem_append_right l List.mem_cons_self, ?_⟩
        intro ha x hx
        rcases List.mem_append.mp hx with hx | hx
        · exact hall hb x hx
        · exact List.mem_singleton.mp hx ▸ ha
      · exact ⟨List.mem_append_left [a] hmem, fun hempty => absurd hempty hb⟩

/-- It is the first one that is not empty, if there is one. -/
theorem first_eq_find? {l : List φ} {r : φ} (h : merged (firstOf empty) l = some r)
    (hr : ¬ empty r) : l.find? (fun a => ¬ empty a) = some r := by
  induction l using List.reverseRecOn generalizing r with
  | nil => cases h
  | append_singleton l a ih =>
    rcases merged_firstOf_concat h with ⟨rfl, rfl⟩ | ⟨b, hm, ⟨hb, rfl⟩ | ⟨-, rfl⟩⟩
    · simpa using hr
    · have hnone : l.find? (fun a => ¬ empty a) = none := by
        simpa using (first_spec hm).2 hb
      rw [List.find?_append, hnone]
      simpa using hr
    · rw [List.find?_append, ih hm hr]
      rfl

/-- Of values that agree where they are not empty, the merge does not depend on the order, but for
which of the empty values it is when all are empty. -/
theorem first_perm {l l' : List φ} (hperm : l.Perm l')
    (hagree : ∀ a ∈ l, ∀ b ∈ l, ¬ empty a → ¬ empty b → a = b) {r r' : φ}
    (h : merged (firstOf empty) l = some r) (h' : merged (firstOf empty) l' = some r') :
    r = r' ∨ empty r ∧ empty r' := by
  obtain ⟨hmem, hall⟩ := first_spec h
  obtain ⟨hmem', hall'⟩ := first_spec h'
  rw [← hperm.mem_iff] at hmem'
  by_cases hr : empty r
  · exact .inr ⟨hr, hall hr r' hmem'⟩
  · refine .inl (hagree r hmem r' hmem' hr fun hr' => hr (hall' hr' r ?_))
    exact hperm.mem_iff.mp hmem

/-! ## Tables -/

variable (key : α → κ) (merge : α → α → α)

/-- A value goes under its key, merged behind what is there. -/
def remember (found : Dict κ α) (a : α) : Dict κ α :=
  match found.get? (key a) with
  | none => found.set (key a) a
  | some prev => found.set (key a) (merge prev a)

/-- The table of a list of values. -/
def collate (l : List α) : Dict κ α := l.foldl (remember key merge) .empty

variable {key merge}

theorem get?_remember (found : Dict κ α) (a : α) (k : κ) : (remember key merge found a).get? k
    = if key a = k then some ((found.get? k).elim a (merge · a)) else found.get? k := by
  by_cases hk : key a = k
  · obtain rfl := hk
    rw [if_pos rfl, remember]
    cases found.get? (key a) <;> exact Dict.get?_set_self _ _ _
  · rw [if_neg hk, remember]
    cases found.get? (key a) <;> exact Dict.get?_set_ne _ hk _

/-- Under a key stands the merge of the values with that key. -/
theorem get?_collate (l : List α) (k : κ) :
    (collate key merge l).get? k = merged merge (l.filter (key · = k)) := by
  induction l using List.reverseRecOn with
  | nil => rfl
  | append_singleton l a ih =>
    rw [collate, List.foldl_append, List.foldl_cons, List.foldl_nil, ← collate, get?_remember, ih,
      List.filter_append]
    by_cases hk : key a = k
    · have hone : [a].filter (key · = k) = [a] := by simp [hk]
      rw [if_pos hk, hone, merged_concat]
    · have hnone : [a].filter (key · = k) = [] := by simp [hk]
      rw [if_neg hk, hnone, List.append_nil]

/-- An entry has the key that it stands under, if merging keeps keys. -/
theorem key_of_get?_collate (hkey : ∀ a b, key a = key b → key (merge a b) = key a) {l : List α}
    {k : κ} {e : α} (h : (collate key merge l).get? k = some e) : key e = k := by
  rw [get?_collate] at h
  have hl (a : α) (ha : a ∈ l.filter (key · = k)) : key a = k :=
    of_decide_eq_true (List.mem_filter.mp ha).2
  exact of_merged (fun a b ha hb => (hkey a b (ha.trans hb.symm)).trans ha) hl h

end Collate

end Lib
