import Mathlib.Data.List.Basic
import Mathlib.Tactic.Common

/-!
# Registries of calls in progress

A registry keeps a slot for every call that has been made and the list of the calls that are
still live. Others may act on all live calls at once (`each`), on a single one (`update`), and
a call leaves by `close`. A registry is `Sound` when its live calls are exactly the open ones,
each listed once; every operation keeps it so, provided that it opens and closes slots as it
says.
-/

namespace Lib

/-- A slot for every call made so far, and the numbers of the live ones. -/
structure Registry (α : Type*) where
  slots : List α := []
  live : List ℕ := []

namespace Registry

variable {α : Type*}

/-- A new live call, in the next slot. -/
def add (r : Registry α) (a : α) : Registry α where
  slots := r.slots ++ [a]
  live := r.live ++ [r.slots.length]

/-- Change one slot. -/
def update (r : Registry α) (i : ℕ) (f : α → α) : Registry α :=
  { r with slots := r.slots.modify i f }

/-- Change one slot and take the call off the live ones. -/
def close (r : Registry α) (i : ℕ) (f : α → α) : Registry α where
  slots := r.slots.modify i f
  live := r.live.erase i

/-- Change the slots of all live calls, one after another. -/
def each (r : Registry α) (f : α → α) : Registry α :=
  { r with slots := r.live.foldl (fun slots i => slots.modify i f) r.slots }

/-! ## The slots after an operation -/

theorem getElem?_modify_self {l : List α} {i : ℕ} {f : α → α} {a : α} (h : l[i]? = some a) :
    (l.modify i f)[i]? = some (f a) := by
  rw [List.getElem?_modify, h]
  simp only [if_true, Option.map_eq_map, Option.map_some]

/-- A changed list has the old entries, and the new one in place of the changed one. -/
theorem mem_modify {l : List α} {i : ℕ} {f : α → α} {b : α} (h : b ∈ l.modify i f) :
    b ∈ l ∨ ∃ a, l[i]? = some a ∧ b = f a := by
  obtain ⟨j, hj⟩ := List.mem_iff_getElem?.mp h
  by_cases hij : i = j
  · subst hij
    cases ha : l[i]? with
    | none =>
      rw [List.getElem?_modify, ha] at hj
      exact nomatch hj
    | some a =>
      rw [getElem?_modify_self ha] at hj
      exact .inr ⟨a, rfl, (Option.some.inj hj).symm⟩
  · rw [List.getElem?_modify_ne _ _ hij] at hj
    exact .inl (List.mem_of_getElem? hj)

theorem getElem?_foldl_modify (f : α → α) {is : List ℕ} (hnodup : is.Nodup) (slots : List α)
    (j : ℕ) :
    (is.foldl (fun slots i => slots.modify i f) slots)[j]?
      = if j ∈ is then slots[j]?.map f else slots[j]? := by
  induction is generalizing slots with
  | nil => simp
  | cons i is ih =>
    have ⟨hi, his⟩ := List.nodup_cons.mp hnodup
    rw [List.foldl_cons, ih his]
    by_cases hij : i = j
    · -- slot `i` is changed first and not again
      subst hij
      rw [if_neg hi, if_pos List.mem_cons_self, List.getElem?_modify]
      simp
    · rw [List.getElem?_modify_ne _ _ hij]
      simp only [List.mem_cons, Ne.symm hij, false_or]

theorem getElem?_each {r : Registry α} (hnodup : r.live.Nodup) (f : α → α) (j : ℕ) :
    (r.each f).slots[j]? = if j ∈ r.live then r.slots[j]?.map f else r.slots[j]? :=
  getElem?_foldl_modify f hnodup r.slots j

/-- After `each`, a slot is as before or changed once. -/
theorem mem_each {r : Registry α} (hnodup : r.live.Nodup) {f : α → α} {b : α}
    (h : b ∈ (r.each f).slots) : ∃ a ∈ r.slots, b = a ∨ b = f a := by
  obtain ⟨j, hj⟩ := List.mem_iff_getElem?.mp h
  rw [getElem?_each hnodup] at hj
  split at hj
  · obtain ⟨a, ha, rfl⟩ := Option.map_eq_some_iff.mp hj
    exact ⟨a, List.mem_of_getElem? ha, .inr rfl⟩
  · exact ⟨b, List.mem_of_getElem? hj, .inl rfl⟩

/-- A property of all slots is kept when one of them is changed in a way that keeps it. -/
theorem forall_mem_modify {l : List α} {P : α → Prop} {i : ℕ} {f : α → α}
    (h : ∀ a ∈ l, P a) (hf : ∀ a, l[i]? = some a → P (f a)) : ∀ a ∈ l.modify i f, P a := by
  intro b hb
  rcases mem_modify hb with hb | ⟨a, ha, rfl⟩
  · exact h b hb
  · exact hf a ha

theorem forall_mem_add {r : Registry α} {P : α → Prop} {a : α} (h : ∀ a ∈ r.slots, P a)
    (ha : P a) : ∀ b ∈ (r.add a).slots, P b := by
  intro b hb
  rcases List.mem_append.mp hb with hb | hb
  · exact h b hb
  · rw [List.mem_singleton.mp hb]
    exact ha

/-! ## Sound registries -/

/-- The live calls are the open ones, each listed once. -/
structure Sound (isOpen : α → Prop) (r : Registry α) : Prop where
  nodup : r.live.Nodup
  mem_live : ∀ i, i ∈ r.live ↔ ∃ a, r.slots[i]? = some a ∧ isOpen a

variable {isOpen : α → Prop} {r : Registry α}

theorem sound_empty : Sound isOpen ({} : Registry α) where
  nodup := List.nodup_nil
  mem_live := fun _ => ⟨fun h => absurd h List.not_mem_nil, fun ⟨_, h, _⟩ => (nomatch h)⟩

theorem Sound.lt_length (h : r.Sound isOpen) {i : ℕ} (hi : i ∈ r.live) : i < r.slots.length := by
  obtain ⟨a, ha, -⟩ := (h.mem_live i).mp hi
  exact (List.getElem?_eq_some_iff.mp ha).1

theorem Sound.add (h : r.Sound isOpen) {a : α} (ha : isOpen a) : (r.add a).Sound isOpen where
  nodup := by
    refine List.nodup_append.mpr ⟨h.nodup, List.pairwise_singleton _ _, ?_⟩
    intro i hi j hj hij
    have := h.lt_length hi
    rw [List.mem_singleton] at hj
    omega
  mem_live := by
    intro i
    show i ∈ r.live ++ [r.slots.length] ↔ ∃ b, (r.slots ++ [a])[i]? = some b ∧ isOpen b
    rw [List.mem_append, List.mem_singleton]
    -- an old slot, the new one, or none
    rcases Nat.lt_trichotomy i r.slots.length with hi | hi | hi
    · rw [List.getElem?_append_left hi, h.mem_live i]
      simp only [Nat.ne_of_lt hi, or_false]
    · subst hi
      simp [ha]
    · have hlive : i ∉ r.live := fun hmem => by
        have := h.lt_length hmem
        omega
      have hnone : (r.slots ++ [a])[i]? = none := by
        rw [List.getElem?_eq_none_iff, List.length_append, List.length_singleton]
        omega
      simp [hlive, Nat.ne_of_gt hi, hnone]

theorem Sound.update (h : r.Sound isOpen) {i : ℕ} {f : α → α}
    (hf : ∀ a, r.slots[i]? = some a → (isOpen (f a) ↔ isOpen a)) :
    (r.update i f).Sound isOpen where
  nodup := h.nodup
  mem_live := by
    intro j
    show j ∈ r.live ↔ ∃ b, (r.slots.modify i f)[j]? = some b ∧ isOpen b
    rw [h.mem_live j]
    by_cases hij : i = j
    · subst hij
      cases ha : r.slots[i]? with
      | none => simp [ha]
      | some a => simp [getElem?_modify_self ha, hf a ha]
    · rw [List.getElem?_modify_ne _ _ hij]

theorem Sound.close (h : r.Sound isOpen) {i : ℕ} {f : α → α} (hf : ∀ a, ¬ isOpen (f a)) :
    (r.close i f).Sound isOpen where
  nodup := h.nodup.erase i
  mem_live := by
    intro j
    show j ∈ r.live.erase i ↔ ∃ b, (r.slots.modify i f)[j]? = some b ∧ isOpen b
    rw [h.nodup.mem_erase_iff]
    by_cases hij : i = j
    · subst hij
      cases ha : r.slots[i]? with
      | none => simp [ha]
      | some a => simp [getElem?_modify_self ha, hf a]
    · rw [List.getElem?_modify_ne _ _ hij, h.mem_live j]
      simp only [Ne.symm hij, ne_eq, not_false_eq_true, true_and]

theorem Sound.each (h : r.Sound isOpen) {f : α → α} (hf : ∀ a, isOpen (f a) ↔ isOpen a) :
    (r.each f).Sound isOpen where
  nodup := h.nodup
  mem_live := by
    intro j
    show j ∈ r.live ↔ _
    rw [getElem?_each h.nodup]
    by_cases hj : j ∈ r.live
    · obtain ⟨a, ha, hopen⟩ := (h.mem_live j).mp hj
      simp [hj, ha, hf a, hopen]
    · rw [if_neg hj, h.mem_live j]

/-! ## Properties of the live calls -/

/-- Every live call has the property. -/
def AllLive (P : α → Prop) (r : Registry α) : Prop :=
  ∀ i ∈ r.live, ∀ a, r.slots[i]? = some a → P a

variable {P : α → Prop}

theorem AllLive.add (h : r.AllLive P) (hsound : r.Sound isOpen) {a : α} (ha : P a) :
    (r.add a).AllLive P := by
  intro i hi b hb
  have hb : (r.slots ++ [a])[i]? = some b := hb
  rcases List.mem_append.mp hi with hi | hi
  · rw [List.getElem?_append_left (hsound.lt_length hi)] at hb
    exact h i hi b hb
  · rw [List.mem_singleton.mp hi, List.getElem?_concat_length, Option.some_inj] at hb
    exact hb ▸ ha

theorem AllLive.each (h : r.AllLive P) (hnodup : r.live.Nodup) {f : α → α}
    (hf : ∀ a, P a → P (f a)) : (r.each f).AllLive P := by
  intro i hi b hb
  have hi : i ∈ r.live := hi
  rw [getElem?_each hnodup, if_pos hi] at hb
  obtain ⟨a, ha, rfl⟩ := Option.map_eq_some_iff.mp hb
  exact hf a (h i hi a ha)

theorem AllLive.update (h : r.AllLive P) {i : ℕ} {f : α → α} (hf : ∀ a, P a → P (f a)) :
    (r.update i f).AllLive P := by
  intro j hj b hb
  have hb : (r.slots.modify i f)[j]? = some b := hb
  by_cases hij : i = j
  · subst hij
    cases ha : r.slots[i]? with
    | none =>
      rw [List.getElem?_modify, ha] at hb
      exact nomatch hb
    | some a =>
      rw [getElem?_modify_self ha, Option.some_inj] at hb
      exact hb ▸ hf a (h i hj a ha)
  · rw [List.getElem?_modify_ne _ _ hij] at hb
    exact h j hj b hb

/-- The calls that stay live are not changed. -/
theorem AllLive.close (h : r.AllLive P) (hnodup : r.live.Nodup) (i : ℕ) (f : α → α) :
    (r.close i f).AllLive P := by
  intro j hj b hb
  obtain ⟨hji, hj⟩ := hnodup.mem_erase_iff.mp hj
  have hb : (r.slots.modify i f)[j]? = some b := hb
  rw [List.getElem?_modify_ne _ _ (Ne.symm hji)] at hb
  exact h j hj b hb

/-- A call that ends as soon as it has been added leaves the live calls as they were. -/
theorem live_add_close (h : r.Sound isOpen) (a : α) (f : α → α) :
    ((r.add a).close r.slots.length f).live = r.live := by
  have hnot : r.slots.length ∉ r.live := fun hmem => Nat.lt_irrefl _ (h.lt_length hmem)
  show (r.live ++ [r.slots.length]).erase r.slots.length = r.live
  rw [List.erase_append_right _ hnot, List.erase_cons_head, List.append_nil]

theorem AllLive.add_close (hall : r.AllLive P) (h : r.Sound isOpen) (a : α) (f : α → α) :
    ((r.add a).close r.slots.length f).AllLive P := by
  intro j hj b hb
  rw [live_add_close h] at hj
  have hlt := h.lt_length hj
  have hb : ((r.slots ++ [a]).modify r.slots.length f)[j]? = some b := hb
  rw [List.getElem?_modify_ne _ _ (Nat.ne_of_gt hlt), List.getElem?_append_left hlt] at hb
  exact hall j hj b hb

/-- What a change brings about holds of all live calls after it. -/
theorem allLive_each (hnodup : r.live.Nodup) {f : α → α} (hf : ∀ a, P (f a)) :
    (r.each f).AllLive P := by
  intro j hj b hb
  have hj : j ∈ r.live := hj
  rw [getElem?_each hnodup, if_pos hj] at hb
  obtain ⟨a, -, rfl⟩ := Option.map_eq_some_iff.mp hb
  exact hf a

/-! ## Counting slots -/

/-- The change `f` makes slot `i` satisfy `p`. -/
def Turns (p : α → Bool) (f : α → α) (l : List α) (i : ℕ) : Prop :=
  ∃ a, l[i]? = some a ∧ p a = false ∧ p (f a) = true

variable {p : α → Bool} {f : α → α}

theorem countP_modify_le {l : List α} {i : ℕ} (h : ¬ Turns p f l i) :
    (l.modify i f).countP p ≤ l.countP p := by
  induction l generalizing i with
  | nil => simp
  | cons a l ih =>
    cases i with
    | zero =>
      rw [List.modify_zero_cons, List.countP_cons, List.countP_cons]
      have hkeep : p (f a) = true → p a = true := by
        intro hfa
        by_contra ha
        exact h ⟨a, rfl, Bool.eq_false_iff.mpr ha, hfa⟩
      by_cases hfa : p (f a) = true
      · simp only [hfa, hkeep hfa, if_true, Nat.le_refl]
      · rw [if_neg hfa]
        omega
    | succ i =>
      have hrest : ¬ Turns p f l i := fun ⟨b, hb, hturn⟩ => h ⟨b, hb, hturn⟩
      have := ih hrest
      rw [List.modify_succ_cons, List.countP_cons, List.countP_cons]
      omega

theorem countP_modify_le_succ (l : List α) (i : ℕ) :
    (l.modify i f).countP p ≤ l.countP p + 1 := by
  induction l generalizing i with
  | nil => simp
  | cons a l ih =>
    cases i with
    | zero =>
      rw [List.modify_zero_cons, List.countP_cons, List.countP_cons]
      split <;> split <;> omega
    | succ i =>
      have := ih i
      rw [List.modify_succ_cons, List.countP_cons, List.countP_cons]
      omega

/-- A slot turns as before after another one has been changed. -/
theorem turns_modify_ne {l : List α} {i j : ℕ} (hij : i ≠ j) (h : Turns p f (l.modify i f) j) :
    Turns p f l j := by
  obtain ⟨a, ha, hturn⟩ := h
  rw [List.getElem?_modify_ne _ _ hij] at ha
  exact ⟨a, ha, hturn⟩

theorem countP_foldl_modify_le {is : List ℕ} (hnodup : is.Nodup) {slots : List α}
    (h : ∀ i ∈ is, ¬ Turns p f slots i) :
    (is.foldl (fun slots i => slots.modify i f) slots).countP p ≤ slots.countP p := by
  induction is generalizing slots with
  | nil => exact Nat.le_refl _
  | cons i is ih =>
    have ⟨hi, his⟩ := List.nodup_cons.mp hnodup
    have hrest : ∀ j ∈ is, ¬ Turns p f (slots.modify i f) j := by
      intro j hj hturn
      have hij : i ≠ j := fun heq => hi (heq ▸ hj)
      exact h j (List.mem_cons_of_mem i hj) (turns_modify_ne hij hturn)
    exact Nat.le_trans (ih his hrest) (countP_modify_le (h i List.mem_cons_self))

theorem countP_foldl_modify_le_succ {is : List ℕ} (hnodup : is.Nodup) {slots : List α}
    (h : ∀ i ∈ is, ∀ j ∈ is, Turns p f slots i → Turns p f slots j → i = j) :
    (is.foldl (fun slots i => slots.modify i f) slots).countP p ≤ slots.countP p + 1 := by
  induction is generalizing slots with
  | nil => exact Nat.le_succ _
  | cons i is ih =>
    have ⟨hi, his⟩ := List.nodup_cons.mp hnodup
    have hne : ∀ j ∈ is, i ≠ j := fun j hj heq => hi (heq ▸ hj)
    rw [List.foldl_cons]
    by_cases hturn : Turns p f slots i
    · -- slot `i` turns, so no later one does
      have hrest : ∀ j ∈ is, ¬ Turns p f (slots.modify i f) j := by
        intro j hj hturn'
        refine hne j hj (h i List.mem_cons_self j (List.mem_cons_of_mem i hj) hturn ?_)
        exact turns_modify_ne (hne j hj) hturn'
      exact Nat.le_trans (countP_foldl_modify_le his hrest) (countP_modify_le_succ slots i)
    · have hrest : ∀ j ∈ is, ∀ k ∈ is, Turns p f (slots.modify i f) j →
          Turns p f (slots.modify i f) k → j = k := fun j hj k hk hj' hk' =>
        h j (List.mem_cons_of_mem i hj) k (List.mem_cons_of_mem i hk)
          (turns_modify_ne (hne j hj) hj') (turns_modify_ne (hne k hk) hk')
      have hone := ih his hrest
      have hzero := countP_modify_le hturn
      omega

/-- When no live slot turns, `each` adds none to those that satisfy `p`. -/
theorem countP_each_le (hnodup : r.live.Nodup) (h : ∀ i ∈ r.live, ¬ Turns p f r.slots i) :
    (r.each f).slots.countP p ≤ r.slots.countP p :=
  countP_foldl_modify_le hnodup h

/-- When at most one live slot turns, `each` adds at most one. -/
theorem countP_each_le_succ (hnodup : r.live.Nodup)
    (h : ∀ i ∈ r.live, ∀ j ∈ r.live, Turns p f r.slots i → Turns p f r.slots j → i = j) :
    (r.each f).slots.countP p ≤ r.slots.countP p + 1 :=
  countP_foldl_modify_le_succ hnodup h

end Registry

end Lib
