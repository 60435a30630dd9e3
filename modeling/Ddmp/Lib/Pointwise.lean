import Mathlib.Data.List.Forall2
import Mathlib.Tactic.Common

/-!
# Lists related entry by entry

`List.Forall₂` under changes of one entry: replacing an entry on both sides, going through a
third list, and telling two different lists apart over one entry.
-/

namespace Lib.Pointwise

variable {α β γ : Type}

/-- Replacing one entry on both sides keeps two lists related. -/
theorem forall₂_set {R : α → β → Prop} {f : γ → α} {g : γ → β} {l : List γ}
    (h : ∀ x ∈ l, R (f x) (g x)) (i : ℕ) {a : α} {b : β} (hab : R a b) :
    List.Forall₂ R ((l.map f).set i a) ((l.map g).set i b) := by
  induction l generalizing i with
  | nil => exact .nil
  | cons x l ih =>
    have hrest : ∀ y ∈ l, R (f y) (g y) := fun y hy => h y (List.mem_cons_of_mem x hy)
    cases i with
    | zero =>
      refine .cons hab ?_
      rw [List.forall₂_map_left_iff, List.forall₂_map_right_iff, List.forall₂_same]
      exact hrest
    | succ i => exact .cons (h x List.mem_cons_self) (ih hrest i)

/-- A relation may use where the entries are from. -/
theorem forall₂_of_mem {R S : α → β → Prop} {as : List α} {bs : List β}
    (h : List.Forall₂ R as bs) (hS : ∀ a ∈ as, ∀ b ∈ bs, R a b → S a b) :
    List.Forall₂ S as bs := by
  induction h with
  | nil => exact .nil
  | cons hab _ ih =>
    refine .cons (hS _ List.mem_cons_self _ List.mem_cons_self hab) (ih fun a ha b hb => ?_)
    exact hS a (List.mem_cons_of_mem _ ha) b (List.mem_cons_of_mem _ hb)

theorem exists_of_mem {R : α → β → Prop} {as : List α} {bs : List β} (h : List.Forall₂ R as bs)
    {b : β} (hb : b ∈ bs) : ∃ a ∈ as, R a b := by
  induction h with
  | nil => exact absurd hb List.not_mem_nil
  | cons hab _ ih =>
    rcases List.mem_cons.mp hb with rfl | hb
    · exact ⟨_, List.mem_cons_self, hab⟩
    · obtain ⟨a, ha, hab⟩ := ih hb
      exact ⟨a, List.mem_cons_of_mem _ ha, hab⟩

/-- Choices from related entries that agree. -/
theorem filterMap_eq {f : α → Option γ} {g : β → Option γ} {as : List α} {bs : List β}
    (h : List.Forall₂ (fun a b => g b = f a) as bs) : bs.filterMap g = as.filterMap f := by
  induction h with
  | nil => rfl
  | cons hab _ ih => rw [List.filterMap_cons, List.filterMap_cons, hab, ih]

theorem exists_of_forall₂_append {R : α → β → Prop} {as as' : List α} {bs : List β}
    (h : List.Forall₂ R (as ++ as') bs) :
    ∃ cs cs', bs = cs ++ cs' ∧ List.Forall₂ R as cs ∧ List.Forall₂ R as' cs' := by
  refine ⟨bs.take as.length, bs.drop as.length, (List.take_append_drop _ _).symm, ?_, ?_⟩
  · exact (List.forall₂_take_append bs as as' h.flip).flip
  · exact (List.forall₂_drop_append bs as as' h.flip).flip

/-- A list that is related to the choices from another one is itself chosen from a list, if every
choice that is related to one from an entry is one from a counterpart of the entry. -/
theorem exists_of_forall₂_filterMap {δ : Type} {R : γ → δ → Prop} {Q : α → β → Prop}
    {f : α → Option γ} {g : β → Option δ} {as : List α} {cs : List δ}
    (hlift : ∀ a ∈ as, ∀ o, Option.Rel R (f a) o → ∃ b, Q a b ∧ g b = o)
    (h : List.Forall₂ R (as.filterMap f) cs) :
    ∃ bs, List.Forall₂ Q as bs ∧ bs.filterMap g = cs := by
  induction as generalizing cs with
  | nil =>
    cases h
    exact ⟨[], .nil, rfl⟩
  | cons a as ih =>
    rw [List.forall_mem_cons] at hlift
    cases hf : f a with
    | none =>
      rw [List.filterMap_cons_none hf] at h
      obtain ⟨b, hb, hg⟩ := hlift.1 none (hf ▸ .none)
      obtain ⟨bs, hbs, rfl⟩ := ih hlift.2 h
      exact ⟨b :: bs, .cons hb hbs, List.filterMap_cons_none hg⟩
    | some c =>
      rw [List.filterMap_cons_some hf] at h
      cases h with
      | @cons _ d _ _ hcd hrest =>
        obtain ⟨b, hb, hg⟩ := hlift.1 (some d) (hf ▸ .some hcd)
        obtain ⟨bs, hbs, rfl⟩ := ih hlift.2 hrest
        exact ⟨b :: bs, .cons hb hbs, List.filterMap_cons_some hg⟩

/-- Two relations to the entries of one list relate the other two lists. -/
theorem forall₂_join {R : α → β → Prop} {S : α → γ → Prop} {T : β → γ → Prop}
    (h : ∀ a b c, R a b → S a c → T b c) {as : List α} {bs : List β} {cs : List γ}
    (hR : List.Forall₂ R as bs) (hS : List.Forall₂ S as cs) : List.Forall₂ T bs cs := by
  induction hR generalizing cs with
  | nil =>
    cases hS
    exact .nil
  | cons hab _ ih =>
    cases hS with
    | cons hac hrest => exact .cons (h _ _ _ hab hac) (ih hrest)

/-- Two different lists related to a third one differ over one of its entries. -/
theorem exists_ne_of_forall₂ {R S : α → β → Prop} {as bs : List α} {cs : List β}
    (hR : List.Forall₂ R as cs) (hS : List.Forall₂ S bs cs) (hne : as ≠ bs) :
    ∃ c ∈ cs, ∃ a b, R a c ∧ S b c ∧ a ≠ b := by
  induction hR generalizing bs with
  | nil =>
    cases hS
    exact absurd rfl hne
  | @cons a c as cs ha _ ih =>
    cases hS with
    | @cons b _ bs _ hb hrest =>
      by_cases hab : a = b
      · have htail : as ≠ bs := fun heq => hne (by rw [hab, heq])
        obtain ⟨c', hc', hpair⟩ := ih hrest htail
        exact ⟨c', List.mem_cons_of_mem c hc', hpair⟩
      · exact ⟨c, List.mem_cons_self, a, b, ha, hb, hab⟩

/-- A list related to another one can be changed over an entry that leaves a choice. -/
theorem exists_forall₂_ne {R : α → β → Prop} {as : List α} {cs : List β}
    (h : List.Forall₂ R as cs) {c : β} (hc : c ∈ cs)
    (hchoice : ∀ a, R a c → ∃ a', R a' c ∧ a' ≠ a) : ∃ as', List.Forall₂ R as' cs ∧ as' ≠ as := by
  induction h with
  | nil => exact absurd hc List.not_mem_nil
  | @cons a d as cs ha hrest ih =>
    rcases List.mem_cons.mp hc with rfl | hmem
    · obtain ⟨a', ha', hne⟩ := hchoice a ha
      exact ⟨a' :: as, .cons ha' hrest, fun heq => hne (List.cons.inj heq).1⟩
    · obtain ⟨as', has', hne⟩ := ih hmem
      exact ⟨a :: as', .cons ha has', fun heq => hne (List.cons.inj heq).2⟩

end Lib.Pointwise
