import Mathlib.Tactic.Common

/-!
# Machines that move by actions

A machine is a partial step function `step : σ → α → Option σ`: `none` says that the action
is not enabled in the state. Every result about a system of interleaved parties is a result
about `run`, the execution of a list of actions, so the inductions a development needs
are here once:

* `run_preserves`: what one step preserves, a run preserves;
* `run_simulates`: when every step of one machine is a run of another, so is every run;
* `run_matches`: the same for a relation between the states, and actions of some kinds;
* `run_records`: an invariant that knows whether an action of some kind has been taken;
* `run_remembers`: an invariant that knows every action taken, and the state it was taken in;
* `run_counts`: an invariant that counts the actions of some kind;
* `run_reaches`: when a measure can always be made smaller, a goal can be reached;
* `always_iff_along`: when one condition on (state, action) decides whether a step keeps a
  safety property, the property holds in every state of a run exactly if every action of the
  run meets the condition.
-/

namespace Lib.Machine

variable {σ α : Type*} (step : σ → α → Option σ)

/-- Execute a list of actions; `none` as soon as one of them is not enabled. -/
def run : σ → List α → Option σ
  | s, [] => some s
  | s, a :: as => (step s a).bind fun s' => run s' as

/-- Every action of the run meets `C` in the state in which it is taken. -/
def Along (C : σ → α → Prop) : σ → List α → Prop
  | _, [] => True
  | s, a :: as => C s a ∧ ∀ s', step s a = some s' → Along C s' as

/-- `P` holds in the first state of the run and in every state it reaches. -/
def Always (P : σ → Prop) : σ → List α → Prop
  | s, [] => P s
  | s, a :: as => P s ∧ ∀ s', step s a = some s' → Always P s' as

/-- The actions of a run, each with the state in which it is taken. -/
def history : σ → List α → List (σ × α)
  | _, [] => []
  | s, a :: as =>
    (s, a) :: match step s a with
      | some s' => history s' as
      | none => []

@[simp] theorem run_nil (s : σ) : run step s [] = some s := rfl

theorem run_cons (s : σ) (a : α) (as : List α) :
    run step s (a :: as) = (step s a).bind fun s' => run step s' as := rfl

theorem run_cons_some {s s' : σ} {a : α} {as : List α} :
    run step s (a :: as) = some s' ↔ ∃ t, step s a = some t ∧ run step t as = some s' := by
  rw [run_cons, Option.bind_eq_some_iff]

theorem run_append (s : σ) (as bs : List α) :
    run step s (as ++ bs) = (run step s as).bind fun s' => run step s' bs := by
  induction as generalizing s with
  | nil => rfl
  | cons a as ih =>
    rw [List.cons_append, run_cons, run_cons, Option.bind_assoc]
    exact Option.bind_congr fun t _ => ih t

variable {step}

/-- A condition on the actions of a run, read off its history. -/
theorem along_iff_history {C : σ → α → Prop} {s : σ} {as : List α} :
    Along step C s as ↔ ∀ p ∈ history step s as, C p.1 p.2 := by
  induction as generalizing s with
  | nil => exact iff_of_true trivial fun _ hp => absurd hp List.not_mem_nil
  | cons a as ih =>
    rw [Along, history, List.forall_mem_cons]
    refine and_congr_right fun _ => ?_
    cases step s a with
    | none => simp
    | some t => simp [ih]

/-- What every step preserves, every run preserves. -/
theorem run_preserves {I : σ → Prop}
    (hstep : ∀ s a s', I s → step s a = some s' → I s') :
    ∀ {s s' : σ} {as : List α}, run step s as = some s' → I s → I s' := by
  intro s s' as
  induction as generalizing s with
  | nil =>
    intro hrun hs
    rw [run_nil, Option.some_inj] at hrun
    exact hrun ▸ hs
  | cons a as ih =>
    intro hrun hs
    obtain ⟨t, hst, hrest⟩ := (run_cons_some step).mp hrun
    exact ih hrest (hstep s a t hs hst)

/-- A machine whose steps are runs of an abstract machine: so are its runs. -/
theorem run_simulates {τ β : Type*} {step' : τ → β → Option τ} {abs : σ → τ} {I : σ → Prop}
    (hstep : ∀ s a s', I s → step s a = some s' →
      I s' ∧ ∃ bs, run step' (abs s) bs = some (abs s')) :
    ∀ {s s' : σ} {as : List α}, run step s as = some s' → I s →
      I s' ∧ ∃ bs, run step' (abs s) bs = some (abs s') := by
  intro s s' as
  induction as generalizing s with
  | nil =>
    intro hrun hs
    rw [run_nil, Option.some_inj] at hrun
    exact hrun ▸ ⟨hs, [], rfl⟩
  | cons a as ih =>
    intro hrun hs
    obtain ⟨t, hst, hrest⟩ := (run_cons_some step).mp hrun
    obtain ⟨ht, bs, hbs⟩ := hstep s a t hs hst
    obtain ⟨hs', cs, hcs⟩ := ih hrest ht
    exact ⟨hs', bs ++ cs, by rw [run_append, hbs, Option.bind_some, hcs]⟩

/-- A relation between two machines that lets the steps of one with actions in `C` be matched by
actions in `D` of the other: so are its runs. -/
theorem run_matches {τ β : Type*} {step' : τ → β → Option τ} {R : σ → τ → Prop} {C : α → Prop}
    {D : β → Prop}
    (hstep : ∀ s t a s', R s t → C a → step s a = some s' →
      ∃ bs t', (∀ b ∈ bs, D b) ∧ run step' t bs = some t' ∧ R s' t') :
    ∀ {s s' : σ} {as : List α} {t : τ}, run step s as = some s' → (∀ a ∈ as, C a) → R s t →
      ∃ bs t', (∀ b ∈ bs, D b) ∧ run step' t bs = some t' ∧ R s' t' := by
  intro s s' as
  induction as generalizing s with
  | nil =>
    intro t hrun _ hR
    rw [run_nil, Option.some_inj] at hrun
    exact ⟨[], t, fun _ hb => absurd hb List.not_mem_nil, rfl, hrun ▸ hR⟩
  | cons a as ih =>
    intro t hrun hC hR
    obtain ⟨u, hu, hrest⟩ := (run_cons_some step).mp hrun
    rw [List.forall_mem_cons] at hC
    obtain ⟨bs, t', hbs, hrun', hR'⟩ := hstep s t a u hR hC.1 hu
    obtain ⟨cs, t'', hcs, hrun'', hR''⟩ := ih hrest hC.2 hR'
    exact ⟨bs ++ cs, t'', List.forall_mem_append.mpr ⟨hbs, hcs⟩,
      by rw [run_append, hrun', Option.bind_some, hrun''], hR''⟩

/-- Preservation along a run all of whose actions meet a condition. -/
theorem run_preserves_along {I : σ → Prop} {C : σ → α → Prop}
    (hstep : ∀ s a s', I s → C s a → step s a = some s' → I s') :
    ∀ {s s' : σ} {as : List α}, run step s as = some s' → Along step C s as → I s → I s' := by
  intro s s' as
  induction as generalizing s with
  | nil =>
    intro hrun _ hs
    rw [run_nil, Option.some_inj] at hrun
    exact hrun ▸ hs
  | cons a as ih =>
    intro hrun halong hs
    obtain ⟨t, hst, hrest⟩ := (run_cons_some step).mp hrun
    exact ih hrest (halong.2 t hst) (hstep s a t hs halong.1 hst)

/-- An invariant with a memory: `g` says whether an action in `C` has been taken, and all the
actions are in `D`. -/
theorem run_records {I : Prop → σ → Prop} {C D : α → Prop}
    (hstep : ∀ g s a s', I g s → D a → step s a = some s' → I (g ∨ C a) s') :
    ∀ {s s' : σ} {as : List α} {g : Prop}, run step s as = some s' → (∀ a ∈ as, D a) → I g s →
      I (g ∨ ∃ a ∈ as, C a) s' := by
  intro s s' as
  induction as generalizing s with
  | nil =>
    intro g hrun _ hs
    rw [run_nil, Option.some_inj] at hrun
    have hsame : (g ∨ ∃ a ∈ ([] : List α), C a) ↔ g := by simp
    rw [← hrun, propext hsame]
    exact hs
  | cons a as ih =>
    intro g hrun hD hs
    obtain ⟨t, hst, hrest⟩ := (run_cons_some step).mp hrun
    rw [List.forall_mem_cons] at hD
    have hrecord := ih hrest hD.2 (hstep g s a t hs hD.1 hst)
    have hsame : (g ∨ ∃ b ∈ a :: as, C b) ↔ (g ∨ C a) ∨ ∃ b ∈ as, C b := by
      simp [or_assoc]
    rw [propext hsame]
    exact hrecord

theorem mem_of_mem_history {s : σ} {as : List α} {p : σ × α} (h : p ∈ history step s as) :
    p.2 ∈ as := by
  induction as generalizing s with
  | nil => exact absurd h List.not_mem_nil
  | cons a as ih =>
    rw [history] at h
    rcases List.mem_cons.mp h with rfl | h
    · exact List.mem_cons_self
    · split at h
      · exact List.mem_cons_of_mem a (ih h)
      · exact absurd h List.not_mem_nil

/-- An invariant with a full memory. -/
theorem run_remembers {I : List (σ × α) → σ → Prop}
    (hstep : ∀ past s a s', I past s → step s a = some s' → I (past ++ [(s, a)]) s') :
    ∀ (past : List (σ × α)) {s s' : σ} {as : List α}, run step s as = some s' → I past s →
      I (past ++ history step s as) s' := by
  intro past s s' as
  induction as generalizing s past with
  | nil =>
    intro hrun hs
    rw [run_nil, Option.some_inj] at hrun
    rw [history, List.append_nil]
    exact hrun ▸ hs
  | cons a as ih =>
    intro hrun hs
    obtain ⟨t, hst, hrest⟩ := (run_cons_some step).mp hrun
    have hnext := ih _ hrest (hstep past s a t hs hst)
    rw [history, hst, List.append_cons]
    exact hnext

/-- An invariant that counts the actions in `C`. -/
theorem run_counts {I : ℕ → σ → Prop} {C : α → Bool}
    (hstep : ∀ n s a s', I n s → step s a = some s' → I (n + (C a).toNat) s') :
    ∀ {s s' : σ} {as : List α} {n : ℕ}, run step s as = some s' → I n s →
      I (n + as.countP C) s' := by
  intro s s' as
  induction as generalizing s with
  | nil =>
    intro n hrun hs
    rw [run_nil, Option.some_inj] at hrun
    exact hrun ▸ hs
  | cons a as ih =>
    intro n hrun hs
    obtain ⟨t, hst, hrest⟩ := (run_cons_some step).mp hrun
    have hcount : n + (a :: as).countP C = n + (C a).toNat + as.countP C := by
      rw [List.countP_cons, Nat.add_assoc, Nat.add_comm (as.countP C)]
      cases C a <;> rfl
    rw [hcount]
    exact ih hrest (hstep n s a t hs hst)

/-- Where some action in `C` always lowers a measure until a goal is reached, actions in `C` reach
the goal. -/
theorem run_reaches {I goal : σ → Prop} {C : α → Prop} {measure : σ → ℕ}
    (hstep : ∀ s, I s → ¬ goal s →
      ∃ a s', C a ∧ step s a = some s' ∧ I s' ∧ measure s' < measure s) (s : σ) (hs : I s) :
    ∃ as s', (∀ a ∈ as, C a) ∧ run step s as = some s' ∧ I s' ∧ goal s' := by
  by_cases hgoal : goal s
  · exact ⟨[], s, fun _ ha => absurd ha List.not_mem_nil, run_nil step s, hs, hgoal⟩
  · obtain ⟨a, t, ha, hst, ht, hlt⟩ := hstep s hs hgoal
    obtain ⟨as, s', has, hrun, hs', hgoal'⟩ := run_reaches hstep t ht
    exact ⟨a :: as, s', List.forall_mem_cons.mpr ⟨ha, has⟩,
      (run_cons_some step).mpr ⟨t, hst, hrun⟩, hs', hgoal'⟩
termination_by measure s

/-- A property that holds throughout a run holds in its first state. -/
theorem Always.first {P : σ → Prop} {s : σ} {as : List α} (h : Always step P s as) : P s := by
  cases as with
  | nil => exact h
  | cons a as => exact h.1

/-- When a condition on the state and the action decides at each step whether a property is
kept, the property holds throughout a run exactly if the condition does. -/
theorem always_iff_along {I P : σ → Prop} {C : σ → α → Prop}
    (hIP : ∀ s, I s → P s)
    (hkeep : ∀ s a s', I s → C s a → step s a = some s' → I s')
    (hbreak : ∀ s a, I s → ¬ C s a → ∃ s', step s a = some s' ∧ ¬ P s') :
    ∀ {s : σ} {as : List α}, I s → (Always step P s as ↔ Along step C s as) := by
  intro s as
  induction as generalizing s with
  | nil => exact fun hs => ⟨fun _ => trivial, fun _ => hIP s hs⟩
  | cons a as ih =>
    intro hs
    constructor
    · rintro ⟨-, hnext⟩
      -- an action that misses the condition would break the property at once
      have hC : C s a := by
        by_contra hC
        obtain ⟨s', hst, hP⟩ := hbreak s a hs hC
        exact hP (hnext s' hst).first
      exact ⟨hC, fun s' hst => (ih (hkeep s a s' hs hC hst)).mp (hnext s' hst)⟩
    · rintro ⟨hC, hnext⟩
      exact ⟨hIP s hs, fun s' hst => (ih (hkeep s a s' hs hC hst)).mpr (hnext s' hst)⟩

end Lib.Machine
