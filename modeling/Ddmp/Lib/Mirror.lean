import Ddmp.Lib.Machine
import Mathlib.Data.Set.Insert

/-!
# A store seen through a lagging mirror

A client writes whole values to a store and learns the store's value from reports. Reports
lag: after a write the store first reports the value it showed before, and only later moves on
to the stored one. Both channels are queues, and every party moves on its own.

What a client that computes a write from the value it holds can rely on is little: the store
ends up with the last value written (`run_final`), and the value held is one of the values
that were ever stored (`run_within`).
-/

namespace Lib.Mirror

variable {α : Type*}

/-- The store, the two channels and the copy that the client holds. -/
structure State (α : Type*) where
  stored : α
  shown : α
  /-- Values stored and not yet shown, oldest first. -/
  backlog : List α
  /-- Whether the shown value is to be reported once more before the store moves on. -/
  owes : Bool
  writes : List α
  reports : List α
  held : Option α

/-- The moves of the store and of the channels. -/
inductive Act
  | store
  | report
  | advance
  | receive

/-- One move; `none` when it is not possible. -/
def step (s : State α) : Act → Option (State α)
  | .store =>
    match s.writes with
    | [] => none
    | a :: rest =>
      some { s with writes := rest, stored := a, backlog := s.backlog ++ [a], owes := true }
  | .report => some { s with reports := s.reports ++ [s.shown], owes := false }
  | .advance =>
    match s.backlog with
    | [] => none
    | a :: rest => if s.owes then none else some { s with shown := a, backlog := rest }
  | .receive =>
    match s.reports with
    | [] => none
    | a :: rest => some { s with reports := rest, held := some a }

/-- The client writes a value. -/
def State.write (s : State α) (a : α) : State α := { s with writes := s.writes ++ [a] }

/-- The value the store will have once the writes on their way have arrived. -/
def State.final (s : State α) : α := s.writes.getLast?.getD s.stored

/-- Every value anywhere in the system is in `S`. -/
structure State.Within (S : Set α) (s : State α) : Prop where
  stored : s.stored ∈ S
  shown : s.shown ∈ S
  backlog : ∀ a ∈ s.backlog, a ∈ S
  writes : ∀ a ∈ s.writes, a ∈ S
  reports : ∀ a ∈ s.reports, a ∈ S
  held : ∀ a ∈ s.held, a ∈ S

@[simp] theorem final_write (s : State α) (a : α) : (s.write a).final = a := by
  rw [State.final, State.write, List.getLast?_append]
  rfl

theorem final_of_writes_nil {s : State α} (h : s.writes = []) : s.final = s.stored := by
  rw [State.final, h]
  rfl

/-- A move never changes the value the store will end up with. -/
theorem step_final {s s' : State α} {act : Act} (h : step s act = some s') :
    s'.final = s.final := by
  cases act with
  | store =>
    rw [step] at h
    split at h
    · exact nomatch h
    · rename_i a rest hwrites
      -- the write that arrives is the last one, or a later one decides as before
      rw [← Option.some.inj h, State.final, State.final, hwrites, List.getLast?_cons]
      cases rest.getLast? <;> rfl
  | report => rw [← Option.some.inj h, State.final, State.final]
  | advance =>
    rw [step] at h
    split at h
    · exact nomatch h
    · rw [Option.ite_none_left_eq_some] at h
      rw [← Option.some.inj h.2, State.final, State.final]
  | receive =>
    rw [step] at h
    split at h
    · exact nomatch h
    · rw [← Option.some.inj h, State.final, State.final]

/-- A move brings no new value into the system. -/
theorem step_within {S : Set α} {s s' : State α} {act : Act} (hs : s.Within S)
    (h : step s act = some s') : s'.Within S := by
  cases act with
  | store =>
    rw [step] at h
    split at h
    · exact nomatch h
    · rename_i a rest hwrites
      rw [← Option.some.inj h]
      have ha : a ∈ S := hs.writes a (hwrites ▸ List.mem_cons_self)
      refine { hs with stored := ha, backlog := fun b hb => ?_, writes := fun b hb => ?_ }
      · rcases List.mem_append.mp hb with hb | hb
        · exact hs.backlog b hb
        · exact List.mem_singleton.mp hb ▸ ha
      · exact hs.writes b (hwrites ▸ List.mem_cons_of_mem a hb)
  | report =>
    rw [← Option.some.inj h]
    refine { hs with reports := fun b hb => ?_ }
    rcases List.mem_append.mp hb with hb | hb
    · exact hs.reports b hb
    · exact List.mem_singleton.mp hb ▸ hs.shown
  | advance =>
    rw [step] at h
    split at h
    · exact nomatch h
    · rename_i a rest hbacklog
      rw [Option.ite_none_left_eq_some] at h
      rw [← Option.some.inj h.2]
      exact { hs with
        shown := hs.backlog a (hbacklog ▸ List.mem_cons_self)
        backlog := fun b hb => hs.backlog b (hbacklog ▸ List.mem_cons_of_mem a hb) }
  | receive =>
    rw [step] at h
    split at h
    · exact nomatch h
    · rename_i a rest hreports
      rw [← Option.some.inj h]
      refine { hs with
        reports := fun b hb => hs.reports b (hreports ▸ List.mem_cons_of_mem a hb)
        held := fun b hb => ?_ }
      exact Option.some.inj hb ▸ hs.reports a (hreports ▸ List.mem_cons_self)

theorem run_final {s s' : State α} {acts : List Act}
    (h : Machine.run step s acts = some s') : s'.final = s.final :=
  Machine.run_preserves (I := fun t => t.final = s.final)
    (fun _ _ _ ht hstep => (step_final hstep).trans ht) h rfl

theorem run_within {S : Set α} {s s' : State α} {acts : List Act}
    (h : Machine.run step s acts = some s') (hs : s.Within S) : s'.Within S :=
  Machine.run_preserves (fun _ _ _ => step_within) h hs

theorem State.Within.mono {S T : Set α} {s : State α} (h : s.Within S) (hST : S ⊆ T) :
    s.Within T where
  stored := hST h.stored
  shown := hST h.shown
  backlog := fun a ha => hST (h.backlog a ha)
  writes := fun a ha => hST (h.writes a ha)
  reports := fun a ha => hST (h.reports a ha)
  held := fun a ha => hST (h.held a ha)

theorem State.Within.write {S : Set α} {s : State α} (h : s.Within S) {a : α} (ha : a ∈ S) :
    (s.write a).Within S := by
  refine { h with writes := fun b hb => ?_ }
  rcases List.mem_append.mp hb with hb | hb
  · exact h.writes b hb
  · exact List.mem_singleton.mp hb ▸ ha

/-- Two writes to a store that knew only `p`: the second value is stored in the end, and when
it was written the client held `p` or the value of the first write, or nothing. -/
theorem stored_of_two_writes {p a b : α} {s₀ s₁ s₂ s₃ : State α} {acts acts' acts'' : List Act}
    (h₀ : s₀.Within {p}) (h₁ : Machine.run step s₀ acts = some s₁)
    (h₂ : Machine.run step (s₁.write a) acts' = some s₂)
    (h₃ : Machine.run step (s₂.write b) acts'' = some s₃) (hdone : s₃.writes = []) :
    s₃.stored = b ∧ (∀ q ∈ s₁.held, q = p) ∧ ∀ q ∈ s₂.held, q = p ∨ q = a := by
  have hwithin₁ : s₁.Within {p} := run_within h₁ h₀
  have hsub : ({p} : Set α) ⊆ {p, a} := Set.singleton_subset_iff.mpr (Set.mem_insert p {a})
  have ha : a ∈ ({p, a} : Set α) := Set.mem_insert_of_mem p rfl
  have hwithin₂ : s₂.Within {p, a} := run_within h₂ ((hwithin₁.mono hsub).write ha)
  -- no move changes the final value, and the last write was `b`
  refine ⟨?_, fun q hq => hwithin₁.held q hq, fun q hq => hwithin₂.held q hq⟩
  rw [← final_of_writes_nil hdone, run_final h₃, final_write]

end Lib.Mirror
