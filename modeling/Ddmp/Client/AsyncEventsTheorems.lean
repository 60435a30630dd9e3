import Ddmp.Client.AsyncMoves

/-!
# The end of `events()`

The end of the connection is an element of the queue: the reader task puts one end marker, and
`close` another one if it does the closing. Whoever takes a marker ends, and nobody puts it
back, so an iteration that comes after the last marker has been taken waits for ever.
`neverStuck_iff` gives the runs in which that does not happen.
-/

namespace Ddmp

open Lib

namespace AsyncClient

/-- The reader task is over: it has run to its end, or it was cancelled before its start. -/
def ReaderOver (c : AsyncClient) : Prop := c.reader = .finished ∨ c.reader = .neverRan

/-- The reader task is over, the queue is empty, and an iteration waits in `get`. -/
def Stuck (c : AsyncClient) : Prop :=
  c.ReaderOver ∧ c.events = [] ∧ ∃ j : ℕ, c.iterations[j]? = some .getting

/-- What an action may do to the queue of a client. An iteration begins to wait only if the
reader task is not over or something is left in the queue; it takes the last element of the
queue of a reader task that is over only if no other iteration waits; and the reader task is
not cancelled before its start while an iteration waits for an empty queue. -/
def LeavesMarker (c : AsyncClient) : Act → Prop
  | .iteration .start => c.ReaderOver → c.events ≠ []
  | .iteration (.next j) => c.iterations[j]? = some .holding → c.ReaderOver → c.events ≠ []
  | .iteration (.take j) => c.iterations[j]? = some .getting → c.ReaderOver →
      c.events.length = 1 → ∀ k : ℕ, c.iterations[k]? = some .getting → k = j
  | .reader .cancelled => c.reader = .notBegun → c.cancelRequested = true → c.events = [] →
      ∀ k : ℕ, c.iterations[k]? ≠ some .getting
  | _ => True

variable {c c' : AsyncClient}

/-- Nothing is left in a queue that loses its only element. -/
theorem length_eq_one_of_tail {x : Option Event} {rest : List (Option Event)}
    (hevents : c.events = x :: rest) (hrest : rest = []) : c.events.length = 1 := by
  rw [hevents, hrest]
  rfl

/-- An iteration that does not wait has no part in being stuck. -/
theorem getting_of_set {l : List Iteration} {j k : ℕ} {it : Iteration} (hit : it ≠ .getting)
    (hk : (l.set j it)[k]? = some .getting) : k ≠ j ∧ l[k]? = some .getting := by
  by_cases hjk : j = k
  · subst hjk
    rw [List.getElem?_set, if_pos rfl] at hk
    split at hk
    · exact absurd (Option.some.inj hk) hit
    · exact nomatch hk
  · rw [List.getElem?_set_ne hjk] at hk
    exact ⟨Ne.symm hjk, hk⟩

/-- Taking the head of the queue. -/
theorem not_stuck_take {j : ℕ} {it : Iteration} (hit : it ≠ .getting)
    (hj : c.iterations[j]? = some .getting) {x : Option Event} {rest : List (Option Event)}
    (hevents : c.events = x :: rest) (hmark : c.LeavesMarker (.iteration (.take j))) :
    ¬ Stuck { c with events := rest, iterations := c.iterations.set j it } := by
  rintro ⟨hover, hrest, k, hk⟩
  obtain ⟨hne, hk⟩ := getting_of_set hit hk
  exact hne (hmark hj hover (length_eq_one_of_tail hevents hrest) k hk)

/-- A running reader task is not over. -/
theorem not_readerOver {events : List Event} (h : c.reader = .running events) : ¬ c.ReaderOver := by
  simp [ReaderOver, h]

/-- With a marker at its end the queue is not empty. -/
theorem not_stuck_of_marker {x : Option Event} (h : c.events = c'.events ++ [x]) : ¬ c.Stuck := by
  rintro ⟨-, hevents, -⟩
  rw [h] at hevents
  exact List.append_ne_nil_of_right_ne_nil _ (List.cons_ne_nil x []) hevents

theorem step_not_stuck (hnot : ¬ c.Stuck) {act : Act} (hmark : c.LeavesMarker act)
    (hstep : c.step act = some c') : ¬ c'.Stuck := by
  cases act with
  | iteration act =>
    cases act with
    | start =>
      rw [← Option.some.inj hstep]
      rintro ⟨hover, hevents, -⟩
      exact hmark hover hevents
    | take j =>
      rw [step, stepIteration] at hstep
      split at hstep
      · rename_i hj hevents
        exact Option.some.inj hstep ▸ not_stuck_take (by decide) hj hevents hmark
      · rename_i hj hevents
        exact Option.some.inj hstep ▸ not_stuck_take (by decide) hj hevents hmark
      · exact absurd hstep.symm (Option.some_ne_none c')
    | next j =>
      rw [step, stepIteration] at hstep
      split at hstep
      · rename_i hj
        rw [← Option.some.inj hstep]
        rintro ⟨hover, hevents, -⟩
        exact hmark hj hover hevents
      · exact absurd hstep.symm (Option.some_ne_none c')
    | abandon j =>
      rw [← Option.some.inj hstep]
      rintro ⟨hover, hevents, k, hk⟩
      exact hnot ⟨hover, hevents, k, (getting_of_set (by decide) hk).2⟩
  | reader act =>
    cases moves_of_step hstep with
    | begins | reads | handles =>
      rintro ⟨hover, -⟩
      exact not_readerOver rfl hover
    | ends => exact not_stuck_of_marker rfl
    | neverRuns hreader hcancel =>
      rintro ⟨-, hevents, k, hk⟩
      exact hmark hreader hcancel hevents k hk
  | send =>
    cases moves_of_step hstep with
    | sendRaises | writes => exact hnot
  | lost => exact Option.some.inj hstep ▸ hnot
  | set =>
    cases moves_of_step hstep with
    | raises | withdraws | sends => exact hnot
  | call =>
    cases moves_of_step hstep with
    | waits | interrupts | leaves => exact hnot
  | close =>
    cases moves_of_step hstep with
    | closesAgain | closes | releases | closeRaises => exact hnot
    | closeReturns => exact not_stuck_of_marker rfl

/-- An action that does not leave a marker for those who wait is possible, and then one of them
waits for ever. -/
theorem stuck_of_not_leavesMarker {act : Act} (hmark : ¬ c.LeavesMarker act) :
    ∃ c', c.step act = some c' ∧ ¬ ¬ c'.Stuck := by
  unfold LeavesMarker at hmark
  split at hmark
  · obtain ⟨hover, hevents⟩ := Classical.not_imp.mp hmark
    refine ⟨_, rfl, not_not_intro ⟨hover, not_not.mp hevents, c.iterations.length, ?_⟩⟩
    exact List.getElem?_concat_length
  · rename_i j
    obtain ⟨hj, hmark⟩ := Classical.not_imp.mp hmark
    obtain ⟨hover, hevents⟩ := Classical.not_imp.mp hmark
    refine ⟨{ c with iterations := c.iterations.set j .getting }, ?_,
      not_not_intro ⟨hover, not_not.mp hevents, j, ?_⟩⟩
    · rw [step, stepIteration]
      simp only [hj]
    · exact List.getElem?_set_self (List.getElem?_eq_some_iff.mp hj).1
  · rename_i j
    simp only [Classical.not_imp, not_forall] at hmark
    obtain ⟨hj, hover, hlength, k, hk, hkj⟩ := hmark
    obtain ⟨x, hevents⟩ := List.length_eq_one_iff.mp hlength
    -- another iteration waits, and the queue is empty now
    have hstuck : ∀ it, Stuck { c with events := [], iterations := c.iterations.set j it } := by
      intro it
      refine ⟨hover, rfl, k, ?_⟩
      show (c.iterations.set j it)[k]? = some .getting
      rw [List.getElem?_set_ne (Ne.symm hkj)]
      exact hk
    cases x with
    | none =>
      refine ⟨_, ?_, not_not_intro (hstuck .ended)⟩
      rw [step, stepIteration]
      simp only [hj, hevents]
    | some event =>
      refine ⟨_, ?_, not_not_intro (hstuck .holding)⟩
      rw [step, stepIteration]
      simp only [hj, hevents]
  · simp only [Classical.not_imp, not_forall, not_not] at hmark
    obtain ⟨hreader, hcancel, hevents, k, hk⟩ := hmark
    refine ⟨{ c with reader := .neverRan }, ?_, not_not_intro ⟨.inr rfl, hevents, k, hk⟩⟩
    rw [step, stepReader]
    simp only [hreader, hcancel]
  · exact absurd trivial hmark

theorem not_stuck_fresh (session : Session) : ¬ Stuck { session } :=
  fun ⟨hover, _⟩ => hover.elim nofun nofun

/-- Throughout a run, no iteration waits for an empty queue after the reader task is over,
exactly if every action leaves something in the queue for those who wait. -/
theorem neverStuck_iff (session : Session) (acts : List Act) :
    Machine.Always step (fun c => ¬ c.Stuck) { session } acts
      ↔ Machine.Along step LeavesMarker { session } acts :=
  Machine.always_iff_along (I := fun c => ¬ c.Stuck) (fun _ h => h)
    (fun _ _ _ h hmark hstep => step_not_stuck h hmark hstep)
    (fun _ _ _ hmark => stuck_of_not_leavesMarker hmark) (not_stuck_fresh session)

/-- The peer closes the connection; a first iteration ends by the end marker, and a second one
waits for ever. -/
theorem second_iteration_stuck :
    ∃ c, Machine.run step {} [.reader .begin, .reader (.read []), .iteration .start,
        .iteration (.take 0), .iteration .start] = some c
      ∧ c.reader = .finished ∧ c.events = [] ∧ c.iterations = [.ended, .getting] :=
  ⟨_, rfl, rfl, rfl, rfl⟩

end AsyncClient

end Ddmp
