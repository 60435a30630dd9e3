import Ddmp.Client.AsyncRefusalTheorems

/-!
# The answer that decides a write

`_resolve` shows every event to every pending write, so a write is decided by the first answer
after its entry was added: `first_answer` says so for every interleaving, and that no answer is
missed while the write is pending.
-/

namespace Ddmp

open Lib

namespace SetCall

/-- What the expectation of a call says of an event. -/
def verdict (call : SetCall) (event : Event) : Option Bool := (call.expectation.matches event).1

/-- The first answer among the events processed since the entry was added. -/
def firstAnswer (log : List Event) (call : SetCall) : Option Event :=
  (log.drop call.addedAt).find? fun event => (call.verdict event).isSome

/-- The first answer confirms the call, with this value. -/
def ConfirmedFirst (log : List Event) (call : SetCall) (value : Value) : Prop :=
  ∃ address topic raw, call.firstAnswer log = some (.publish address topic value raw)
    ∧ call.verdict (.publish address topic value raw) = some true

/-- The first answer is a refusal. -/
def RefusedFirst (log : List Event) (call : SetCall) : Prop :=
  ∃ address raw, call.firstAnswer log = some (.nak address raw)
    ∧ call.verdict (.nak address raw) = some false

/-- How a call stands to the answers that have been processed. -/
structure Decided (log : List Event) (call : SetCall) : Prop where
  added : call.addedAt ≤ log.length
  unanswered : call.Unfinished → call.future = .pending → call.firstAnswer log = none
  confirmed : ∀ value, call.future = .result value ∨ call.phase = .returned value →
    call.ConfirmedFirst log value
  refused : call.isRefused = true ∨ call.isRejected = true → call.RefusedFirst log

variable {log : List Event} {call call' : SetCall} {event : Event}

theorem firstAnswer_concat (h : call.addedAt ≤ log.length) (event : Event) :
    call.firstAnswer (log ++ [event]) = (call.firstAnswer log).or
      (if (call.verdict event).isSome then some event else none) := by
  rw [firstAnswer, List.drop_append_of_le_length h, List.find?_append, List.find?_singleton]
  rfl

/-- The first answer is the same for calls with the same verdicts. -/
theorem firstAnswer_congr (hadded : call'.addedAt = call.addedAt)
    (hverdict : ∀ event, call'.verdict event = call.verdict event) :
    call'.firstAnswer log = call.firstAnswer log := by
  rw [firstAnswer, firstAnswer, hadded]
  simp only [hverdict]

/-- Once there is a first answer it stays the same. -/
theorem firstAnswer_later (h : call.addedAt ≤ log.length) {answer : Event}
    (hanswer : call.firstAnswer log = some answer) (event : Event) :
    call.firstAnswer (log ++ [event]) = some answer := by
  rw [firstAnswer_concat h, hanswer]
  rfl

theorem ConfirmedFirst.later {value : Value} (h : call.ConfirmedFirst log value)
    (hadded : call.addedAt ≤ log.length) (event : Event) :
    call.ConfirmedFirst (log ++ [event]) value := by
  obtain ⟨address, topic, raw, hanswer, hverdict⟩ := h
  exact ⟨address, topic, raw, firstAnswer_later hadded hanswer event, hverdict⟩

theorem RefusedFirst.later (h : call.RefusedFirst log) (hadded : call.addedAt ≤ log.length)
    (event : Event) : call.RefusedFirst (log ++ [event]) := by
  obtain ⟨address, raw, hanswer, hverdict⟩ := h
  exact ⟨address, raw, firstAnswer_later hadded hanswer event, hverdict⟩

/-- A call that goes on has neither returned nor been rejected. -/
theorem Unfinished.phase_ne (h : call.Unfinished) :
    (∀ value, call.phase ≠ .returned value) ∧ call.isRejected = false := by
  unfold isRejected
  rcases h with hphase | ⟨interrupt, hphase⟩
  · rw [hphase]
    exact ⟨fun _ => Phase.noConfusion, rfl⟩
  · rw [hphase]
    exact ⟨fun _ => Phase.noConfusion, rfl⟩

/-- What an event does to a pending future. -/
def settled (event : Event) (call : SetCall) : Future :=
  match call.verdict event with
  | some true => .result (call.expectation.matches event).2.observed
  | some false => .exception (.writeRejected [.lit "cooler refused ",
      .val (.str (call.expectation.matches event).2.topic.name), .lit " (NAK)"])
  | none => .pending

theorem resolve_of_pending (h : call.future = .pending) (event : Event) :
    call.resolve event = { call with
      expectation := (call.expectation.matches event).2
      future := call.settled event } := by
  have hne : ¬ call.future.done = true := by
    rw [h]
    exact Bool.false_ne_true
  rw [resolve, if_neg hne, settled, verdict]
  cases hm : call.expectation.matches event with
  | mk answer expectation =>
    cases answer with
    | none => rw [← h]
    | some b =>
      cases b with
      | true =>
        dsimp only
        rw [setResult, if_neg hne]
      | false =>
        dsimp only
        rw [setException, if_neg hne]

theorem verdict_of_settled_pending (h : call.settled event = .pending) :
    call.verdict event = none := by
  unfold settled at h
  split at h
  · cases h
  · cases h
  · assumption

theorem verdict_of_settled_result {value : Value} (h : call.settled event = .result value) :
    call.verdict event = some true ∧ (call.expectation.matches event).2.observed = value := by
  unfold settled at h
  split at h
  · exact ⟨by assumption, Future.result.inj h⟩
  · cases h
  · cases h

theorem verdict_of_refused (h : call.future = .pending)
    (hrefused : (call.resolve event).isRefused = true) : call.verdict event = some false := by
  rw [resolve_of_pending h, isRefused, settled] at hrefused
  cases hverdict : call.verdict event with
  | none =>
    rw [hverdict] at hrefused
    exact absurd hrefused Bool.false_ne_true
  | some b =>
    cases b with
    | true =>
      rw [hverdict] at hrefused
      exact absurd hrefused Bool.false_ne_true
    | false => rfl

namespace Decided

/-- An event that the call is not shown, because it is over or its future is done. -/
theorem later (h : call.Decided log) (hover : call.Unfinished → call.future ≠ .pending)
    (event : Event) : call.Decided (log ++ [event]) where
  added := h.added.trans (by rw [List.length_append]; exact Nat.le_add_right _ _)
  unanswered := fun hopen hpending => absurd hpending (hover hopen)
  confirmed := fun value hvalue => (h.confirmed value hvalue).later h.added event
  refused := fun hrefused => (h.refused hrefused).later h.added event

/-- The call is shown the next event. -/
theorem resolve (h : call.Decided log) (hopen : call.Unfinished) (event : Event) :
    (call.resolve event).Decided (log ++ [event]) := by
  cases hdone : call.future.done with
  | true =>
    rw [resolve_of_done hdone]
    refine h.later (fun _ hpending => ?_) event
    rw [hpending] at hdone
    exact absurd hdone Bool.false_ne_true
  | false =>
    have hpending := Future.eq_pending hdone
    have hresolve := resolve_of_pending hpending event
    have hadded : (call.resolve event).addedAt = call.addedAt := by rw [hresolve]
    -- looking at the event does not change what the expectation says
    have hsame : ∀ e, (call.resolve event).verdict e = call.verdict e := by
      rw [hresolve]
      exact call.expectation.matches_after event
    -- there was no answer before, so the first one is this event or none
    have hfirst : (call.resolve event).firstAnswer (log ++ [event])
        = if (call.verdict event).isSome then some event else none := by
      rw [firstAnswer_congr hadded hsame, firstAnswer_concat h.added,
        h.unanswered hopen hpending]
      rfl
    have hfuture : (call.resolve event).future = call.settled event := by rw [hresolve]
    have hopen' : (call.resolve event).Unfinished := by
      rwa [Unfinished, phase_resolve]
    obtain ⟨hreturned, hrejected⟩ := hopen'.phase_ne
    refine ⟨?_, fun _ hstays => ?_, fun value hvalue => ?_, fun hrefused => ?_⟩
    · rw [hadded, List.length_append]
      exact h.added.trans (Nat.le_add_right _ _)
    · rw [hfuture] at hstays
      rw [hfirst, verdict_of_settled_pending hstays]
      rfl
    · have hresult := hvalue.resolve_right (hreturned value)
      rw [hfuture] at hresult
      obtain ⟨hconfirms, rfl⟩ := verdict_of_settled_result hresult
      obtain ⟨address, topic, raw, hevent⟩ := WriteExpectation.observed_of_matches hconfirms
      refine ⟨address, topic, raw, ?_, ?_⟩
      · rw [hfirst, hconfirms, ← hevent]
        rfl
      · rw [hsame, ← hevent]
        exact hconfirms
    · have hrefuses := verdict_of_refused hpending
        (hrefused.resolve_right (Bool.eq_false_iff.mp hrejected))
      obtain ⟨raw, hevent⟩ := WriteExpectation.nak_of_matches hrefuses
      refine ⟨call.expectation.topic.address, raw, ?_, ?_⟩
      · rw [hfirst, hrefuses, ← hevent]
        rfl
      · rw [hsame, ← hevent]
        exact hrefuses

theorem lose (h : call.Decided log) : call.lose.Decided log := by
  cases hdone : call.future.done with
  | true =>
    rw [lose_of_done hdone]
    exact h
  | false =>
    refine ⟨?_, fun _ hpending => ?_, fun value hvalue => ?_, fun hrefused => ?_⟩
    · rw [lose_of_not_done hdone]
      exact h.added
    · rw [lose_of_not_done hdone] at hpending
      cases hpending
    · rw [lose_of_not_done hdone] at hvalue ⊢
      exact h.confirmed value (.inr (hvalue.resolve_left Future.noConfusion))
    · rw [lose_of_not_done hdone] at hrefused ⊢
      exact h.refused (.inr (hrefused.resolve_left Bool.false_ne_true))

theorem interrupt (h : call.Decided log) (reason : Interrupt) :
    (call.interrupt reason).Decided log := by
  have hphase : (call.interrupt reason).Unfinished := .inr ⟨some reason, rfl⟩
  obtain ⟨hreturned, hrejected⟩ := hphase.phase_ne
  refine ⟨h.added, fun _ hpending => ?_, fun value hvalue => ?_, fun hrefused => ?_⟩
  · have hcancel : call.future.cancel = .pending := hpending
    cases hfuture : call.future with
    | _ =>
      rw [hfuture] at hcancel
      cases hcancel
  · have hcancel : call.future.cancel = .result value := hvalue.resolve_right (hreturned value)
    refine h.confirmed value (.inl ?_)
    cases hfuture : call.future with
    | pending =>
      rw [hfuture] at hcancel
      cases hcancel
    | _ =>
      rw [hfuture] at hcancel
      exact hcancel
  · have hfuture := hrefused.resolve_right (Bool.eq_false_iff.mp hrejected)
    rw [isRefused_interrupt] at hfuture
    exact h.refused (.inl hfuture)

theorem wait (h : call.Decided log) (hopen : call.Unfinished) : call.wait.Decided log := by
  have hphase : call.wait.Unfinished := .inr ⟨none, rfl⟩
  obtain ⟨hreturned, hrejected⟩ := hphase.phase_ne
  exact ⟨h.added, fun _ hpending => h.unanswered hopen hpending,
    fun value hvalue => h.confirmed value (.inl (hvalue.resolve_right (hreturned value))),
    fun hrefused => h.refused (.inl (hrefused.resolve_right (Bool.eq_false_iff.mp hrejected)))⟩

theorem finish (h : call.Decided log) {outcome : Except PyErr Value}
    (houtcome : ∀ value, outcome = .ok value → call.future = .result value)
    (hrejected : ∀ e, outcome = .error e → e.isRejection = true → call.future = .exception e) :
    (call.finish outcome).Decided log := by
  refine ⟨h.added, fun hopen => absurd hopen (not_unfinished_finish outcome call),
    fun value hvalue => ?_, fun hrefused => ?_⟩
  · rcases hvalue with hresult | hphase
    · exact h.confirmed value (.inl hresult)
    · rcases phase_finish outcome call with ⟨value', hok, hphase'⟩ | ⟨e, hphase'⟩
      · obtain rfl := Phase.returned.inj (hphase'.symm.trans hphase)
        exact h.confirmed _ (.inl (houtcome _ hok))
      · exact absurd (hphase'.symm.trans hphase) Phase.noConfusion
  · rcases hrefused with hfuture | hphase
    · exact h.refused (.inl hfuture)
    · obtain ⟨e, he, hrejection⟩ := isRejected_finish hphase
      refine h.refused (.inl ?_)
      rw [isRefused, hrejected e he hrejection]
      exact hrejection

end Decided

end SetCall

namespace AsyncClient

/-- Every call stands to the log as it should. -/
def AllDecided (c : AsyncClient) : Prop := ∀ call ∈ c.calls.slots, call.Decided c.log

namespace AllDecided

variable {c : AsyncClient}

/-- A call ends, refused only if its future says so. -/
theorem leave (h : c.AllDecided) {i : ℕ} {call : SetCall} (hi : c.calls.slots[i]? = some call)
    {outcome : Except PyErr Value}
    (houtcome : ∀ value, outcome = .ok value → call.future = .result value)
    (hrejected : ∀ e, outcome = .error e → e.isRejection = true → call.future = .exception e) :
    (c.leave i outcome).AllDecided := by
  apply Registry.forall_mem_modify h
  intro a ha
  obtain rfl := Option.some.inj (hi.symm.trans ha)
  exact (h call (List.mem_of_getElem? hi)).finish houtcome hrejected

theorem addEntry (h : c.AllDecided) (expectation : WriteExpectation) (timeout : Value) :
    (c.addEntry expectation timeout).AllDecided := by
  refine Registry.forall_mem_add h ⟨le_refl _, fun _ _ => ?_, fun value hvalue => ?_,
    fun hrefused => ?_⟩
  · have hnone : c.log.drop c.log.length = [] := List.drop_length
    simp only [SetCall.firstAnswer, AsyncClient.addEntry, hnone, List.find?_nil]
  · rcases hvalue with hfuture | hphase
    · cases hfuture
    · cases hphase
  · rcases hrefused with hfuture | hphase
    · cases hfuture
    · cases hphase

theorem handle (h : c.AllDecided) (hpending : c.calls.Sound SetCall.Unfinished) (event : Event)
    (rest : List Event) : (c.handle event rest).AllDecided := by
  intro call hcall
  obtain ⟨j, hj⟩ := List.mem_iff_getElem?.mp hcall
  have hslot : (c.calls.each (SetCall.resolve event)).slots[j]? = some call := hj
  rw [Registry.getElem?_each hpending.nodup] at hslot
  split at hslot
  · rename_i hlive
    obtain ⟨a, ha, hopen⟩ := (hpending.mem_live j).mp hlive
    rw [ha] at hslot
    obtain rfl := Option.some.inj hslot
    exact (h a (List.mem_of_getElem? ha)).resolve hopen event
  · -- the call is over
    rename_i hlive
    refine (h call (List.mem_of_getElem? hslot)).later (fun hopen => ?_) event
    exact absurd ((hpending.mem_live j).mpr ⟨call, hslot, hopen⟩) hlive

theorem endReading (h : c.AllDecided) (hpending : c.calls.Sound SetCall.Unfinished)
    (error : Option PyErr) : (c.endReading error).AllDecided := by
  intro call hcall
  obtain ⟨a, ha, rfl | rfl⟩ := Registry.mem_each hpending.nodup hcall
  · exact h call ha
  · exact (h a ha).lose

end AllDecided

variable {c c' : AsyncClient}

theorem decided_step (hinv : c.Inv) (h : c.AllDecided) {act : Act}
    (hdrain : ∀ i e, act = .call i (.drainFails e) → e.isRejection = false)
    (hstep : c.step act = some c') : c'.AllDecided := by
  cases moves_of_step hstep with
  | handles => exact h.handle hinv.pending _ _
  | ends hreader error => exact h.endReading hinv.pending error
  | withdraws expectation he =>
    refine (h.addEntry expectation _).leave (c.slot_addEntry expectation _)
      (fun _ hvalue => by cases hvalue) fun e' he' hrejection => ?_
    rw [← Except.error.inj he', he] at hrejection
    exact absurd hrejection Bool.false_ne_true
  | sends hclosed expectation line => exact h.addEntry expectation _
  | waits hi hopen =>
    refine Registry.forall_mem_modify h fun a ha => ?_
    obtain rfl := Option.some.inj (hi.symm.trans ha)
    exact (h _ (List.mem_of_getElem? hi)).wait hopen
  | interrupts hi hopen reason =>
    exact Registry.forall_mem_modify h fun a ha =>
      (h a (List.mem_of_getElem? ha)).interrupt reason
  | leaves hi houtcome hrejected =>
    refine h.leave hi houtcome fun e he hrejection => ?_
    rcases hrejected e he hrejection with hfuture | hact
    · exact hfuture
    · exact absurd hrejection (Bool.eq_false_iff.mp (hdrain _ e (congrArg (Act.call _) hact)))
  | _ => exact h

/-- A write is decided by the first answer processed since its entry was added, whatever the other
parties do: a call that returns returns the value of that answer, a publish that its expectation
matches; a call that raises `WriteRejected` was refused by it; and as long as a write is pending
there was none. (`drain` raises no `WriteRejected`.) -/
theorem first_answer {session : Session} {acts : List Act}
    (hdrain : ∀ i e, .call i (.drainFails e) ∈ acts → e.isRejection = false)
    (hrun : Machine.run step { session } acts = some c) {call : SetCall}
    (hcall : call ∈ c.calls.slots) :
    (∀ value, call.phase = .returned value → ∃ address topic raw,
        call.firstAnswer c.log = some (.publish address topic value raw)
        ∧ call.verdict (.publish address topic value raw) = some true)
      ∧ (call.isRejected = true → ∃ address raw,
        call.firstAnswer c.log = some (.nak address raw)
        ∧ call.verdict (.nak address raw) = some false)
      ∧ (call.Unfinished → call.future = .pending →
        ∀ event ∈ c.log.drop call.addedAt, call.verdict event = none) := by
  have hall := Machine.run_records (I := fun _ c => c.Inv ∧ c.AllDecided) (C := fun _ => False)
    (D := fun act => ∀ i e, act = .call i (.drainFails e) → e.isRejection = false)
    (fun _ _ _ _ h hact hstep => ⟨step_inv h.1 hstep, decided_step h.1 h.2 hact hstep⟩) hrun
    (fun act hact i e heq => hdrain i e (heq ▸ hact)) (g := True)
    ⟨inv_fresh session, fun _ hnone => absurd hnone List.not_mem_nil⟩
  have hdecided := hall.2 call hcall
  refine ⟨fun value hvalue => hdecided.confirmed value (.inr hvalue),
    fun hrejected => hdecided.refused (.inr hrejected), fun hopen hpending event hevent => ?_⟩
  have hnone := List.find?_eq_none.mp (hdecided.unanswered hopen hpending) event hevent
  exact Option.not_isSome_iff_eq_none.mp hnone

theorem first_answer_coolerOn : ∃ address topic raw,
    (confirmed.log.drop 0).find? (fun event =>
        (({ WriteExpectation.coolerOn with observed := .bool true } : WriteExpectation).matches
          event).1.isSome)
      = some (.publish address topic (.bool true) raw) := by
  have hdrain : ∀ i e, .call i (.drainFails e) ∈ confirmedWrite → e.isRejection = false := by
    intro i e hmem
    simp [confirmedWrite] at hmem
  obtain ⟨hreturned, -⟩ := first_answer hdrain run_confirmedWrite List.mem_cons_self
  obtain ⟨address, topic, raw, hfirst, -⟩ := hreturned (.bool true) rfl
  exact ⟨address, topic, raw, hfirst⟩

end AsyncClient

end Ddmp
