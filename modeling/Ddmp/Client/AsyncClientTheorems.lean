import Ddmp.Client.AsyncMoves
import Ddmp.Session.ConfirmTheorems

/-!
# Pending writes of the asyncio client

The reader task, the timers, cancellations and the end of the connection all act on the
entries of `_pending`. `Inv` says what holds of them in every state: the entries are the
calls of `set` that have not ended, a future is settled at most once and with a result only
by a published value, and the end of the reader task leaves no future undone.
-/

namespace Ddmp

open Lib

/-! ## Expectations -/

/-- Only a publish confirms, and its value is the one observed. -/
theorem WriteExpectation.observed_of_matches {e : WriteExpectation} {event : Event}
    (h : (e.matches event).1 = some true) :
    ∃ address topic raw, event = .publish address topic (e.matches event).2.observed raw := by
  rcases e.answer_of_matches h with ⟨-, topic, value, raw, rfl, -⟩ | ⟨hfalse, -⟩
  · have hne : ¬ e.topic.address ≠ e.topic.address := not_not.mpr rfl
    refine ⟨e.topic.address, topic, raw, ?_⟩
    rw [WriteExpectation.matches, if_neg hne]
  · cases hfalse

/-! ## One call -/

/-- A future that is not done is pending. -/
theorem Future.eq_pending {f : Future} (h : f.done = false) : f = .pending := by
  cases f with
  | pending => rfl
  | result | exception | cancelled => exact nomatch h

namespace SetCall

/-- The value was published after the entry was added, by an event that confirms the write. -/
def Confirmed (log : List Event) (call : SetCall) (value : Value) : Prop :=
  ∃ k address topic raw, call.addedAt ≤ k ∧ log[k]? = some (.publish address topic value raw)
    ∧ (call.expectation.matches (.publish address topic value raw)).1 = some true

/-- What holds of a call in every state. -/
structure Inv (log : List Event) (call : SetCall) : Prop where
  once : call.invalid = false
  added : call.addedAt ≤ log.length
  result : ∀ value, call.future = .result value → call.Confirmed log value
  returned : ∀ value, call.phase = .returned value → call.Confirmed log value

/-- A call that agrees on the expectation's verdicts is confirmed as well, also by a longer log. -/
theorem Confirmed.mono {log : List Event} {call call' : SetCall} {value : Value}
    (h : call.Confirmed log value) (event : Event) (hadded : call'.addedAt = call.addedAt)
    (hmatches : ∀ event, (call'.expectation.matches event).1 = (call.expectation.matches event).1) :
    call'.Confirmed (log ++ [event]) value := by
  obtain ⟨k, address, topic, raw, hk, hlog, hconfirms⟩ := h
  refine ⟨k, address, topic, raw, hadded ▸ hk, ?_, (hmatches _).trans hconfirms⟩
  rw [List.getElem?_append_left (List.getElem?_eq_some_iff.mp hlog).1]
  exact hlog

theorem resolve_of_done {call : SetCall} (h : call.future.done = true) (event : Event) :
    call.resolve event = call := by
  rw [resolve, if_pos h]

/-- An undone future gets a result or an exception according to the verdict. -/
theorem resolve_of_not_done {call : SetCall} (h : call.future.done = false) (event : Event) :
    ∃ future, call.resolve event
        = { call with expectation := (call.expectation.matches event).2, future }
      ∧ ∀ value, future = .result value →
        (call.expectation.matches event).1 = some true
          ∧ value = (call.expectation.matches event).2.observed := by
  have hpending := Future.eq_pending h
  have hne : ¬ call.future.done = true := Bool.eq_false_iff.mp h
  rw [resolve, if_neg hne]
  cases hm : call.expectation.matches event with
  | mk verdict expectation =>
    cases verdict with
    | none =>
      refine ⟨call.future, rfl, fun value hvalue => ?_⟩
      rw [hpending] at hvalue
      exact nomatch hvalue
    | some verdict =>
      cases verdict with
      | true =>
        refine ⟨.result expectation.observed, ?_, fun value hvalue => ⟨rfl, ?_⟩⟩
        · dsimp only
          rw [setResult, if_neg hne]
        · exact (Future.result.inj hvalue).symm
      | false =>
        refine ⟨.exception (.writeRejected [.lit "cooler refused ",
          .val (.str expectation.topic.name), .lit " (NAK)"]), ?_, ?_⟩
        · dsimp only
          rw [setException, if_neg hne]
        · exact fun _ hvalue => (nomatch hvalue)

theorem lose_of_done {call : SetCall} (h : call.future.done = true) : call.lose = call := by
  rw [lose, if_pos h]

theorem lose_of_not_done {call : SetCall} (h : call.future.done = false) :
    call.lose
      = { call with future := .exception (.connectionClosed [.lit "connection lost"]) } := by
  have hne : ¬ call.future.done = true := Bool.eq_false_iff.mp h
  rw [lose, if_neg hne, setException, if_neg hne]

theorem done_lose (call : SetCall) : call.lose.future.done = true := by
  cases h : call.future.done with
  | true => rw [lose_of_done h, h]
  | false => rw [lose_of_not_done h]; rfl

@[simp] theorem phase_resolve (event : Event) (call : SetCall) :
    (call.resolve event).phase = call.phase := by
  cases h : call.future.done with
  | true => rw [resolve_of_done h]
  | false =>
    obtain ⟨future, heq, -⟩ := resolve_of_not_done h event
    rw [heq]

@[simp] theorem phase_lose (call : SetCall) : call.lose.phase = call.phase := by
  cases h : call.future.done with
  | true => rw [lose_of_done h]
  | false => rw [lose_of_not_done h]

/-- A call that is over has returned what it awaited, or has raised. -/
theorem phase_finish (outcome : Except PyErr Value) (call : SetCall) :
    (∃ value, outcome = .ok value ∧ (call.finish outcome).phase = .returned value)
      ∨ ∃ e, (call.finish outcome).phase = .raised e := by
  cases outcome with
  | ok value => exact .inl ⟨value, rfl, rfl⟩
  | error e => cases e <;> exact .inr ⟨_, rfl⟩

theorem not_unfinished_finish (outcome : Except PyErr Value) (call : SetCall) :
    ¬ (call.finish outcome).Unfinished := by
  rintro (h | ⟨interrupt, h⟩)
  all_goals
    rcases phase_finish outcome call with ⟨value, -, hphase⟩ | ⟨e, hphase⟩
    · exact nomatch hphase.symm.trans h
    · exact nomatch hphase.symm.trans h

/-! ## What keeps the invariant of a call -/

namespace Inv

variable {log : List Event} {call : SetCall}

theorem later (h : call.Inv log) (event : Event) : call.Inv (log ++ [event]) where
  once := h.once
  added := by
    have := h.added
    rw [List.length_append]
    omega
  result := fun value hvalue => (h.result value hvalue).mono event rfl fun _ => rfl
  returned := fun value hvalue => (h.returned value hvalue).mono event rfl fun _ => rfl

/-- An event may settle the future; if it does so with a result, it is the confirmation. -/
theorem resolve (h : call.Inv log) (event : Event) :
    (call.resolve event).Inv (log ++ [event]) := by
  cases hdone : call.future.done with
  | true =>
    rw [resolve_of_done hdone]
    exact h.later event
  | false =>
    obtain ⟨future, heq, hresult⟩ := resolve_of_not_done hdone event
    have hmatches := call.expectation.matches_after event
    rw [heq]
    refine ⟨h.once, (h.later event).added, fun value hvalue => ?_, fun value hvalue => ?_⟩
    · -- the event is the next entry of the log, and it was observed
      obtain ⟨hconfirms, rfl⟩ := hresult value hvalue
      obtain ⟨address, topic, raw, hevent⟩ :=
        WriteExpectation.observed_of_matches hconfirms
      refine ⟨log.length, address, topic, raw, h.added, ?_, ?_⟩
      · rw [List.getElem?_append_right (le_refl _), Nat.sub_self, ← hevent]
        rfl
      · rw [← hevent]
        exact (hmatches event).trans hconfirms
    · exact (h.returned value hvalue).mono event rfl hmatches

theorem lose (h : call.Inv log) : call.lose.Inv log := by
  cases hdone : call.future.done with
  | true =>
    rw [lose_of_done hdone]
    exact h
  | false =>
    rw [lose_of_not_done hdone]
    exact ⟨h.once, h.added, fun value hvalue => (nomatch hvalue), h.returned⟩

theorem interrupt (h : call.Inv log) (reason : Interrupt) : (call.interrupt reason).Inv log where
  once := h.once
  added := h.added
  result := by
    intro value hvalue
    refine h.result value ?_
    have hcancel : call.future.cancel = .result value := hvalue
    cases hf : call.future with
    | pending =>
      rw [hf] at hcancel
      exact nomatch hcancel
    | result | exception | cancelled =>
      rw [hf] at hcancel
      exact hcancel
  returned := fun value hvalue => (nomatch hvalue)

theorem wait (h : call.Inv log) : call.wait.Inv log :=
  ⟨h.once, h.added, h.result, fun _ hvalue => (nomatch hvalue)⟩

theorem finish (h : call.Inv log) {outcome : Except PyErr Value}
    (houtcome : ∀ value, outcome = .ok value → call.future = .result value) :
    (call.finish outcome).Inv log := by
  refine ⟨h.once, h.added, h.result, fun value hvalue => ?_⟩
  rcases phase_finish outcome call with ⟨value', hok, hphase⟩ | ⟨e, hphase⟩
  · obtain rfl := Phase.returned.inj (hphase.symm.trans hvalue)
    exact h.result _ (houtcome _ hok)
  · exact nomatch hphase.symm.trans hvalue

end Inv

end SetCall

/-! ## The client -/

namespace AsyncClient

/-- What holds of a client in every state. -/
structure Inv (c : AsyncClient) : Prop where
  calls : ∀ call ∈ c.calls.slots, call.Inv c.log
  pending : c.calls.Sound SetCall.Unfinished
  finished : c.reader = .finished →
    c.closed = true ∧ c.calls.AllLive fun call => call.future.done = true

/-- Equal entries belong to one call, so a call removes its own entry. -/
theorem calls_leave {c : AsyncClient} {i : ℕ} {call : SetCall} (hi : c.calls.slots[i]? = some call)
    (outcome : Except PyErr Value) :
    (c.leave i outcome).calls = c.calls.close i (SetCall.finish outcome) := by
  have hsame : (fun j => c.sameEntry j i) = fun j => i == j := by
    funext j
    rw [sameEntry, hi]
    by_cases hji : j = i
    · subst hji
      rw [hi]
      simp
    · have hbeq : (i == j) = false := beq_eq_false_iff_ne.mpr (Ne.symm hji)
      rw [hbeq]
      cases c.calls.slots[j]? with
      | none => rfl
      | some other => simp [hji]
  rw [leave, hsame, Registry.close, List.erase_eq_eraseP]

namespace Inv

variable {c : AsyncClient}

/-- A call ends, with a value only if that is the result of its future. -/
theorem calls_leave (hcalls : ∀ call ∈ c.calls.slots, call.Inv c.log) {i : ℕ} {call : SetCall}
    (hi : c.calls.slots[i]? = some call) {outcome : Except PyErr Value}
    (houtcome : ∀ value, outcome = .ok value → call.future = .result value) :
    ∀ call ∈ (c.leave i outcome).calls.slots, call.Inv c.log := by
  apply Registry.forall_mem_modify hcalls
  intro a ha
  obtain rfl := Option.some.inj (hi.symm.trans ha)
  exact (hcalls call (List.mem_of_getElem? hi)).finish houtcome

theorem leave (h : c.Inv) {i : ℕ} {call : SetCall} (hi : c.calls.slots[i]? = some call)
    {outcome : Except PyErr Value}
    (houtcome : ∀ value, outcome = .ok value → call.future = .result value) :
    (c.leave i outcome).Inv where
  calls := calls_leave h.calls hi houtcome
  pending := by
    rw [AsyncClient.calls_leave hi outcome]
    exact h.pending.close (SetCall.not_unfinished_finish outcome)
  finished := by
    intro hreader
    obtain ⟨hclosed, hdone⟩ := h.finished hreader
    rw [AsyncClient.calls_leave hi outcome]
    exact ⟨hclosed, hdone.close h.pending.nodup i _⟩

/-- A call goes on to wait, with its future as it was or cancelled. -/
theorem update (h : c.Inv) {i : ℕ} {call : SetCall} (hi : c.calls.slots[i]? = some call)
    (hopen : call.Unfinished) {f : SetCall → SetCall}
    (hinv : ∀ a : SetCall, a.Inv c.log → (f a).Inv c.log) (hf : ∀ a, (f a).Unfinished)
    (hdone : ∀ a : SetCall, a.future.done = true → (f a).future.done = true) :
    Inv { c with calls := c.calls.update i f } where
  calls := Registry.forall_mem_modify h.calls fun a ha =>
    hinv a (h.calls a (List.mem_of_getElem? ha))
  pending := h.pending.update fun a ha => by
    obtain rfl := Option.some.inj (hi.symm.trans ha)
    exact iff_of_true (hf call) hopen
  finished := fun hreader => ⟨(h.finished hreader).1, (h.finished hreader).2.update hdone⟩

theorem interrupt (h : c.Inv) {i : ℕ} {call : SetCall} (hi : c.calls.slots[i]? = some call)
    (hopen : call.Unfinished) (reason : Interrupt) :
    Inv { c with calls := c.calls.update i (SetCall.interrupt reason) } := by
  refine h.update hi hopen (fun a ha => ha.interrupt reason) (fun a => .inr ⟨_, rfl⟩) ?_
  intro a ha
  show a.future.cancel.done = true
  cases hf : a.future <;> rfl

theorem handle (h : c.Inv) (event : Event) (rest : List Event) : (c.handle event rest).Inv where
  calls := by
    intro call hcall
    obtain ⟨a, ha, rfl | rfl⟩ := Registry.mem_each h.pending.nodup hcall
    · exact (h.calls call ha).later event
    · exact (h.calls a ha).resolve event
  pending := h.pending.each fun a => by
    rw [SetCall.Unfinished, SetCall.phase_resolve, SetCall.Unfinished]
  finished := fun hreader => (nomatch hreader)

theorem endReading (h : c.Inv) (error : Option PyErr) : (c.endReading error).Inv where
  calls := by
    intro call hcall
    obtain ⟨a, ha, rfl | rfl⟩ := Registry.mem_each h.pending.nodup hcall
    · exact h.calls call ha
    · exact (h.calls a ha).lose
  pending := h.pending.each fun a => by
    rw [SetCall.Unfinished, SetCall.phase_lose, SetCall.Unfinished]
  finished := fun _ => ⟨rfl, Registry.allLive_each h.pending.nodup SetCall.done_lose⟩

theorem calls_addEntry (h : c.Inv) (expectation : WriteExpectation) (timeout : Value) :
    ∀ call ∈ (c.addEntry expectation timeout).calls.slots, call.Inv c.log :=
  Registry.forall_mem_add h.calls
    ⟨rfl, le_refl _, fun _ hvalue => (nomatch hvalue), fun _ hvalue => (nomatch hvalue)⟩

theorem addEntry (h : c.Inv) (hclosed : c.closed = false) (expectation : WriteExpectation)
    (timeout : Value) : (c.addEntry expectation timeout).Inv where
  calls := h.calls_addEntry expectation timeout
  pending := h.pending.add (.inl rfl)
  finished := fun hreader => (nomatch hclosed.symm.trans (h.finished hreader).1)

/-- An entry that is added to a closed client is taken out at once. -/
theorem addEntry_leave (h : c.Inv) (expectation : WriteExpectation) (timeout : Value) (e : PyErr) :
    ((c.addEntry expectation timeout).leave c.calls.slots.length (.error e)).Inv where
  calls := calls_leave (h.calls_addEntry expectation timeout)
    (c.slot_addEntry expectation timeout) fun _ hvalue => (nomatch hvalue)
  pending := by
    rw [AsyncClient.calls_leave (c.slot_addEntry expectation timeout)]
    exact (h.pending.add (.inl rfl)).close (SetCall.not_unfinished_finish _)
  finished := by
    intro hreader
    obtain ⟨hclosed, hdone⟩ := h.finished hreader
    rw [AsyncClient.calls_leave (c.slot_addEntry expectation timeout)]
    exact ⟨hclosed, hdone.add_close h.pending _ _⟩

end Inv

/-! ## Runs -/

variable {c c' : AsyncClient}

/-- Every step of every party keeps the invariant. -/
theorem step_inv (h : c.Inv) {act : Act} (hstep : c.step act = some c') : c'.Inv := by
  cases moves_of_step hstep with
  -- the reader task is not at its end after these
  | begins | reads | neverRuns => exact ⟨h.calls, h.pending, fun hreader => (nomatch hreader)⟩
  | handles hreader => exact h.handle _ _
  -- the invariant does not look at the writer
  | ends hreader error =>
    have hend := h.endReading error
    exact ⟨hend.calls, hend.pending, hend.finished⟩
  | sendRaises | raises => exact h
  | @withdraws _ _ _ _ expectation e => exact h.addEntry_leave expectation _ e
  | @sends _ _ _ timeout hclosed expectation line =>
    have hadd := h.addEntry hclosed expectation timeout
    exact ⟨hadd.calls, hadd.pending, hadd.finished⟩
  | waits hi hopen =>
    exact h.update hi hopen (fun _ ha => ha.wait) (fun _ => .inr ⟨none, rfl⟩) fun _ ha => ha
  | interrupts hi hopen reason => exact h.interrupt hi hopen reason
  | leaves hi houtcome =>
    have hleave := h.leave hi houtcome
    exact ⟨hleave.calls, hleave.pending, hleave.finished⟩
  | closes hclosed => exact ⟨h.calls, h.pending, fun hreader => ⟨rfl, (h.finished hreader).2⟩⟩
  | writes | loses | closesAgain | releases | closeReturns | closeRaises | iterates =>
    exact ⟨h.calls, h.pending, h.finished⟩

/-- A client that has just been made, with whatever session. -/
theorem inv_fresh (session : Session) : Inv { session } where
  calls := fun _ hcall => absurd hcall List.not_mem_nil
  pending := Registry.sound_empty
  finished := fun hreader => (nomatch hreader)

theorem inv_of_run {session : Session} {acts : List Act}
    (hrun : Machine.run step { session } acts = some c) : c.Inv :=
  Machine.run_preserves (fun _ _ _ h hstep => step_inv h hstep) hrun (inv_fresh session)

/-- In every state of every run: no future was settled twice; once the reader task is at its
end, no entry holds an undone future and `set` raises at once, leaving the entries as they
were; the entries are those of the calls that have not ended, each listed once; and a call that
has returned has returned the value of a publish that was processed after its entry was added
and that its expectation matched. -/
theorem pending_writes {session : Session} {acts : List Act}
    (hrun : Machine.run step { session } acts = some c) :
    (∀ call ∈ c.calls.slots, call.invalid = false)
      ∧ (c.reader = .finished →
        (∀ i ∈ c.calls.live, ∀ call, c.calls.slots[i]? = some call → call.future.done = true)
        ∧ ∀ ref value compartment timeout, ∃ e c',
          c.set ref value compartment timeout = (.error e, c') ∧ c'.calls.live = c.calls.live)
      ∧ (c.calls.live.Nodup
        ∧ ∀ i, i ∈ c.calls.live ↔ ∃ call, c.calls.slots[i]? = some call ∧ call.Unfinished)
      ∧ ∀ call ∈ c.calls.slots, ∀ value, call.phase = .returned value →
        ∃ k address topic raw, call.addedAt ≤ k
          ∧ c.log[k]? = some (.publish address topic value raw)
          ∧ (call.expectation.matches (.publish address topic value raw)).1 = some true := by
  have hinv := inv_of_run hrun
  refine ⟨fun call hcall => (hinv.calls call hcall).once, fun hreader => ?_,
    ⟨hinv.pending.nodup, hinv.pending.mem_live⟩, fun call hcall => (hinv.calls call hcall).returned⟩
  obtain ⟨hclosed, hdone⟩ := hinv.finished hreader
  refine ⟨hdone, fun ref value compartment timeout => ?_⟩
  rcases c.set_cases ref value compartment timeout with
    ⟨e, -, heq⟩ | ⟨expectation, ⟨e, -, heq⟩ | ⟨hopen, -⟩⟩
  · exact ⟨e, c, heq, rfl⟩
  · refine ⟨e, _, heq, ?_⟩
    rw [calls_leave (c.slot_addEntry expectation timeout)]
    exact Registry.live_add_close hinv.pending _ _
  · exact nomatch hopen.symm.trans hclosed

/-! ### A write that is confirmed -/

/-- The cooler is on. -/
def poweredOn : Frame :=
  { action := Action.PUBLISH.value, address := mccc 0x0B, payload := [1, 0, 0, 0] }

/-- The cooler is switched on, with 10 s to answer, and publishes that it is on. -/
def confirmedWrite : List Act :=
  [.reader .begin, .set (.name "coolerpow") (.bool true) none (.int 10), .call 0 .drained,
    .reader (.read (bytesLit "EAsAABoBAAAA\r")), .reader .handle, .call 0 .resume]

/-- The client during that write. -/
def writing (phase : Phase) (future : Future) (observed : Value) (live : List ℕ) : AsyncClient where
  reader := .running []
  written := bytesLit "EQsAABoBAAAA\r"
  calls := {
    slots := [{
      expectation := { WriteExpectation.coolerOn with observed }
      timeout := .int 10
      addedAt := 0
      future := future
      phase := phase }]
    live := live }

theorem eventOf_poweredOn : eventOf poweredOn
    = .publish (mccc 0x0B) (some WriteExpectation.coolerOn.topic) (.bool true) [1, 0, 0, 0] := by
  have hone : LittleEndian.i32Bytes 1 = [1, 0, 0, 0] := by decide
  have hstored : WriteExpectation.coolerOn.topic.stored [1, 0, 0, 0] = .bool true := by
    rw [← hone]
    exact Topic.stored_of_decode (BoolCodec.decode_i32Bytes (n := 1) (by decide))
  have htopic : topicByAddress.get? poweredOn.address = some WriteExpectation.coolerOn.topic := rfl
  have hpublish : poweredOn.IsPublish := rfl
  rw [eventOf, if_pos hpublish]
  simp only [htopic]
  rw [← hstored]
  rfl

theorem feed_poweredOn : Session.feed {} (bytesLit "EAsAABoBAAAA\r")
    = .ok ([eventOf poweredOn], Session.afterFrames {} [poweredOn]) := by
  have hreference : reference (bytesLit "EAsAABoBAAAA\r")
      = { frames := [poweredOn], dropped := 0, pending := [] } := rfl
  have hdata : ({} : Session).decoder.buf ++ bytesLit "EAsAABoBAAAA\r"
      = bytesLit "EAsAABoBAAAA\r" := rfl
  rw [Session.feed_eq, hdata, hreference]
  rfl

/-- Switching the cooler on from an open client whose session is fresh. -/
theorem set_of_fresh {c : AsyncClient} (hsession : c.session = {}) (hclosed : c.closed = false)
    (timeout : Value) : c.set (.name "coolerpow") (.bool true) none timeout
      = (.ok c.calls.slots.length, { c.addEntry WriteExpectation.coolerOn timeout with
          written := c.written ++ bytesLit "EQsAABoBAAAA\r" }) := by
  have hone : LittleEndian.i32Bytes 1 = [1, 0, 0, 0] := by decide
  have hframe := WriteExpectation.setFrame_coolerOn
  rw [hone] at hframe
  have hopen : ¬ (c.addEntry WriteExpectation.coolerOn timeout).closed = true :=
    Bool.eq_false_iff.mp hclosed
  rw [set, hsession]
  simp only [hframe, send, if_neg hopen]
  rfl

theorem set_coolerOn : AsyncClient.set { reader := .running [] } (.name "coolerpow") (.bool true)
    none (.int 10) = (.ok 0, writing .sending .pending .none [0]) := set_of_fresh rfl rfl (.int 10)

theorem receive_poweredOn :
    (writing (.waiting none) .pending .none [0]).receive (bytesLit "EAsAABoBAAAA\r")
      = { writing (.waiting none) .pending .none [0] with
          session := Session.afterFrames {} [poweredOn]
          reader := .running [eventOf poweredOn] } := by
  have hne : bytesLit "EAsAABoBAAAA\r" ≠ [] := by decide
  have hsession : (writing (.waiting none) .pending .none [0]).session = {} := rfl
  rw [receive, if_neg hne, hsession, feed_poweredOn]

/-- The client after that write. -/
def confirmed : AsyncClient :=
  { writing (.returned (.bool true)) (.result (.bool true)) (.bool true) [] with
    session := Session.afterFrames {} [poweredOn]
    events := [some (eventOf poweredOn)]
    log := [eventOf poweredOn] }

theorem run_confirmedWrite : Machine.run step {} confirmedWrite = some confirmed := by
  refine (Machine.run_cons_some step).mpr ⟨{ reader := .running [] }, rfl, ?_⟩
  refine (Machine.run_cons_some step).mpr ⟨writing .sending .pending .none [0], ?_, ?_⟩
  · exact congrArg (fun result => some result.2) set_coolerOn
  refine (Machine.run_cons_some step).mpr ⟨writing (.waiting none) .pending .none [0], rfl, ?_⟩
  refine (Machine.run_cons_some step).mpr ⟨_, congrArg some receive_poweredOn, ?_⟩
  rw [confirmed, eventOf_poweredOn]
  rfl

/-- The call returns `True`, the value of the only event, and its entry is gone. -/
theorem pending_writes_coolerOn : confirmed.calls.live = []
    ∧ ∃ k address topic raw, 0 ≤ k
      ∧ confirmed.log[k]? = some (.publish address topic (.bool true) raw)
      ∧ (({ WriteExpectation.coolerOn with observed := .bool true } : WriteExpectation).matches
          (.publish address topic (.bool true) raw)).1 = some true :=
  ⟨rfl, (pending_writes run_confirmedWrite).2.2.2 _ List.mem_cons_self (.bool true) rfl⟩

end AsyncClient

end Ddmp
