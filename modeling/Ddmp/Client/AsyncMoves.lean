import Ddmp.Client.AsyncClient
import Ddmp.Session.RaisesTheorems

/-!
# What one step of the asyncio client can do

`Moves` lists the steps of all parties with what holds of the client before them; whatever is
proved about runs is proved by its cases.
-/

namespace Ddmp

open Lib

/-- `WriteRejected`. -/
def PyErr.isRejection : PyErr → Bool
  | .writeRejected _ => true
  | _ => false

theorem PyErr.isRejection_of_isConversion {e : PyErr} (h : e.isConversion = true) :
    e.isRejection = false := by
  cases e with
  | writeRejected msg => exact nomatch h
  | _ => rfl

/-- `set_frame` never raises `WriteRejected`. -/
theorem Session.isRejection_setFrame {s : Session} {ref : TopicRef} {value : Value}
    {compartment : Option ℤ} {e : PyErr} (h : s.setFrame ref value compartment = .error e) :
    e.isRejection = false := by
  have he := s.raises_setFrame ref value compartment e h
  cases e with
  | writeRejected msg => exact nomatch he
  | _ => rfl

namespace SetCall

theorem awaited_eq_ok {call : SetCall} {interrupt : Option Interrupt} {value : Value}
    (h : call.awaited interrupt = .ok value) : call.future.outcome = .ok value := by
  cases interrupt with
  | none => exact h
  | some reason => cases reason <;> exact nomatch h

theorem outcome_eq_ok {fut : Future} {value : Value} (h : fut.outcome = .ok value) :
    fut = .result value := by
  cases fut with
  | result v => rw [Except.ok.inj h]
  | pending | exception | cancelled => exact nomatch h

/-- What a call awaits is a rejection only if its future holds it. -/
theorem future_of_outcome_rejected {fut : Future} {e : PyErr} (h : fut.outcome = .error e)
    (he : e.isRejection = true) : fut = .exception e := by
  cases fut with
  | exception e' => rw [Except.error.inj h]
  | pending | cancelled =>
    rw [← Except.error.inj h] at he
    exact nomatch he
  | result v => exact nomatch h

theorem future_of_awaited_rejected {call : SetCall} {interrupt : Option Interrupt} {e : PyErr}
    (h : call.awaited interrupt = .error e) (he : e.isRejection = true) :
    call.future = .exception e := by
  cases interrupt with
  | none => exact future_of_outcome_rejected h he
  | some reason =>
    cases reason <;>
    · rw [← Except.error.inj h] at he
      exact nomatch he

theorem isRejection_expiresAtOnce {call : SetCall} {e : PyErr}
    (h : call.expiresAtOnce = .error e) : e.isRejection = false := by
  unfold expiresAtOnce at h
  split at h
  · exact nomatch h
  · exact PyErr.isRejection_of_isConversion (Value.converts_le _ _ e h)

end SetCall

namespace AsyncClient

/-! ## A call of `set` up to its first suspension -/

/-- `send` writes a line to an open client, or raises and changes nothing. -/
theorem send_cases (c : AsyncClient) (frame : Frame) :
    (∃ e, e.isRejection = false ∧ c.send frame = (.error e, c))
      ∨ c.closed = false
        ∧ ∃ line, c.send frame = (.ok (), { c with written := c.written ++ line }) := by
  by_cases hclosed : c.closed = true
  · exact .inl ⟨.connectionClosed _, rfl, by rw [send, if_pos hclosed]⟩
  · have hopen : c.closed = false := Bool.eq_false_iff.mpr hclosed
    cases hline : frame.encodeLine with
    | error e =>
      have he := PyErr.isRejection_of_isConversion (frame.converts_encodeLine e hline)
      exact .inl ⟨e, he, by rw [send, if_neg hclosed, hline]⟩
    | ok line => exact .inr ⟨hopen, line, by rw [send, if_neg hclosed, hline]⟩

/-- What a call of `set` does up to its first suspension: it raises and leaves the client as it
was, adds its entry and takes it out again, or adds its entry and waits. -/
theorem set_cases (c : AsyncClient) (ref : TopicRef) (value : Value) (compartment : Option ℤ)
    (timeout : Value) :
    (∃ e, e.isRejection = false ∧ c.set ref value compartment timeout = (.error e, c))
      ∨ ∃ expectation,
        (∃ e, e.isRejection = false ∧ c.set ref value compartment timeout = (.error e,
            (c.addEntry expectation timeout).leave c.calls.slots.length (.error e)))
          ∨ c.closed = false ∧ ∃ line, c.set ref value compartment timeout
            = (.ok c.calls.slots.length,
                { c.addEntry expectation timeout with written := c.written ++ line }) := by
  cases hframe : c.session.setFrame ref value compartment with
  | error e => exact .inl ⟨e, Session.isRejection_setFrame hframe, by rw [set, hframe]⟩
  | ok pair =>
    obtain ⟨frame, expectation⟩ := pair
    refine .inr ⟨expectation, ?_⟩
    rcases (c.addEntry expectation timeout).send_cases frame with
      ⟨e, he, hsend⟩ | ⟨hclosed, line, hsend⟩
    · refine .inl ⟨e, he, ?_⟩
      rw [set, hframe]
      dsimp only
      rw [hsend]
    · refine .inr ⟨hclosed, line, ?_⟩
      rw [set, hframe]
      dsimp only
      rw [hsend]
      rfl

/-- The slot that a new entry takes. -/
theorem slot_addEntry (c : AsyncClient) (expectation : WriteExpectation) (timeout : Value) :
    (c.addEntry expectation timeout).calls.slots[c.calls.slots.length]?
      = some { expectation, timeout, addedAt := c.log.length } :=
  List.getElem?_concat_length

/-! ## All steps -/

/-- The steps, by action. -/
inductive Moves (c : AsyncClient) : Act → AsyncClient → Prop
  | begins (hreader : c.reader = .notBegun) :
      Moves c (.reader .begin) { c with reader := .running [] }
  | reads {data : Bytes} {events : List Event} {session : Session}
      (hreader : c.reader = .running []) (hfeed : c.session.feed data = .ok (events, session)) :
      Moves c (.reader (.read data)) { c with session, reader := .running events }
  | handles {event : Event} {rest : List Event} (hreader : c.reader = .running (event :: rest)) :
      Moves c (.reader .handle) (c.handle event rest)
  | ends {act : ReaderAct} {rest : List Event} (hreader : c.reader = .running rest)
      (error : Option PyErr) {writerClosed : Bool}
      (hwriter : c.writerClosed = true → writerClosed = true) :
      Moves c (.reader act) { c.endReading error with writerClosed }
  | neverRuns (hreader : c.reader = .notBegun) (hcancel : c.cancelRequested = true) :
      Moves c (.reader .cancelled) { c with reader := .neverRan }
  | sendRaises {frame : Frame} : Moves c (.send frame) c
  | writes {frame : Frame} (hclosed : c.closed = false) (line : Bytes) :
      Moves c (.send frame) { c with written := c.written ++ line }
  | loses : Moves c .lost { c with writerClosed := true }
  | raises {ref : TopicRef} {value : Value} {compartment : Option ℤ} {timeout : Value} :
      Moves c (.set ref value compartment timeout) c
  | withdraws {ref : TopicRef} {value : Value} {compartment : Option ℤ} {timeout : Value}
      (expectation : WriteExpectation) {e : PyErr} (he : e.isRejection = false) :
      Moves c (.set ref value compartment timeout)
        ((c.addEntry expectation timeout).leave c.calls.slots.length (.error e))
  | sends {ref : TopicRef} {value : Value} {compartment : Option ℤ} {timeout : Value}
      (hclosed : c.closed = false) (expectation : WriteExpectation) (line : Bytes) :
      Moves c (.set ref value compartment timeout)
        { c.addEntry expectation timeout with written := c.written ++ line }
  | waits {i : ℕ} {call : SetCall} (hi : c.calls.slots[i]? = some call)
      (hopen : call.Unfinished) :
      Moves c (.call i .drained) { c with calls := c.calls.update i SetCall.wait }
  | interrupts {i : ℕ} {call : SetCall} {act : CallAct} (hi : c.calls.slots[i]? = some call)
      (hopen : call.Unfinished) (reason : Interrupt) :
      Moves c (.call i act) { c with calls := c.calls.update i (SetCall.interrupt reason) }
  | leaves {i : ℕ} {call : SetCall} {act : CallAct} {outcome : Except PyErr Value}
      (hi : c.calls.slots[i]? = some call)
      (houtcome : ∀ value, outcome = .ok value → call.future = .result value)
      (hrejected : ∀ e, outcome = .error e → e.isRejection = true →
        call.future = .exception e ∨ act = .drainFails e)
      {writerClosed : Bool} (hwriter : c.writerClosed = true → writerClosed = true) :
      Moves c (.call i act) { c.leave i outcome with writerClosed }
  | closesAgain (hclosed : c.closed = true) :
      Moves c (.close .start) { c with closes := c.closes ++ [.returned] }
  | closes (hclosed : c.closed = false) :
      Moves c (.close .start)
        { c with closed := true, cancelRequested := true, closes := c.closes ++ [.awaitingTask] }
  | releases {j : ℕ} (hj : c.closes[j]? = some .awaitingTask)
      (hreader : c.reader = .finished ∨ c.reader = .neverRan) :
      Moves c (.close (.taskDone j))
        { c with writerClosed := true, closes := c.closes.set j .awaitingClosed }
  | closeReturns {j : ℕ} (hj : c.closes[j]? = some .awaitingClosed) :
      Moves c (.close (.waitedClosed j))
        { c with events := c.events ++ [none], closes := c.closes.set j .returned }
  | closeRaises {j : ℕ} (hj : c.closes[j]? = some .awaitingClosed) :
      Moves c (.close (.cancel j)) { c with closes := c.closes.set j .raised }
  | iterates {act : IterationAct} (events : List (Option Event)) (iterations : List Iteration) :
      Moves c (.iteration act) { c with events, iterations }

variable {c c' : AsyncClient}

theorem moves_of_stepReader {act : ReaderAct} (hstep : c.stepReader act = some c') :
    c.Moves (.reader act) c' := by
  cases act with
  | begin =>
    rw [stepReader] at hstep
    split at hstep
    · rename_i hreader _
      exact Option.some.inj hstep ▸ .begins hreader
    · exact nomatch hstep
  | read data =>
    rw [stepReader] at hstep
    split at hstep
    · rename_i hreader _
      rw [← Option.some.inj hstep, receive]
      split
      · exact .ends hreader _ id
      · split
        · exact .ends hreader _ id
        · rename_i hfeed
          exact .reads hreader hfeed
    · exact nomatch hstep
  | readError e =>
    rw [stepReader] at hstep
    split at hstep
    · rename_i hreader _
      exact Option.some.inj hstep ▸ .ends hreader _ fun _ => rfl
    · exact nomatch hstep
  | handle =>
    rw [stepReader] at hstep
    split at hstep
    · rename_i hreader
      exact Option.some.inj hstep ▸ .handles hreader
    · exact nomatch hstep
  | cancelled =>
    rw [stepReader] at hstep
    split at hstep
    · rename_i hreader hcancel
      exact Option.some.inj hstep ▸ .neverRuns hreader hcancel
    · rename_i hreader _
      exact Option.some.inj hstep ▸ .ends hreader _ id
    · exact nomatch hstep

theorem moves_of_send (frame : Frame) : c.Moves (.send frame) (c.send frame).2 := by
  -- closed, or no line can be made of the frame
  rcases c.send_cases frame with ⟨e, -, heq⟩ | ⟨hclosed, line, heq⟩
  · rw [heq]
    exact .sendRaises
  · rw [heq]
    exact .writes hclosed line

theorem moves_of_set (ref : TopicRef) (value : Value) (compartment : Option ℤ) (timeout : Value) :
    c.Moves (.set ref value compartment timeout) (c.set ref value compartment timeout).2 := by
  rcases c.set_cases ref value compartment timeout with
    ⟨e, -, heq⟩ | ⟨expectation, ⟨e, he, heq⟩ | ⟨hclosed, line, heq⟩⟩
  · rw [heq]
    exact .raises
  · rw [heq]
    exact .withdraws expectation he
  · rw [heq]
    exact .sends hclosed expectation line

theorem moves_of_drained {i : ℕ} {call : SetCall} (hi : c.calls.slots[i]? = some call)
    (hopen : call.Unfinished) : c.Moves (.call i .drained) (c.drained i call) := by
  unfold drained
  cases hexpires : call.expiresAtOnce with
  | error e =>
    refine .leaves hi (fun _ hvalue => by cases hvalue) (fun e' he' hrejection => ?_) id
    rw [← Except.error.inj he', SetCall.isRejection_expiresAtOnce hexpires] at hrejection
    exact nomatch hrejection
  | ok expired =>
    dsimp only
    split
    · exact .leaves hi (fun _ => SetCall.outcome_eq_ok)
        (fun _ he hrejection => .inl (SetCall.future_of_outcome_rejected he hrejection)) id
    · split
      · exact .interrupts hi hopen .timeout
      · exact .waits hi hopen

theorem moves_of_stepCall {i : ℕ} {call : SetCall} (hi : c.calls.slots[i]? = some call)
    {act : CallAct} (hstep : c.stepCall i call act = some c') : c.Moves (.call i act) c' := by
  cases act with
  | drained =>
    rw [stepCall] at hstep
    split at hstep
    · rename_i hphase
      exact Option.some.inj hstep ▸ moves_of_drained hi (.inl hphase)
    · exact nomatch hstep
  | drainFails e =>
    rw [stepCall] at hstep
    split at hstep
    · exact Option.some.inj hstep ▸ .leaves hi (fun _ hvalue => by cases hvalue)
        (fun _ he _ => .inr (by rw [Except.error.inj he])) fun _ => rfl
    · exact nomatch hstep
  | timesOut =>
    rw [stepCall] at hstep
    split at hstep
    · exact nomatch hstep
    · rename_i hphase _
      exact Option.some.inj hstep ▸ .interrupts hi (.inr ⟨none, hphase⟩) .timeout
    · exact nomatch hstep
  | cancel =>
    rw [stepCall] at hstep
    split at hstep
    · refine Option.some.inj hstep ▸ .leaves hi (fun _ hvalue => by cases hvalue) ?_ id
      intro e he hrejection
      rw [← Except.error.inj he] at hrejection
      exact nomatch hrejection
    · rename_i interrupt hphase
      exact Option.some.inj hstep ▸ .interrupts hi (.inr ⟨interrupt, hphase⟩) .cancel
    · exact nomatch hstep
  | resume =>
    rw [stepCall] at hstep
    split at hstep
    · split at hstep
      · exact Option.some.inj hstep ▸ .leaves hi
          (fun _ hvalue => SetCall.outcome_eq_ok (SetCall.awaited_eq_ok hvalue))
          (fun _ he hrejection => .inl (SetCall.future_of_awaited_rejected he hrejection)) id
      · exact nomatch hstep
    · exact nomatch hstep

theorem moves_of_stepClose {act : CloseAct} (hstep : c.stepClose act = some c') :
    c.Moves (.close act) c' := by
  cases act with
  | start =>
    rw [← Option.some.inj hstep, close]
    split
    · rename_i hclosed
      exact .closesAgain hclosed
    · rename_i hclosed
      exact .closes (Bool.eq_false_iff.mpr hclosed)
  | taskDone j =>
    rw [stepClose] at hstep
    split at hstep
    · rename_i hj hreader
      exact Option.some.inj hstep ▸ .releases hj (.inl hreader)
    · rename_i hj hreader
      exact Option.some.inj hstep ▸ .releases hj (.inr hreader)
    · exact nomatch hstep
  | waitedClosed j =>
    rw [stepClose] at hstep
    split at hstep
    · rename_i hj
      exact Option.some.inj hstep ▸ .closeReturns hj
    · exact nomatch hstep
  | cancel j =>
    rw [stepClose] at hstep
    split at hstep
    · rename_i hj
      exact Option.some.inj hstep ▸ .closeRaises hj
    · exact nomatch hstep

theorem moves_of_stepIteration {act : IterationAct} (hstep : c.stepIteration act = some c') :
    c.Moves (.iteration act) c' := by
  cases act with
  | start | abandon j => exact Option.some.inj hstep ▸ .iterates _ _
  | take j =>
    rw [stepIteration] at hstep
    split at hstep
    · exact Option.some.inj hstep ▸ .iterates _ _
    · exact Option.some.inj hstep ▸ .iterates _ _
    · exact nomatch hstep
  | next j =>
    rw [stepIteration] at hstep
    split at hstep
    · exact Option.some.inj hstep ▸ .iterates _ _
    · exact nomatch hstep

/-- Every step is one of these. -/
theorem moves_of_step {act : Act} (hstep : c.step act = some c') : c.Moves act c' := by
  cases act with
  | reader act => exact moves_of_stepReader hstep
  | send frame => exact Option.some.inj hstep ▸ moves_of_send frame
  | lost => exact Option.some.inj hstep ▸ .loses
  | set ref value compartment timeout =>
    exact Option.some.inj hstep ▸ moves_of_set ref value compartment timeout
  | call i act =>
    obtain ⟨call, hi, hstep⟩ := Option.bind_eq_some_iff.mp hstep
    exact moves_of_stepCall hi hstep
  | close act => exact moves_of_stepClose hstep
  | iteration act => exact moves_of_stepIteration hstep

end AsyncClient

end Ddmp
