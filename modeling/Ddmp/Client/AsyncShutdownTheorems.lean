import Ddmp.Client.AsyncClientTheorems
import Ddmp.Client.AsyncStreamTheorems

/-!
# A shutdown comes to its end

A call of `close` waits for the reader task and for the writer, and the calls of `set` wait for
the reader task to fail their futures. `shutdown_ends`: none of them waits for another one, so all
of them can come to their end without the cooler, a timer, or a caller who gives up.
-/

namespace Ddmp

open Lib

namespace AsyncClient

/-- What needs nobody outside the event loop: the reader task is cancelled, a call of `close` goes
on, a call of `set` goes on. -/
def Act.IsLocal : Act → Prop
  | .reader .cancelled | .close (.taskDone _) | .close (.waitedClosed _) => True
  | .call _ .drained | .call _ .resume => True
  | _ => False

variable {c c' : AsyncClient}

/-! ## The calls of `close` -/

/-- A call that waits for the writer has closed it. -/
def Releasing (c : AsyncClient) : Prop := .awaitingClosed ∈ c.closes → c.writerClosed = true

theorem Releasing.step (h : c.Releasing) {act : Act} (hstep : c.step act = some c') :
    c'.Releasing := by
  cases moves_of_step hstep with
  | closesAgain | closes =>
    intro hmem
    rcases List.mem_append.mp hmem with hmem | hmem
    · exact h hmem
    · cases List.mem_singleton.mp hmem
  | loses | releases => exact fun _ => rfl
  | ends hreader error hwriter | leaves hi houtcome hrejected hwriter =>
    exact fun hmem => hwriter (h hmem)
  | closeReturns hj | closeRaises hj => exact fun _ => h (List.mem_of_getElem? hj)
  | begins | reads | handles | neverRuns | sendRaises | writes | raises | withdraws | sends | waits
  | interrupts | iterates => exact h

theorem releasing_of_run {session : Session} {acts : List Act}
    (hrun : Machine.run step { session } acts = some c) : c.Releasing :=
  Machine.run_preserves (fun _ _ _ h hstep => Releasing.step h hstep) hrun
    fun hmem => absurd hmem List.not_mem_nil

/-- A call that waits has requested the cancellation of the reader task. -/
theorem Queued.cancelRequested {past : List (AsyncClient × Act)} (h : Queued past c) {j : ℕ}
    {call : CloseCall} (hj : c.closes[j]? = some call) (hwaits : call.waits = true) :
    c.cancelRequested = true := by
  have hpos : 0 < c.closes.countP CloseCall.waits :=
    List.countP_pos_iff.mpr ⟨call, List.mem_of_getElem? hj, hwaits⟩
  have hsingle := h.single
  cases hcancel : c.cancelRequested with
  | true => rfl
  | false =>
    rw [hcancel, Bool.toNat_false] at hsingle
    omega

/-- A call that waits comes to its end in two steps once the reader task is over. -/
theorem run_close (hreleasing : c.Releasing) (hreader : c.reader = .finished) {j : ℕ}
    {call : CloseCall} (hj : c.closes[j]? = some call) (hwaits : call.waits = true) :
    ∃ acts c', Machine.run step c acts = some c' ∧ acts.length ≤ 2 ∧ (∀ act ∈ acts, act.IsLocal)
      ∧ c'.closes[j]? = some .returned ∧ c'.writerClosed = true ∧ c'.calls = c.calls
      ∧ c'.reader = c.reader := by
  have hlt : j < c.closes.length := (List.getElem?_eq_some_iff.mp hj).1
  cases call with
  | awaitingTask =>
    refine ⟨[.close (.taskDone j), .close (.waitedClosed j)],
      { c with
        writerClosed := true
        closes := (c.closes.set j .awaitingClosed).set j .returned
        events := c.events ++ [none] }, ?_, le_refl 2, ?_, ?_, rfl, rfl, rfl⟩
    · have hset : (c.closes.set j .awaitingClosed)[j]? = some .awaitingClosed :=
        List.getElem?_set_self hlt
      simp only [Machine.run_cons, Machine.run_nil, step, stepClose, hj, hreader, Option.bind_some,
        hset]
    · simp [Act.IsLocal]
    · exact List.getElem?_set_self (by rwa [List.length_set])
  | awaitingClosed =>
    refine ⟨[.close (.waitedClosed j)],
      { c with closes := c.closes.set j .returned, events := c.events ++ [none] }, ?_,
      Nat.le_succ 1, ?_, List.getElem?_set_self hlt, hreleasing (List.mem_of_getElem? hj), rfl,
      rfl⟩
    · simp only [Machine.run_cons, Machine.run_nil, step, stepClose, hj, Option.bind_some]
    · simp [Act.IsLocal]
  -- these do not wait
  | returned | raised => exact absurd hwaits Bool.false_ne_true

/-! ## The calls of `set` -/

/-- Once its future is done, the next step of a call of `set` is its last one. -/
theorem step_live (h : c.Inv) (hdone : c.calls.AllLive fun call => call.future.done = true) {i : ℕ}
    {rest : List ℕ} (hlive : c.calls.live = i :: rest) :
    ∃ act outcome, Act.IsLocal (.call i act)
      ∧ c.step (.call i act) = some (c.leave i outcome)
      ∧ (c.leave i outcome).calls.live = rest
      ∧ (c.leave i outcome).calls.AllLive fun call => call.future.done = true := by
  have hi : i ∈ c.calls.live := hlive ▸ List.mem_cons_self
  obtain ⟨call, hcall, hopen⟩ := (h.pending.mem_live i).mp hi
  have hfuture := hdone i hi call hcall
  have hleaves (outcome : Except PyErr Value) : (c.leave i outcome).calls.live = rest
      ∧ (c.leave i outcome).calls.AllLive fun call => call.future.done = true := by
    rw [calls_leave hcall]
    refine ⟨?_, hdone.close h.pending.nodup i _⟩
    rw [Registry.close, hlive, List.erase_cons_head]
  rcases hopen with hphase | ⟨interrupt, hphase⟩
  · -- `wait_for` does not wait, unless it cannot compare the timeout
    cases hexpires : call.expiresAtOnce with
    | error e =>
      refine ⟨.drained, .error e, trivial, ?_, hleaves _⟩
      simp only [step, hcall, Option.bind_some, stepCall, hphase, drained, hexpires]
    | ok expired =>
      refine ⟨.drained, call.future.outcome, trivial, ?_, hleaves _⟩
      simp only [step, hcall, Option.bind_some, stepCall, hphase, drained, hexpires, hfuture,
        if_true]
  · refine ⟨.resume, call.awaited interrupt, trivial, ?_, hleaves _⟩
    simp only [step, hcall, Option.bind_some, stepCall, hphase, hfuture, if_true]

/-- One step for each entry empties `_pending`. -/
theorem run_live (h : c.Inv) (hdone : c.calls.AllLive fun call => call.future.done = true) :
    ∃ acts c', Machine.run step c acts = some c' ∧ acts.length = c.calls.live.length
      ∧ (∀ act ∈ acts, act.IsLocal ∧ ∃ i a, act = .call i a) ∧ c'.calls.live = []
      ∧ c'.closes = c.closes ∧ c'.writerClosed = c.writerClosed ∧ c'.reader = c.reader := by
  generalize hn : c.calls.live = live
  induction live generalizing c with
  | nil => exact ⟨[], c, rfl, rfl, fun _ hact => absurd hact List.not_mem_nil, hn, rfl, rfl, rfl⟩
  | cons i rest ih =>
    obtain ⟨act, outcome, hlocal, hstep, hrest, hdone'⟩ := step_live h hdone hn
    obtain ⟨acts, c', hrun, hlength, hacts, hlive, hsame⟩ := ih (step_inv h hstep) hdone' hrest
    refine ⟨.call i act :: acts, c', (Machine.run_cons_some step).mpr ⟨_, hstep, hrun⟩, ?_, ?_,
      hlive, hsame⟩
    · rw [List.length_cons, hlength, List.length_cons]
    · exact List.forall_mem_cons.mpr ⟨⟨hlocal, i, act, rfl⟩, hacts⟩

/-! ## Both -/

/-- What a shutdown rests on. -/
structure Closing (c : AsyncClient) : Prop where
  inv : c.Inv
  releasing : c.Releasing
  queued : ∃ past, Queued past c

theorem closing_of_run {session : Session} {acts : List Act}
    (hrun : Machine.run step { session } acts = some c) : c.Closing :=
  ⟨inv_of_run hrun, releasing_of_run hrun, _, queued_of_run hrun⟩

theorem Closing.step (h : c.Closing) {act : Act} (hstep : c.step act = some c') : c'.Closing := by
  obtain ⟨past, hqueued⟩ := h.queued
  exact ⟨step_inv h.inv hstep, h.releasing.step hstep, _, hqueued.step hstep⟩

/-- The cancellation that a waiting call of `close` has requested ends the reader task. -/
theorem Closing.run_reader (h : c.Closing) {j : ℕ} {call : CloseCall}
    (hj : c.closes[j]? = some call) (hwaits : call.waits = true)
    (hbegun : c.reader = .finished ∨ ∃ events, c.reader = .running events) :
    ∃ acts c', Machine.run AsyncClient.step c acts = some c' ∧ acts.length ≤ 1
      ∧ (∀ act ∈ acts, act.IsLocal) ∧ c'.Closing ∧ c'.reader = .finished ∧ c'.closes = c.closes
      ∧ c'.calls.live = c.calls.live := by
  rcases hbegun with hreader | ⟨events, hreader⟩
  · exact ⟨[], c, rfl, Nat.zero_le 1, fun _ hact => absurd hact List.not_mem_nil, h, hreader, rfl,
      rfl⟩
  · obtain ⟨past, hqueued⟩ := h.queued
    have hcancel := hqueued.cancelRequested hj hwaits
    have hstep : c.step (.reader .cancelled) = some (c.endReading none) := by
      simp only [AsyncClient.step, stepReader, hreader, hcancel]
    refine ⟨[.reader .cancelled], c.endReading none, ?_, le_refl 1, ?_, h.step hstep, rfl, rfl, rfl⟩
    · rw [Machine.run_cons, hstep]
      rfl
    · simp [Act.IsLocal]

/-- In every state in which a call of `close` waits and the reader task has begun, a few steps that
need nobody outside, at most three and one for each entry of `_pending`, lead to the end: the call
has returned, the writer is closed, and every call of `set` has returned or raised. -/
theorem shutdown_ends {session : Session} {acts : List Act}
    (hrun : Machine.run step { session } acts = some c) {j : ℕ} {call : CloseCall}
    (hj : c.closes[j]? = some call) (hwaits : call.waits = true)
    (hbegun : c.reader = .finished ∨ ∃ events, c.reader = .running events) :
    ∃ more c', Machine.run step c more = some c' ∧ more.length ≤ 3 + c.calls.live.length
      ∧ (∀ act ∈ more, act.IsLocal) ∧ c'.closes[j]? = some .returned ∧ c'.writerClosed = true
      ∧ c'.calls.live = [] := by
  obtain ⟨acts₁, c₁, hrun₁, hlen₁, hlocal₁, hclosing, hreader, hcloses, hlive⟩ :=
    (closing_of_run hrun).run_reader hj hwaits hbegun
  obtain ⟨acts₂, c₂, hrun₂, hlen₂, hlocal₂, hreturned, hwriter, hcalls, hreader₂⟩ :=
    run_close hclosing.releasing hreader (hcloses ▸ hj) hwaits
  have hinv : c₂.Inv :=
    Machine.run_preserves (fun _ _ _ h hstep => step_inv h hstep) hrun₂ hclosing.inv
  obtain ⟨acts₃, c₃, hrun₃, hlen₃, hlocal₃, hempty, hcloses₃, hwriter₃, -⟩ :=
    run_live hinv (hinv.finished (hreader₂.trans hreader)).2
  refine ⟨acts₁ ++ (acts₂ ++ acts₃), c₃, ?_, ?_, ?_, hcloses₃ ▸ hreturned, hwriter₃ ▸ hwriter,
    hempty⟩
  · rw [Machine.run_append, hrun₁, Option.bind_some, Machine.run_append, hrun₂, Option.bind_some,
      hrun₃]
  · rw [hcalls, hlive] at hlen₃
    simp only [List.length_append]
    omega
  · simp only [List.forall_mem_append]
    exact ⟨hlocal₁, hlocal₂, fun act hact => (hlocal₃ act hact).1⟩

/-- A write is pending when the client is closed. -/
theorem shutdown_ends_switchOn :
    ∃ c, Machine.run step {} [.reader .begin,
        .set (.name "coolerpow") (.bool true) none (.int 10), .call 0 .drained, .close .start]
        = some c
      ∧ ∃ more c', Machine.run step c more = some c' ∧ c'.closes[0]? = some .returned
        ∧ c'.writerClosed = true ∧ c'.calls.live = [] := by
  have hsome : (Machine.run step {} [.reader .begin,
      .set (.name "coolerpow") (.bool true) none (.int 10), .call 0 .drained,
      .close .start]).isSome := rfl
  obtain ⟨c, hrun⟩ := Option.isSome_iff_exists.mp hsome
  have hstate : (Machine.run step {} [.reader .begin,
      .set (.name "coolerpow") (.bool true) none (.int 10), .call 0 .drained,
      .close .start]).map (fun c => (c.closes, c.reader))
      = some ([.awaitingTask], .running []) := rfl
  rw [hrun] at hstate
  obtain ⟨hcloses, hreader⟩ := Prod.mk.inj (Option.some.inj hstate)
  have hj : c.closes[0]? = some .awaitingTask := by rw [hcloses]; rfl
  obtain ⟨more, c', hmore, -, -, hend⟩ := shutdown_ends hrun hj rfl (.inr ⟨[], hreader⟩)
  exact ⟨c, hrun, more, c', hmore, hend⟩

end AsyncClient

end Ddmp
