import Ddmp.Client.AsyncMoves
import Mathlib.Data.List.ReduceOption

/-!
# What the iterations over `events()` see

The queue is the only way from the reader task to the iterations: `delivered` says that nothing
that was decoded is lost, doubled or reordered on it, whoever takes what, and `end_markers` how
many iterations it can end.
-/

namespace Ddmp

open Lib

/-- How many end markers the reader task has put. -/
def Reader.marks : Reader → ℕ
  | .finished => 1
  | _ => 0

/-- A call of `close` that waits. -/
def CloseCall.waits : CloseCall → Bool
  | .awaitingTask | .awaitingClosed => true
  | .returned | .raised => false

namespace AsyncClient

/-! ## What a step takes and puts -/

/-- What a step hands to `feed`. -/
def chunk : AsyncClient × Act → List Bytes
  | (_, .reader (.read data)) => if data = [] then [] else [data]
  | _ => []

/-- What a step takes from the queue. -/
def taken : AsyncClient × Act → List (Option Event)
  | (c, .iteration (.take _)) => c.events.head?.toList
  | _ => []

/-- The step is the end of a call of `close` that has waited for the writer. -/
def closing : AsyncClient × Act → Bool
  | (_, .close (.waitedClosed _)) => true
  | _ => false

/-- The events yielded by the iterations, in the order in which they are yielded. -/
def yielded (past : List (AsyncClient × Act)) : List Event := (past.flatMap taken).reduceOption

/-- How many iterations have come to their end by an end marker. -/
def endings (past : List (AsyncClient × Act)) : ℕ := (past.flatMap taken).countP Option.isNone

variable {c c' : AsyncClient} {past : List (AsyncClient × Act)} {session : Session}

/-- An iteration takes the head of the queue, or leaves the queue alone. -/
theorem stepIteration_cases {act : IterationAct} (hstep : c.stepIteration act = some c') :
    (∃ iterations, taken (c, .iteration act) = [] ∧ c' = { c with iterations })
      ∨ ∃ x rest iterations, taken (c, .iteration act) = [x] ∧ c.events = x :: rest
        ∧ c' = { c with events := rest, iterations } := by
  cases act with
  | start | abandon j => exact .inl ⟨_, rfl, (Option.some.inj hstep).symm⟩
  | take j =>
    rw [stepIteration] at hstep
    split at hstep
    · rename_i event rest _ hevents
      exact .inr ⟨some event, rest, _, by rw [taken, hevents]; rfl, hevents,
        (Option.some.inj hstep).symm⟩
    · rename_i rest _ hevents
      exact .inr ⟨none, rest, _, by rw [taken, hevents]; rfl, hevents,
        (Option.some.inj hstep).symm⟩
    · exact absurd hstep.symm (Option.some_ne_none c')
  | next j =>
    rw [stepIteration] at hstep
    split at hstep
    · exact .inl ⟨_, rfl, (Option.some.inj hstep).symm⟩
    · exact absurd hstep.symm (Option.some_ne_none c')

/-! ## The decoded events -/

/-- The events decoded and not yet handled: those of the chunk that is being handled. -/
def Unhandled (c : AsyncClient) (rest : List Event) : Prop :=
  match c.reader with
  | .running events => rest = events
  -- a cancellation gives up the events of the chunk, which in asyncio are none, as `put` on the
  -- unbounded queue never suspends
  | .finished => c.closeReason ≠ none → rest = []
  | .notBegun | .neverRan => rest = []

/-- The events processed are those decoded from the chunks read, in order, but for the rest of
the last chunk. -/
def Decoding (session : Session) (past : List (AsyncClient × Act)) (c : AsyncClient) : Prop :=
  ∃ rest, session.feedAll (past.flatMap chunk) = .ok (c.log ++ rest, c.session)
    ∧ c.Unhandled rest

/-- Only the reader task reads and handles events. -/
theorem reader_of_step {act : Act} (hstep : c.step act = some c') (hact : ∀ a, act ≠ .reader a) :
    c'.session = c.session ∧ c'.reader = c.reader ∧ c'.log = c.log
      ∧ c'.closeReason = c.closeReason := by
  cases moves_of_step hstep with
  | begins | reads | handles | ends | neverRuns => exact absurd rfl (hact _)
  | _ => exact ⟨rfl, rfl, rfl, rfl⟩

/-- A step without a chunk. -/
theorem Decoding.goOn {act : Act} (hchunk : chunk (c, act) = []) {rest : List Event}
    (hall : session.feedAll (past.flatMap chunk) = .ok (c'.log ++ rest, c'.session))
    (hrest : c'.Unhandled rest) : Decoding session (past ++ [(c, act)]) c' := by
  refine ⟨rest, ?_, hrest⟩
  rw [List.flatMap_append, List.flatMap_singleton, hchunk, List.append_nil]
  exact hall

theorem Decoding.reader (h : Decoding session past c) {act : ReaderAct}
    (hstep : c.stepReader act = some c') :
    Decoding session (past ++ [(c, .reader act)]) c' := by
  obtain ⟨rest, hall, hrest⟩ := h
  unfold Unhandled at hrest
  cases act with
  | begin =>
    rw [stepReader] at hstep
    split at hstep
    · rename_i hreader _
      rw [hreader] at hrest
      rw [← Option.some.inj hstep]
      exact .goOn rfl hall hrest
    · cases hstep
  | read data =>
    rw [stepReader] at hstep
    split at hstep
    · rename_i hreader _
      rw [hreader] at hrest
      obtain rfl := hrest
      rw [← Option.some.inj hstep, receive]
      by_cases hdata : data = []
      -- the end of the stream is no chunk
      · rw [if_pos hdata]
        exact .goOn (if_pos hdata) hall fun _ => rfl
      -- a chunk: all events before it have been handled
      · rw [if_neg hdata, Session.feed_eq]
        rw [List.append_nil] at hall
        refine ⟨_, ?_, rfl⟩
        rw [List.flatMap_append, List.flatMap_singleton, chunk, if_neg hdata]
        exact Session.feedAll_concat hall (Session.feed_eq _ _)
    · cases hstep
  | readError e =>
    rw [stepReader] at hstep
    split at hstep
    · rename_i hreader _
      rw [hreader] at hrest
      rw [← Option.some.inj hstep]
      exact .goOn rfl hall fun _ => hrest
    · cases hstep
  | handle =>
    rw [stepReader] at hstep
    split at hstep
    · rename_i event events hreader
      rw [hreader] at hrest
      obtain rfl := hrest
      rw [← Option.some.inj hstep]
      -- the next event moves from the rest to the log
      rw [List.append_cons] at hall
      exact .goOn rfl hall rfl
    · cases hstep
  | cancelled =>
    rw [stepReader] at hstep
    split at hstep
    · rename_i hreader _
      rw [hreader] at hrest
      rw [← Option.some.inj hstep]
      exact .goOn rfl hall hrest
    · rw [← Option.some.inj hstep]
      exact .goOn rfl hall fun hreason => absurd rfl hreason
    · cases hstep

theorem Decoding.step (h : Decoding session past c) {act : Act} (hstep : c.step act = some c') :
    Decoding session (past ++ [(c, act)]) c' := by
  cases act with
  | reader act => exact h.reader hstep
  | _ =>
    obtain ⟨hsession, hreader, hlog, hreason⟩ := reader_of_step hstep (fun _ => nofun)
    obtain ⟨rest, hall, hrest⟩ := h
    have hrest' : c'.Unhandled rest := by
      unfold Unhandled at hrest ⊢
      rw [hreader, hreason]
      exact hrest
    exact .goOn rfl (by rw [hsession, hlog, hall]) hrest'

/-! ## The queue -/

/-- What has been put in the queue: the events processed, then one marker of the reader task and
one of each call of `close` that has come to its end. At most one call of `close` does any of
this, and it waits for the reader task. -/
structure Queued (past : List (AsyncClient × Act)) (c : AsyncClient) : Prop where
  fifo : past.flatMap taken ++ c.events
    = c.log.map some ++ .replicate (c.reader.marks + past.countP closing) none
  ended : 0 < past.countP closing ∨ .awaitingClosed ∈ c.closes →
    c.reader = .finished ∨ c.reader = .neverRan
  single : past.countP closing + c.closes.countP CloseCall.waits ≤ c.cancelRequested.toNat
  opened : c.closed = false → c.cancelRequested = false

/-- Nobody has put a marker before the reader task is over. -/
theorem Queued.fifo_of_not_over (h : Queued past c)
    (hreader : ¬ (c.reader = .finished ∨ c.reader = .neverRan)) :
    past.countP closing = 0 ∧ past.flatMap taken ++ c.events = c.log.map some := by
  have hclosing : past.countP closing = 0 := by
    by_contra hne
    exact hreader (h.ended (.inl (Nat.pos_of_ne_zero hne)))
  have hmarks : c.reader.marks = 0 := by
    unfold Reader.marks
    split
    · rename_i heq
      exact absurd (.inl heq) hreader
    · rfl
  have hfifo := h.fifo
  rw [hmarks, hclosing] at hfifo
  exact ⟨hclosing, hfifo.trans (List.append_nil _)⟩

/-- A step that takes nothing and is not the end of `close`. -/
theorem Queued.goOn {act : Act} (htaken : taken (c, act) = []) (hclosing : closing (c, act) = false)
    (h : Queued past c') : Queued (past ++ [(c, act)]) c' := by
  have hcount : (past ++ [(c, act)]).countP closing = past.countP closing := by
    rw [List.countP_append, List.countP_singleton, hclosing]
    rfl
  have hflat : (past ++ [(c, act)]).flatMap taken = past.flatMap taken := by
    rw [List.flatMap_append, List.flatMap_singleton, htaken, List.append_nil]
  refine ⟨?_, ?_, ?_, h.opened⟩
  · rw [hcount, hflat]
    exact h.fifo
  · rw [hcount]
    exact h.ended
  · rw [hcount]
    exact h.single

/-- Waiting calls of `close` are only replaced by calls that wait or are over. -/
theorem countP_set {l : List CloseCall} {j : ℕ} (call : CloseCall)
    (hj : ∃ old, l[j]? = some old ∧ old.waits = true) :
    (l.set j call).countP CloseCall.waits + 1
      = l.countP CloseCall.waits + (if call.waits then 1 else 0) := by
  obtain ⟨old, hold, hwaits⟩ := hj
  obtain ⟨hlt, hget⟩ := List.getElem?_eq_some_iff.mp hold
  have hpos : 0 < l.countP CloseCall.waits :=
    List.countP_pos_iff.mpr ⟨old, List.mem_of_getElem? hold, hwaits⟩
  rw [List.countP_set hlt, hget, hwaits]
  simp only [if_true]
  omega

theorem Queued.iteration (h : Queued past c) {act : IterationAct}
    (hstep : c.stepIteration act = some c') : Queued (past ++ [(c, .iteration act)]) c' := by
  rcases stepIteration_cases hstep with
    ⟨iterations, htaken, rfl⟩ | ⟨x, rest, iterations, htaken, hevents, rfl⟩
  · exact .goOn htaken rfl ⟨h.fifo, h.ended, h.single, h.opened⟩
  · -- the head of the queue is the next element that is taken
    have hfifo := h.fifo
    rw [hevents, List.append_cons] at hfifo
    refine ⟨?_, ?_, ?_, h.opened⟩
    · rw [List.flatMap_append, List.flatMap_singleton, htaken, List.countP_append]
      exact hfifo
    · rw [List.countP_append]
      exact h.ended
    · rw [List.countP_append]
      exact h.single

theorem Queued.step (h : Queued past c) {act : Act} (hstep : c.step act = some c') :
    Queued (past ++ [(c, act)]) c' := by
  cases act with
  | iteration act => exact h.iteration hstep
  | reader act =>
    cases moves_of_step hstep with
    | begins hreader | reads hreader | neverRuns hreader =>
      obtain ⟨hclosing, hfifo⟩ := h.fifo_of_not_over (by simp [hreader])
      have hover := mt h.ended (by simp [hreader])
      refine .goOn rfl rfl ⟨?_, fun hclose => absurd hclose hover, h.single, h.opened⟩
      rw [hclosing]
      exact hfifo.trans (List.append_nil _).symm
    | @handles event rest hreader =>
      obtain ⟨hclosing, hfifo⟩ := h.fifo_of_not_over (by simp [hreader])
      have hover := mt h.ended (by simp [hreader])
      refine .goOn rfl rfl ⟨?_, fun hclose => absurd hclose hover, h.single, h.opened⟩
      show past.flatMap taken ++ (c.events ++ [some event])
        = (c.log ++ [event]).map some ++ .replicate (0 + past.countP closing) none
      rw [hclosing, ← List.append_assoc, hfifo, List.map_append]
      exact (List.append_nil _).symm
    -- the reader task leaves its end marker behind the last event
    | ends hreader error =>
      obtain ⟨hclosing, hfifo⟩ := h.fifo_of_not_over (by simp [hreader])
      refine .goOn rfl rfl ⟨?_, fun _ => .inl rfl, h.single, fun hopen => (nomatch hopen)⟩
      show past.flatMap taken ++ (c.events ++ [none])
        = c.log.map some ++ .replicate (1 + past.countP closing) none
      rw [hclosing, ← List.append_assoc, hfifo]
      rfl
  | send =>
    cases moves_of_step hstep with
    | sendRaises | writes => exact .goOn rfl rfl ⟨h.fifo, h.ended, h.single, h.opened⟩
  | lost =>
    rw [← Option.some.inj hstep]
    exact .goOn rfl rfl ⟨h.fifo, h.ended, h.single, h.opened⟩
  | set =>
    cases moves_of_step hstep with
    | raises | withdraws | sends => exact .goOn rfl rfl ⟨h.fifo, h.ended, h.single, h.opened⟩
  | call =>
    cases moves_of_step hstep with
    | waits | interrupts | leaves => exact .goOn rfl rfl ⟨h.fifo, h.ended, h.single, h.opened⟩
  | close =>
    cases moves_of_step hstep with
    | closesAgain hclosed =>
      refine .goOn rfl rfl ⟨h.fifo, fun hclose => h.ended (hclose.imp id fun hmem => ?_), ?_, ?_⟩
      · rcases List.mem_append.mp hmem with hmem | hmem
        · exact hmem
        · cases List.mem_singleton.mp hmem
      · rw [List.countP_append]
        exact h.single
      · exact fun hopen => nomatch hclosed.symm.trans hopen
    -- the first call of close, so nobody waits yet
    | closes hclosed =>
      have hsingle := h.single
      rw [h.opened hclosed] at hsingle
      refine .goOn rfl rfl ⟨h.fifo, fun hclose => h.ended (hclose.imp id fun hmem => ?_), ?_, nofun⟩
      · rcases List.mem_append.mp hmem with hmem | hmem
        · exact hmem
        · cases List.mem_singleton.mp hmem
      · show past.countP closing + (c.closes ++ [CloseCall.awaitingTask]).countP CloseCall.waits ≤ 1
        rw [List.countP_append]
        exact Nat.add_le_add_right hsingle 1
    | releases hj hreader =>
      have hcount := countP_set .awaitingClosed ⟨_, hj, rfl⟩
      have hsingle := h.single
      refine .goOn rfl rfl ⟨h.fifo, fun _ => hreader, ?_, h.opened⟩
      simp only [CloseCall.waits, if_true] at hcount
      dsimp only
      omega
    -- the one call of close that waited leaves the other one
    | @closeReturns j hj =>
      have hcount := countP_set .returned ⟨_, hj, rfl⟩
      have hsingle := h.single
      have hreader := h.ended (.inr (List.mem_of_getElem? hj))
      have hone : (past ++ [(c, Act.close (.waitedClosed j))]).countP closing
          = past.countP closing + 1 := List.countP_append
      refine ⟨?_, fun _ => hreader, ?_, h.opened⟩
      · have hflat : (past ++ [(c, Act.close (.waitedClosed j))]).flatMap taken
            = past.flatMap taken := List.flatMap_append.trans (List.append_nil _)
        rw [hone, hflat, ← Nat.add_assoc, List.replicate_succ']
        simp only [← List.append_assoc]
        exact congrArg (· ++ [none]) h.fifo
      · simp only [CloseCall.waits, Bool.false_eq_true, if_false] at hcount
        rw [hone]
        dsimp only
        omega
    | closeRaises hj =>
      have hcount := countP_set .raised ⟨_, hj, rfl⟩
      have hsingle := h.single
      have hreader := h.ended (.inr (List.mem_of_getElem? hj))
      refine .goOn rfl rfl ⟨h.fifo, fun _ => hreader, ?_, h.opened⟩
      simp only [CloseCall.waits, Bool.false_eq_true, if_false] at hcount
      dsimp only
      omega

/-! ## Runs -/

theorem decoding_of_run {acts : List Act} (hrun : Machine.run step { session } acts = some c) :
    Decoding session (Machine.history step { session } acts) c :=
  Machine.run_remembers (fun _ _ _ _ h hstep => h.step hstep) [] hrun ⟨[], rfl, rfl⟩

theorem queued_of_run {acts : List Act} (hrun : Machine.run step { session } acts = some c) :
    Queued (Machine.history step { session } acts) c :=
  Machine.run_remembers (fun _ _ _ _ h hstep => h.step hstep) [] hrun
    ⟨rfl, fun hclose => by simp at hclose, Nat.le_refl 0, fun _ => rfl⟩

/-- The events that have gone through the queue or are still in it. -/
theorem Queued.reduceOption (h : Queued past c) :
    yielded past ++ c.events.reduceOption = c.log := by
  have hlog : (c.log.map some).reduceOption = c.log := by
    rw [List.reduceOption, List.filterMap_map]
    exact List.filterMap_some
  rw [yielded, ← List.reduceOption_append, h.fifo, List.reduceOption_append, hlog,
    List.reduceOption_replicate_none, List.append_nil]

/-- When a marker has been taken, only markers are left in the queue. -/
theorem Queued.over_of_ending (h : Queued past c) (hended : 0 < endings past) :
    c.events.reduceOption = [] ∧ (c.reader = .finished ∨ c.reader = .neverRan) := by
  obtain ⟨x, hx, hnone⟩ := List.countP_pos_iff.mp hended
  have hmem : none ∈ past.flatMap taken := Option.isNone_iff_eq_none.mp hnone ▸ hx
  constructor
  · rcases List.append_eq_append_iff.mp h.fifo with ⟨rest, hlog, -⟩ | ⟨rest, -, hmarks⟩
    · -- the events processed come before all markers
      have hlogged : none ∈ c.log.map some := hlog ▸ List.mem_append_left rest hmem
      simp at hlogged
    · have hnil := congrArg List.reduceOption hmarks
      rw [List.reduceOption_replicate_none, List.reduceOption_append] at hnil
      exact (List.append_eq_nil_iff.mp hnil.symm).2
  · by_contra hnot
    obtain ⟨-, hfifo⟩ := h.fifo_of_not_over hnot
    have hlogged : none ∈ c.log.map some := hfifo ▸ List.mem_append_left c.events hmem
    simp at hlogged

/-- Whoever takes what, and in whatever order the parties move: the events yielded, the events in
the queue, and the rest of the chunk that is being handled are together the events decoded from
the chunks read, in order. There is no such rest when the connection has ended by itself. -/
theorem delivered {acts : List Act} (hrun : Machine.run step { session } acts = some c) :
    ∃ rest, session.feedAll ((Machine.history step { session } acts).flatMap chunk)
        = .ok (yielded (Machine.history step { session } acts) ++ c.events.reduceOption ++ rest,
          c.session)
      ∧ c.Unhandled rest := by
  obtain ⟨rest, hall, hrest⟩ := decoding_of_run hrun
  rw [← (queued_of_run hrun).reduceOption] at hall
  exact ⟨rest, hall, hrest⟩

/-- Two iterations share a stream of two refusals, and the peer closes the connection. -/
def sharedStream : List Act :=
  [.reader .begin, .iteration .start, .iteration .start,
    .reader (.read (bytesLit "BQsAABo=\rBQQAABo=\r")), .reader .handle, .iteration (.take 1),
    .reader .handle, .iteration (.take 0), .reader (.read []), .iteration (.next 0),
    .iteration (.take 0)]

theorem delivered_sharedStream :
    ∃ c, Machine.run step {} sharedStream = some c
      ∧ ∃ rest, Session.feedAll {} [bytesLit "BQsAABo=\rBQQAABo=\r"]
          = .ok ([.nak (mccc 0x0B) [], .nak (mccc 0x04) []] ++ c.events.reduceOption ++ rest,
            c.session)
        ∧ c.Unhandled rest := by
  have hsome : (Machine.run step {} sharedStream).isSome := rfl
  obtain ⟨c, hrun⟩ := Option.isSome_iff_exists.mp hsome
  have hyielded : yielded (Machine.history step {} sharedStream)
      = [.nak (mccc 0x0B) [], .nak (mccc 0x04) []] := rfl
  have hchunks : (Machine.history step {} sharedStream).flatMap chunk
      = [bytesLit "BQsAABo=\rBQQAABo=\r"] := rfl
  have hdelivered := delivered hrun
  rw [hyielded, hchunks] at hdelivered
  exact ⟨c, hrun, hdelivered⟩

/-- The end markers that ended an iteration and those still in the queue are one of the reader task
at its end and one of a call of `close`, so that at most two iterations ever come to their end.
When one has, every event processed has been yielded before, and there will be no more. -/
theorem end_markers {acts : List Act} (hrun : Machine.run step { session } acts = some c) :
    endings (Machine.history step { session } acts) + c.events.countP Option.isNone
        = c.reader.marks + (Machine.history step { session } acts).countP closing
      ∧ c.reader.marks + (Machine.history step { session } acts).countP closing ≤ 2
      ∧ (0 < endings (Machine.history step { session } acts) →
        yielded (Machine.history step { session } acts) = c.log ∧ c.events.reduceOption = []
          ∧ (c.reader = .finished ∨ c.reader = .neverRan)) := by
  have hqueued := queued_of_run hrun
  revert hqueued
  generalize Machine.history step { session } acts = past
  intro h
  have hcount : endings past + c.events.countP Option.isNone
      = c.reader.marks + past.countP closing := by
    rw [endings, ← List.countP_append, h.fifo, List.countP_append, List.countP_replicate]
    simp
  refine ⟨hcount, ?_, fun hended => ?_⟩
  · have hsingle := h.single
    have hone := Bool.toNat_le c.cancelRequested
    have hmarks : c.reader.marks ≤ 1 := by
      unfold Reader.marks
      split <;> decide
    omega
  · obtain ⟨hevents, hover⟩ := h.over_of_ending hended
    have hlog := h.reduceOption
    rw [hevents, List.append_nil] at hlog
    exact ⟨hlog, hevents, hover⟩

/-- The first iteration takes the marker of the reader task, after both events. -/
theorem end_markers_sharedStream :
    ∃ c, Machine.run step {} sharedStream = some c
      ∧ c.log = [.nak (mccc 0x0B) [], .nak (mccc 0x04) []] ∧ c.events.reduceOption = [] := by
  have hsome : (Machine.run step {} sharedStream).isSome := rfl
  obtain ⟨c, hrun⟩ := Option.isSome_iff_exists.mp hsome
  obtain ⟨hlog, hevents, -⟩ := (end_markers hrun).2.2 Nat.zero_lt_one
  exact ⟨c, hrun, hlog.symm, hevents⟩

end AsyncClient

end Ddmp
