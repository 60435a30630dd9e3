import Ddmp.Client.ReadLoop
import Ddmp.Session.HistoryTheorems

/-!
# What the callbacks of a blocking client get

`handed_once`: `on_event` gets every event of the chunks received, once and in order, whichever
calls raise. `close_reported`: `on_close` is the last callback, and its argument is `None` only if
somebody called `close`. `ends_after_closed`: once `_closed` is set, at most one more chunk is
taken, and the thread is at its end after a number of steps that its events bound.
-/

namespace Ddmp

open Lib

/-- The events of the last chunk that the `for` loop still has. -/
def Looping.rest : Looping → List Event
  | handling events | inEvent events => events
  | _ => []

/-- The thread is in the `finally` block, or at its end. -/
def Looping.Ending : Looping → Prop
  | unwinding _ | closing _ | releasing _ | reporting _ | inClose | ended => True
  | _ => False

/-- The `error` of the `finally` block. -/
def Looping.error? : Looping → Option (Option PyErr)
  | unwinding error | closing error | releasing error | reporting error => some error
  | _ => none

/-- How many statements of the `finally` block have begun; the fifth is the call of `on_close`. -/
def Looping.stage : Looping → ℕ
  | unwinding _ => 1
  | closing _ => 2
  | releasing _ => 3
  | reporting _ => 4
  | inClose | ended => 5
  | _ => 0

/-- A `recv` is going on. -/
def Looping.pending : Looping → ℕ
  | receiving => 1
  | _ => 0

theorem Looping.pending_le (looping : Looping) : looping.pending ≤ 1 := by
  cases looping with
  | receiving => exact Nat.le_refl 1
  | _ => exact Nat.zero_le 1

/-- How many steps the thread still takes at most once `_closed` is set, those for the events of
another chunk apart. -/
def Looping.weight : Looping → ℕ
  | receiving => 8
  | inEvent events => 2 * events.length + 8
  | handling events => 2 * events.length + 7
  | checking => 6
  | unwinding _ => 5
  | closing _ => 4
  | releasing _ => 3
  | reporting _ => 2
  | inClose => 1
  | ended => 0

theorem Looping.weight_le (looping : Looping) :
    looping.weight ≤ 2 * looping.rest.length + 8 := by
  cases looping with
  | inEvent events => exact Nat.le_refl _
  | handling events => exact Nat.le_succ _
  | _ => simp only [weight, rest, List.length_nil]; omega

namespace ReadLoop

/-! ## What one step can do -/

/-- The steps, by action. -/
inductive Moves (c : ReadLoop) : Act → ReadLoop → Prop
  | goesOn (hchecking : c.looping = .checking) (hopen : c.closed = false) :
      Moves c (.read .loop) { c with looping := .receiving }
  | stops (hchecking : c.looping = .checking) (hclosed : c.closed = true) :
      Moves c (.read .loop) { c with looping := .unwinding none }
  | timesOut (hreceiving : c.looping = .receiving) :
      Moves c (.read (.recv .timeout)) { c with looping := .checking }
  | fails (hreceiving : c.looping = .receiving) {outcome : Recv} {e : PyErr}
      (he : outcome.error? = some e) :
      Moves c (.read (.recv outcome))
        { c with looping := .unwinding (if c.closed then none else some e) }
  | feeds (hreceiving : c.looping = .receiving) {chunk : Bytes} {events : List Event}
      {session : Session} (hdata : (Recv.data chunk).error? = none)
      (hfeed : c.session.feed chunk = .ok (events, session)) :
      Moves c (.read (.recv (.data chunk))) { c with
        session
        received := c.received ++ [chunk]
        looping := .handling events }
  | finishes (hhandling : c.looping = .handling []) :
      Moves c (.read .next) { c with looping := .checking }
  | hands {event : Event} {events : List Event}
      (hhandling : c.looping = .handling (event :: events)) (hevent : c.onEvent = true) :
      Moves c (.read .next) { c with handed := c.handed ++ [event], looping := .inEvent events }
  | skips {event : Event} {events : List Event}
      (hhandling : c.looping = .handling (event :: events)) (hevent : c.onEvent = false) :
      Moves c (.read .next) { c with looping := .handling events }
  | resumes {events : List Event} (hin : c.looping = .inEvent events) {outcome : CallbackEnd}
      (houtcome : outcome ≠ .escapes) :
      Moves c (.read (.eventEnds outcome)) { c with looping := .handling events }
  | escapes {events : List Event} (hin : c.looping = .inEvent events) :
      Moves c (.read (.eventEnds .escapes)) { c with looping := .unwinding none, escaping := true }
  | notes {error : Option PyErr} (hunwinding : c.looping = .unwinding error) :
      Moves c (.read .unwind) { c with closeReason := error, looping := .closing error }
  | closes {error : Option PyErr} (hclosing : c.looping = .closing error) :
      Moves c (.read .unwind) { c with closed := true, looping := .releasing error }
  | releases {error : Option PyErr} (hreleasing : c.looping = .releasing error) :
      Moves c (.read .unwind) { c with socketClosed := true, looping := .reporting error }
  | reports {error : Option PyErr} (hreporting : c.looping = .reporting error)
      (hclose : c.onClose = true) :
      Moves c (.read .unwind) { c with reported := c.reported ++ [error], looping := .inClose }
  | ends {error : Option PyErr} (hreporting : c.looping = .reporting error)
      (hclose : c.onClose = false) :
      Moves c (.read .unwind) { c with looping := .ended }
  | returns (hin : c.looping = .inClose) : Moves c (.read .closeEnds) { c with looping := .ended }
  | closesAgain (hclosed : c.closed = true) : Moves c (.close .check) c
  | checks (hopen : c.closed = false) : Moves c (.close .check) { c with checked := c.checked + 1 }
  | sets (hchecked : 0 < c.checked) :
      Moves c (.close .set)
        { c with checked := c.checked - 1, releasing := c.releasing + 1, closed := true }
  | frees (hreleasing : 0 < c.releasing) :
      Moves c (.close .release) { c with releasing := c.releasing - 1, socketClosed := true }

variable {c c' : ReadLoop}

theorem moves_of_stepRead {act : ReadAct} (hstep : c.stepRead act = some c') :
    c.Moves (.read act) c' := by
  cases act with
  | loop =>
    rw [stepRead] at hstep
    split at hstep
    · rename_i hchecking
      by_cases hclosed : c.closed = true
      · rw [if_pos hclosed] at hstep
        exact Option.some.inj hstep ▸ .stops hchecking hclosed
      · rw [if_neg hclosed] at hstep
        exact Option.some.inj hstep ▸ .goesOn hchecking (Bool.eq_false_of_not_eq_true hclosed)
    · exact absurd hstep (Option.some_ne_none _).symm
  | recv outcome =>
    unfold stepRead at hstep
    dsimp only at hstep
    split at hstep
    · rename_i hreceiving
      split at hstep
      · rename_i e he
        exact Option.some.inj hstep ▸ .fails hreceiving he
      · rename_i herror
        cases outcome with
        | timeout => exact Option.some.inj hstep ▸ .timesOut hreceiving
        | fails text => exact absurd herror (Option.some_ne_none _)
        | data chunk =>
          dsimp only at hstep
          rw [Session.feed_eq] at hstep
          exact Option.some.inj hstep ▸ .feeds hreceiving herror (Session.feed_eq _ _)
    · exact absurd hstep (Option.some_ne_none _).symm
  | next =>
    rw [stepRead] at hstep
    split at hstep
    · rename_i hhandling
      exact Option.some.inj hstep ▸ .finishes hhandling
    · rename_i event events hhandling
      split at hstep
      · rename_i hevent
        exact Option.some.inj hstep ▸ .hands hhandling hevent
      · rename_i hevent
        exact Option.some.inj hstep ▸ .skips hhandling (Bool.eq_false_of_not_eq_true hevent)
    · exact absurd hstep (Option.some_ne_none _).symm
  | eventEnds outcome =>
    unfold stepRead at hstep
    dsimp only at hstep
    split at hstep
    · rename_i hin
      exact Option.some.inj hstep ▸ .escapes hin
    · rename_i hin hescapes
      exact Option.some.inj hstep ▸ .resumes hin hescapes
    · exact absurd hstep (Option.some_ne_none _).symm
  | unwind =>
    rw [stepRead] at hstep
    split at hstep
    · rename_i hunwinding
      exact Option.some.inj hstep ▸ .notes hunwinding
    · rename_i hclosing
      exact Option.some.inj hstep ▸ .closes hclosing
    · rename_i hreleasing
      exact Option.some.inj hstep ▸ .releases hreleasing
    · rename_i hreporting
      split at hstep
      · rename_i hclose
        exact Option.some.inj hstep ▸ .reports hreporting hclose
      · rename_i hclose
        exact Option.some.inj hstep ▸ .ends hreporting (Bool.eq_false_of_not_eq_true hclose)
    · exact absurd hstep (Option.some_ne_none _).symm
  | closeEnds =>
    rw [stepRead] at hstep
    split at hstep
    · rename_i hin
      exact Option.some.inj hstep ▸ .returns hin
    · exact absurd hstep (Option.some_ne_none _).symm

theorem moves_of_step {act : Act} (hstep : c.step act = some c') : c.Moves act c' := by
  cases act with
  | read act => exact moves_of_stepRead hstep
  | close act =>
    rw [step] at hstep
    cases act with
    | check =>
      rw [stepClose, Option.some_inj] at hstep
      split at hstep
      · rename_i hclosed
        exact hstep ▸ .closesAgain hclosed
      · rename_i hclosed
        exact hstep ▸ .checks (Bool.eq_false_of_not_eq_true hclosed)
    | set =>
      rw [stepClose] at hstep
      split at hstep
      · rename_i hchecked
        exact Option.some.inj hstep ▸ .sets hchecked
      · exact absurd hstep (Option.some_ne_none _).symm
    | release =>
      rw [stepClose] at hstep
      split at hstep
      · rename_i hreleasing
        exact Option.some.inj hstep ▸ .frees hreleasing
      · exact absurd hstep (Option.some_ne_none _).symm

/-! ## What `on_event` gets -/

/-- The session has taken all chunks, and what `on_event` did not get of their events is still to
come, unless an exception is on its way out. -/
structure Handing (session : Session) (c : ReadLoop) : Prop where
  fed : ∃ events, session.feedAll c.received = .ok (events, c.session) ∧ c.handed <+: events
    ∧ (c.onEvent = true → c.escaping = false → c.handed ++ c.looping.rest = events)
  ending : c.escaping = true → c.looping.Ending

variable {session : Session}

/-- A step that receives nothing and hands over nothing. -/
theorem Handing.goOn (h : Handing session c) (hsession : c'.session = c.session)
    (hreceived : c'.received = c.received) (hhanded : c'.handed = c.handed)
    (hevent : c'.onEvent = c.onEvent)
    (hrest : c.onEvent = true → c'.escaping = false → c.escaping = false
      ∧ c'.looping.rest = c.looping.rest)
    (hending : c'.escaping = true → c'.looping.Ending) : Handing session c' := by
  obtain ⟨events, hall, hfirst, hhanding⟩ := h.fed
  refine ⟨⟨events, ?_, ?_, fun hon hescaping => ?_⟩, hending⟩
  · rw [hreceived, hsession]
    exact hall
  · rw [hhanded]
    exact hfirst
  · rw [hevent] at hon
    obtain ⟨hstays, hsame⟩ := hrest hon hescaping
    rw [hhanded, hsame]
    exact hhanding hon hstays

/-- A step of the `finally` block changes neither of the two. -/
theorem Handing.unwind (h : Handing session c) (hlooping : c.looping.rest = [])
    (hsession : c'.session = c.session) (hreceived : c'.received = c.received)
    (hhanded : c'.handed = c.handed) (hevent : c'.onEvent = c.onEvent)
    (hescaping : c'.escaping = c.escaping) (hrest : c'.looping.rest = [])
    (hending : c'.looping.Ending) : Handing session c' :=
  h.goOn hsession hreceived hhanded hevent
    (fun _ hstays => ⟨hescaping ▸ hstays, hrest.trans hlooping.symm⟩) fun _ => hending

theorem Handing.step (h : Handing session c) {act : Act} (hstep : c.step act = some c') :
    Handing session c' := by
  -- an exception on its way out is met in the finally block only
  have hstays (hlooping : ¬ c.looping.Ending) : c.escaping = false :=
    Bool.eq_false_of_not_eq_true (mt h.ending hlooping)
  cases moves_of_step hstep with
  | goesOn hlooping | timesOut hlooping | finishes hlooping =>
    have hgoing := hstays (by rw [hlooping]; exact id)
    exact h.goOn rfl rfl rfl rfl (fun _ hescaping => ⟨hescaping, by rw [hlooping]; rfl⟩)
      fun hescaping => absurd hescaping (Bool.eq_false_iff.mp hgoing)
  | stops hlooping | fails hlooping | notes hlooping | closes hlooping | releases hlooping
  | reports hlooping | ends hlooping | returns hlooping =>
    exact h.unwind (by rw [hlooping]; rfl) rfl rfl rfl rfl rfl rfl trivial
  | @feeds hlooping chunk new session' _ hfeed =>
    have hgoing := hstays (by rw [hlooping]; exact id)
    obtain ⟨events, hall, hfirst, hhanding⟩ := h.fed
    refine ⟨⟨events ++ new, Session.feedAll_concat hall hfeed,
      hfirst.trans (List.prefix_append events new), fun hon _ => ?_⟩,
      fun hescaping => absurd hescaping (Bool.eq_false_iff.mp hgoing)⟩
    -- everything of the chunks before has been handed over
    have hbefore := hhanding hon hgoing
    rw [hlooping] at hbefore
    exact congrArg (· ++ new) ((List.append_nil c.handed).symm.trans hbefore)
  | @hands event rest hlooping hevent =>
    have hgoing := hstays (by rw [hlooping]; exact id)
    obtain ⟨events, hall, hfirst, hhanding⟩ := h.fed
    have hsplit := hhanding hevent hgoing
    rw [hlooping] at hsplit
    -- the next event moves from the rest to those handed over
    have hnext : (c.handed ++ [event]) ++ rest = events := by
      rw [List.append_assoc]
      exact hsplit
    exact ⟨⟨events, hall, ⟨rest, hnext⟩, fun _ _ => hnext⟩,
      fun hescaping => absurd hescaping (Bool.eq_false_iff.mp hgoing)⟩
  -- without on_event nothing is claimed about the rest
  | skips hlooping hevent =>
    have hgoing := hstays (by rw [hlooping]; exact id)
    exact h.goOn rfl rfl rfl rfl (fun hon => absurd hon (Bool.eq_false_iff.mp hevent))
      fun hescaping => absurd hescaping (Bool.eq_false_iff.mp hgoing)
  | resumes hlooping =>
    have hgoing := hstays (by rw [hlooping]; exact id)
    exact h.goOn rfl rfl rfl rfl (fun _ hescaping => ⟨hescaping, by rw [hlooping]; rfl⟩)
      fun hescaping => absurd hescaping (Bool.eq_false_iff.mp hgoing)
  | escapes hlooping =>
    exact h.goOn rfl rfl rfl rfl (fun _ hescaping => absurd rfl (Bool.eq_false_iff.mp hescaping))
      fun _ => trivial
  | closesAgain => exact h
  | checks | sets | frees =>
    exact h.goOn rfl rfl rfl rfl (fun _ hescaping => ⟨hescaping, rfl⟩) h.ending

theorem handing_of_run {onEvent onClose : Bool} {acts : List Act}
    (hrun : Machine.run step (started session onEvent onClose) acts = some c) :
    Handing session c :=
  Machine.run_preserves (fun _ _ _ h hstep => h.step hstep) hrun
    ⟨⟨[], rfl, List.prefix_refl [], fun _ _ => rfl⟩, fun hescaping => nomatch hescaping⟩

/-- Only a callback that raises something else than an `Exception` ends the thread. -/
theorem escaping_step {g : Prop} {act : Act} (h : c.escaping = true → g)
    (hstep : c.step act = some c') :
    c'.escaping = true → g ∨ act = .read (.eventEnds .escapes) := by
  cases moves_of_step hstep with
  | escapes => exact fun _ => .inr rfl
  | _ => exact fun hescaping => .inl (h hescaping)

theorem onEvent_step {act : Act} (hstep : c.step act = some c') : c'.onEvent = c.onEvent := by
  cases moves_of_step hstep <;> rfl

/-- Whatever the network, the callbacks and the callers of `close` do: `on_event` gets the events
of the frames received in order and each once, however the bytes are cut and whichever of its
calls raise, and misses some only if one of them ended the thread. A callback that reads a value
finds the last one of all chunks received, also when its own event was an earlier one. What the
session has read of a line before is the beginning of the first one. -/
theorem handed_once {onClose : Bool} {acts : List Act}
    (hbuf : lineTerminator ∉ session.decoder.buf)
    (hrun : Machine.run step (started session true onClose) acts = some c) :
    let frames := (reference (session.decoder.buf ++ c.received.flatten)).frames
    c.handed <+: frames.map eventOf
      ∧ (.read (.eventEnds .escapes) ∉ acts → c.handed ++ c.looping.rest = frames.map eventOf)
      ∧ ∀ t ∈ topics, c.session.values.get? t.name
        = ((lastPublish t.address frames).map t.stored).or (session.values.get? t.name) := by
  obtain ⟨events, hall, hfirst, hhanding⟩ := (handing_of_run hrun).fed
  rw [Session.feedAll_eq c.received session (Lines.tail_of_not_mem lineTerminator hbuf)] at hall
  obtain ⟨rfl, hsession⟩ := Prod.mk.inj (Except.ok.inj hall)
  refine ⟨hfirst, fun hstays => ?_, fun t ht => ?_⟩
  · have hon : c.onEvent = true :=
      Machine.run_preserves (I := fun c => c.onEvent = true)
        (fun _ _ _ h hstep => (onEvent_step hstep).trans h) hrun rfl
    have hescaping := Machine.run_records (I := fun g c => c.escaping = true → g)
      (D := fun _ => True) (fun _ _ _ _ h _ hstep => escaping_step h hstep) hrun
      (fun _ _ => trivial) (g := False) (fun hescaping => nomatch hescaping)
    refine hhanding hon (Bool.eq_false_of_not_eq_true fun hended => ?_)
    rcases hescaping hended with hfalse | ⟨act, hact, rfl⟩
    · exact hfalse
    · exact hstays hact
  · rw [← hsession, Session.values_afterFrames _ _ ht]

/-- A session that has read the beginning of a line. -/
def interrupted : Session := { decoder := { buf := bytesLit "EAsA" } }

/-- The rest of the line, a publish whose callback raises. -/
def callbackRaises : List Act :=
  [.read .loop, .read (.recv (.data (bytesLit "ABoBAAAA\r"))), .read .next,
    .read (.eventEnds .raises), .read .next, .read .loop]

theorem handed_once_callbackRaises :
    ∃ c, Machine.run step (started interrupted true true) callbackRaises = some c
      ∧ c.handed.length = 1
      ∧ c.handed ++ c.looping.rest
        = (reference (bytesLit "EAsA" ++ c.received.flatten)).frames.map eventOf := by
  have hone : (Machine.run step (started interrupted true true) callbackRaises).map
      (fun c => c.handed.length) = some 1 := rfl
  obtain ⟨c, hrun, hlength⟩ := Option.map_eq_some_iff.mp hone
  obtain ⟨-, hall, -⟩ := handed_once (by decide) hrun
  exact ⟨c, hrun, hlength, hall (by simp [callbackRaises])⟩

/-! ## What `on_close` gets -/

/-- A `recv` failed, or found the end of the stream, when nobody had set `_closed`. -/
def Failed (past : List (ReadLoop × Act)) (e : PyErr) : Prop :=
  ∃ p ∈ past, p.1.closed = false
    ∧ ∃ outcome, p.2 = .read (.recv outcome) ∧ outcome.error? = some e

/-- Somebody else has set `_closed`, or a callback has ended the thread. -/
def Called (past : List (ReadLoop × Act)) : Prop :=
  ∃ p ∈ past, p.2 = .close .set ∨ p.2 = .read (.eventEnds .escapes)

/-- What the `finally` block has done, and where its `error` comes from. -/
structure Closing (past : List (ReadLoop × Act)) (c : ReadLoop) : Prop where
  running : c.looping.stage = 0 → ∀ e, ¬ Failed past e
  error : ∀ error, c.looping.error? = some error →
    (∀ e, error = some e ↔ Failed past e) ∧ (error = none → Called past)
      ∧ (2 ≤ c.looping.stage → c.closeReason = error)
  noted : 2 ≤ c.looping.stage →
    (∀ e, c.closeReason = some e ↔ Failed past e) ∧ (c.closeReason = none → Called past)
  closed : 3 ≤ c.looping.stage → c.closed = true
  released : 4 ≤ c.looping.stage → c.socketClosed = true
  called : c.closed = true → 3 ≤ c.looping.stage ∨ Called past
  reported : c.reported = if c.looping.stage = 5 ∧ c.onClose = true then [c.closeReason] else []

variable {past : List (ReadLoop × Act)}

theorem failed_concat {act : Act} {e : PyErr} :
    Failed (past ++ [(c, act)]) e ↔ Failed past e ∨ c.closed = false
      ∧ ∃ outcome, act = .read (.recv outcome) ∧ outcome.error? = some e := by
  unfold Failed
  simp only [List.mem_append, List.mem_singleton, or_and_right, exists_or, exists_eq_left]

theorem failed_concat_of_ne {act : Act} (hact : ∀ outcome, act = .read (.recv outcome) →
    outcome.error? = none) {e : PyErr} : Failed (past ++ [(c, act)]) e ↔ Failed past e := by
  rw [failed_concat]
  refine or_iff_left fun ⟨_, outcome, hrecv, he⟩ => ?_
  exact absurd ((hact outcome hrecv).symm.trans he) (Option.some_ne_none e).symm

theorem Called.concat {p : ReadLoop × Act} (h : Called past) : Called (past ++ [p]) := by
  obtain ⟨q, hq, hcall⟩ := h
  exact ⟨q, List.mem_append_left [p] hq, hcall⟩

/-- A step outside the `finally` block that reports no error. -/
theorem Closing.goOn (h : Closing past c) {act : Act}
    (hact : ∀ outcome, act = .read (.recv outcome) → outcome.error? = none)
    (hstage : c'.looping.stage = c.looping.stage) (herror : c'.looping.error? = c.looping.error?)
    (hreason : c'.closeReason = c.closeReason) (hreported : c'.reported = c.reported)
    (honClose : c'.onClose = c.onClose)
    (hclosed : c'.closed = c.closed ∨ c'.closed = true ∧ act = .close .set)
    (hsocket : c.socketClosed = true → c'.socketClosed = true) :
    Closing (past ++ [(c, act)]) c' := by
  constructor
  · intro hzero e hfailed
    exact h.running (hstage.symm.trans hzero) e ((failed_concat_of_ne hact).mp hfailed)
  · intro error hlooping
    obtain ⟨hsome, hnone, hnoted⟩ := h.error error (herror.symm.trans hlooping)
    refine ⟨fun e => (hsome e).trans (failed_concat_of_ne hact).symm,
      fun hcalled => (hnone hcalled).concat, ?_⟩
    rw [hstage, hreason]
    exact hnoted
  · intro htwo
    rw [hstage] at htwo
    obtain ⟨hsome, hnone⟩ := h.noted htwo
    rw [hreason]
    exact ⟨fun e => (hsome e).trans (failed_concat_of_ne hact).symm,
      fun hcalled => (hnone hcalled).concat⟩
  · intro hthree
    rw [hstage] at hthree
    rcases hclosed with hsame | ⟨hset, -⟩
    · exact hsame.trans (h.closed hthree)
    · exact hset
  · intro hfour
    rw [hstage] at hfour
    exact hsocket (h.released hfour)
  · intro hcalled
    rw [hstage]
    rcases hclosed with hsame | ⟨-, rfl⟩
    · exact (h.called (hsame.symm.trans hcalled)).imp_right Called.concat
    · exact .inr ⟨_, List.mem_append_right past List.mem_cons_self, .inl rfl⟩
  · rw [hreported, hstage, honClose, hreason]
    exact h.reported

/-- The loop is left with an `error`. -/
theorem Closing.enter (h : Closing past c) (hzero : c.looping.stage = 0) {act : Act}
    {error : Option PyErr} (hlooping : c'.looping = .unwinding error)
    (hsome : ∀ e, error = some e ↔ Failed (past ++ [(c, act)]) e)
    (hnone : error = none → Called (past ++ [(c, act)]))
    (hclosed : c'.closed = c.closed) (hreported : c'.reported = c.reported) :
    Closing (past ++ [(c, act)]) c' := by
  have hone : c'.looping.stage = 1 := by
    rw [hlooping]
    rfl
  -- nothing has been reported before the finally block
  have hsilent := h.reported
  rw [hzero, if_neg (fun hfive => absurd hfive.1 (by decide))] at hsilent
  refine ⟨by omega, fun error' herror => ?_, by omega, by omega, by omega, fun hcalled => ?_, ?_⟩
  · rw [hlooping] at herror
    obtain rfl := Option.some.inj herror
    exact ⟨hsome, hnone, by omega⟩
  · rcases h.called (hclosed.symm.trans hcalled) with hthree | hcall
    · omega
    · exact .inr hcall.concat
  · rw [hreported, hsilent, hone, if_neg (fun hfive => absurd hfive.1 (by decide))]

/-- A statement of the `finally` block, the call of `on_close` apart. -/
theorem Closing.unwind (h : Closing past c) {act : Act}
    (hact : ∀ outcome, act ≠ .read (.recv outcome)) {error : Option PyErr}
    (herror : c.looping.error? = some error) (hstage : c'.looping.stage = c.looping.stage + 1)
    (hnext : c'.looping.error? = some error) (hreason : c'.closeReason = error)
    (hclosed : 2 ≤ c.looping.stage → c'.closed = true)
    (hsocket : 3 ≤ c.looping.stage → c'.socketClosed = true)
    (hcalled : c.closed = false → c'.closed = true → 2 ≤ c.looping.stage)
    (hone : 1 ≤ c.looping.stage) (hfour : c.looping.stage < 4)
    (hreported : c'.reported = c.reported) : Closing (past ++ [(c, act)]) c' := by
  have hfailed (e : PyErr) : Failed (past ++ [(c, act)]) e ↔ Failed past e :=
    failed_concat_of_ne fun outcome hrecv => absurd hrecv (hact outcome)
  obtain ⟨hsome, hnone, -⟩ := h.error error herror
  have hsilent := h.reported
  rw [if_neg (by omega)] at hsilent
  refine ⟨by omega, fun error' herror' => ?_, fun _ => ?_, fun _ => hclosed (by omega),
    fun _ => hsocket (by omega), fun hset => ?_, ?_⟩
  · obtain rfl := Option.some.inj (hnext.symm.trans herror')
    exact ⟨fun e => (hsome e).trans (hfailed e).symm, fun hcall => (hnone hcall).concat,
      fun _ => hreason⟩
  · rw [hreason]
    exact ⟨fun e => (hsome e).trans (hfailed e).symm, fun hcall => (hnone hcall).concat⟩
  · cases hbefore : c.closed with
    | true => exact (h.called hbefore).imp (fun hthree => by omega) Called.concat
    | false => exact .inl (by have := hcalled hbefore hset; omega)
  · rw [hreported, hsilent, if_neg (by omega)]

/-- The last statement of the `finally` block. -/
theorem Closing.report (h : Closing past c) {error : Option PyErr}
    (hreporting : c.looping = .reporting error) {looping : Looping} (hfive : looping.stage = 5)
    (hdone : looping.error? = none) {reported : List (Option PyErr)}
    (hreported : reported = c.reported ++ if c.onClose = true then [error] else []) :
    Closing (past ++ [(c, .read .unwind)]) { c with reported, looping } := by
  have hfour : c.looping.stage = 4 := by rw [hreporting]; rfl
  have hreason : c.closeReason = error :=
    (h.error error (by rw [hreporting]; rfl)).2.2 (by omega)
  have hsilent := h.reported
  rw [if_neg (by omega)] at hsilent
  refine ⟨fun hzero => absurd (hzero.symm.trans hfive) (by decide),
    fun _ herror => absurd (hdone.symm.trans herror) (Option.some_ne_none _).symm, fun _ => ?_,
    fun _ => h.closed (by omega), fun _ => h.released hfour.ge,
    fun _ => .inl (hfive ▸ (by decide)), ?_⟩
  · obtain ⟨hsome, hnone⟩ := h.noted (by omega)
    refine ⟨fun e => (hsome e).trans ?_, fun hcall => (hnone hcall).concat⟩
    refine (failed_concat_of_ne fun outcome hrecv => ?_).symm
    exact absurd (Act.read.inj hrecv) ReadAct.noConfusion
  · rw [hreported, hsilent, List.nil_append, ← hreason]
    simp only [hfive, true_and]

theorem Closing.step (h : Closing past c) {act : Act} (hstep : c.step act = some c') :
    Closing (past ++ [(c, act)]) c' := by
  have hother {read : ReadAct} (hread : ∀ outcome, read ≠ .recv outcome) (outcome : Recv)
      (hrecv : Act.read read = .read (.recv outcome)) : outcome.error? = none :=
    absurd (Act.read.inj hrecv) (hread outcome)
  cases moves_of_step hstep with
  | goesOn hlooping | finishes hlooping | hands hlooping | skips hlooping | resumes hlooping =>
    exact h.goOn (hother (by intro _; nofun)) (by rw [hlooping]; rfl) (by rw [hlooping]; rfl) rfl
      rfl rfl (.inl rfl) id
  | timesOut hlooping =>
    exact h.goOn (fun _ hrecv => by cases hrecv; rfl) (by rw [hlooping]; rfl)
      (by rw [hlooping]; rfl) rfl rfl rfl (.inl rfl) id
  | feeds hlooping hdata =>
    exact h.goOn (fun _ hrecv => by cases hrecv; exact hdata) (by rw [hlooping]; rfl)
      (by rw [hlooping]; rfl) rfl rfl rfl (.inl rfl) id
  | stops hlooping hclosed =>
    have hzero : c.looping.stage = 0 := by rw [hlooping]; rfl
    have hcall : Called past := by
      rcases h.called hclosed with hthree | hcall
      · omega
      · exact hcall
    refine h.enter hzero rfl (fun e => ?_) (fun _ => hcall.concat) rfl rfl
    rw [failed_concat_of_ne (hother (by intro _; nofun))]
    exact ⟨nofun, fun hfailed => absurd hfailed (h.running hzero e)⟩
  | @fails hlooping outcome e he =>
    have hzero : c.looping.stage = 0 := by rw [hlooping]; rfl
    refine h.enter hzero rfl (fun e' => ?_) (fun hnone => ?_) rfl rfl
    · rw [failed_concat]
      cases hclosed : c.closed with
      -- somebody has set _closed: the error of recv is not kept
      | true =>
        rw [if_pos rfl]
        constructor
        · nofun
        · rintro (hfailed | ⟨hopen, -⟩)
          · exact absurd hfailed (h.running hzero e')
          · exact absurd hopen Bool.noConfusion
      | false =>
        -- nobody has, so this recv is the one that failed
        rw [if_neg Bool.false_ne_true]
        constructor
        · intro hsame
          exact .inr ⟨rfl, outcome, rfl, he.trans hsame⟩
        · rintro (hfailed | ⟨-, outcome', hrecv, he'⟩)
          · exact absurd hfailed (h.running hzero e')
          · obtain rfl := ReadAct.recv.inj (Act.read.inj hrecv)
            exact he.symm.trans he'
    · cases hclosed : c.closed with
      | true =>
        rcases h.called hclosed with hthree | hcall
        · omega
        · exact hcall.concat
      | false =>
        rw [hclosed, if_neg Bool.false_ne_true] at hnone
        exact absurd hnone (Option.some_ne_none e)
  | escapes hlooping =>
    have hzero : c.looping.stage = 0 := by rw [hlooping]; rfl
    refine h.enter hzero rfl (fun e => ?_) (fun _ => ?_) rfl rfl
    · rw [failed_concat_of_ne (hother (by intro _; nofun))]
      exact ⟨nofun, fun hfailed => absurd hfailed (h.running hzero e)⟩
    · exact ⟨_, List.mem_append_right past List.mem_cons_self, .inr rfl⟩
  | @notes error hlooping =>
    have hone : c.looping.stage = 1 := by rw [hlooping]; rfl
    exact h.unwind (by intro _; nofun) (by rw [hlooping]; rfl) (by rw [hone]; rfl) rfl rfl
      (by omega) (by omega) (fun hopen hset => absurd hset (Bool.eq_false_iff.mp hopen))
      hone.ge (by omega) rfl
  | @closes error hlooping =>
    have htwo : c.looping.stage = 2 := by rw [hlooping]; rfl
    have herror : c.looping.error? = some error := by rw [hlooping]; rfl
    exact h.unwind (by intro _; nofun) herror (by rw [htwo]; rfl) rfl
      ((h.error error herror).2.2 htwo.ge) (fun _ => rfl) (by omega) (fun _ _ => htwo.ge)
      (by omega) (by omega) rfl
  | @releases error hlooping =>
    have hthree : c.looping.stage = 3 := by rw [hlooping]; rfl
    have herror : c.looping.error? = some error := by rw [hlooping]; rfl
    exact h.unwind (by intro _; nofun) herror (by rw [hthree]; rfl) rfl
      ((h.error error herror).2.2 (by omega)) (fun _ => h.closed hthree.ge) (fun _ => rfl)
      (by omega) (by omega) (by omega) rfl
  | reports hlooping hclose => exact h.report hlooping rfl rfl (by rw [if_pos hclose])
  | ends hlooping hclose =>
    refine h.report hlooping rfl rfl ?_
    rw [if_neg (Bool.eq_false_iff.mp hclose), List.append_nil]
  | returns hlooping =>
    exact h.goOn (hother (by intro _; nofun)) (by rw [hlooping]; rfl) (by rw [hlooping]; rfl) rfl
      rfl rfl (.inl rfl) id
  | closesAgain | checks => exact h.goOn nofun rfl rfl rfl rfl rfl (.inl rfl) id
  | sets => exact h.goOn nofun rfl rfl rfl rfl rfl (.inr ⟨rfl, rfl⟩) id
  | frees => exact h.goOn nofun rfl rfl rfl rfl rfl (.inl rfl) fun _ => rfl

theorem closing_of_run {onEvent onClose : Bool} {acts : List Act}
    (hrun : Machine.run step (started session onEvent onClose) acts = some c) :
    Closing (Machine.history step (started session onEvent onClose) acts) c := by
  have hfresh : Closing [] (started session onEvent onClose) := {
    running := fun _ _ hfailed => absurd hfailed.choose_spec.1 List.not_mem_nil
    error := fun _ herror => absurd herror (Option.some_ne_none _).symm
    noted := fun htwo => absurd htwo (Nat.not_succ_le_zero 1)
    closed := fun hthree => absurd hthree (Nat.not_succ_le_zero 2)
    released := fun hfour => absurd hfour (Nat.not_succ_le_zero 3)
    called := fun hclosed => absurd hclosed Bool.false_ne_true
    reported := (if_neg fun hfive => absurd hfive.1 (Nat.succ_ne_zero 4).symm).symm }
  exact Machine.run_remembers (fun _ _ _ _ h hstep => h.step hstep) [] hrun hfresh

/-- The action is one of the reader thread. -/
def Act.IsRead : Act → Bool
  | .read _ => true
  | .close _ => false

/-- What has happened since `_closed` was found to be set, with the number of steps that the reader
thread has taken. -/
structure Stopping (before : ReadLoop) (steps : ℕ) (c : ReadLoop) : Prop where
  closed : c.closed = true
  more : ∃ chunks events, c.received = before.received ++ chunks
    ∧ before.session.feedAll chunks = .ok (events, c.session)
    ∧ chunks.length + c.looping.pending ≤ before.looping.pending
    ∧ c.handed.length + c.looping.rest.length
      ≤ before.handed.length + before.looping.rest.length + events.length
    ∧ steps + c.looping.weight ≤ before.looping.weight + 2 * events.length

variable {before : ReadLoop} {steps : ℕ}

/-- A step that receives nothing. -/
theorem Stopping.goOn (h : Stopping before steps c) {n : ℕ} (hclosed : c'.closed = true)
    (hsession : c'.session = c.session) (hreceived : c'.received = c.received)
    (hpending : c'.looping.pending ≤ c.looping.pending)
    (hhanded : c'.handed.length + c'.looping.rest.length
      ≤ c.handed.length + c.looping.rest.length)
    (hweight : n + c'.looping.weight ≤ c.looping.weight) : Stopping before (steps + n) c' := by
  obtain ⟨chunks, events, hall, hfed, hone, hbound, hsteps⟩ := h.more
  refine ⟨hclosed, chunks, events, ?_, ?_, ?_, ?_, ?_⟩
  · rw [hreceived, hall]
  · rw [hsession, hfed]
  · omega
  · omega
  · omega

theorem Stopping.step (h : Stopping before steps c) {act : Act} (hstep : c.step act = some c') :
    Stopping before (steps + act.IsRead.toNat) c' := by
  cases moves_of_step hstep with
  | goesOn hlooping hopen => exact absurd h.closed (Bool.eq_false_iff.mp hopen)
  | @feeds hlooping chunk new session' hdata hfeed =>
    obtain ⟨chunks, events, hall, hfed, hone, hbound, hsteps⟩ := h.more
    -- the one chunk still allowed is this one, and its events pay for their steps
    rw [hlooping] at hone hbound hsteps
    simp only [Looping.pending, Looping.rest, Looping.weight, List.length_nil] at hone hbound hsteps
    refine ⟨h.closed, chunks ++ [chunk], events ++ new, ?_, Session.feedAll_concat hfed hfeed,
      ?_, ?_, ?_⟩
    · dsimp only
      rw [hall, List.append_assoc]
    · rw [List.length_append, List.length_singleton]
      exact hone
    · simp only [Looping.rest, List.length_append]
      omega
    · simp only [Looping.weight, List.length_append, Act.IsRead, Bool.toNat_true]
      omega
  | stops hlooping | timesOut hlooping | fails hlooping | finishes hlooping | hands hlooping
  | skips hlooping | resumes hlooping | escapes hlooping | notes hlooping | closes hlooping
  | releases hlooping | reports hlooping | ends hlooping | returns hlooping =>
    refine h.goOn ?_ rfl rfl ?_ ?_ ?_
    · first | exact h.closed | rfl
    · exact Nat.zero_le _
    · simp [hlooping, Looping.rest] <;> omega
    · simp [hlooping, Looping.weight, Act.IsRead] <;> omega
  | closesAgain | checks | frees =>
    exact h.goOn h.closed rfl rfl (Nat.le_refl _) (Nat.le_refl _) (Nat.zero_add _).le
  | sets => exact h.goOn rfl rfl rfl (Nat.le_refl _) (Nat.le_refl _) (Nat.zero_add _).le

/-- The reader thread always has a step that brings it nearer to its end. -/
theorem exists_nearer (c : ReadLoop) (hclosed : c.closed = true) (hlooping : ¬ c.looping = .ended) :
    ∃ act c', act.IsRead = true ∧ c.step act = some c' ∧ c'.closed = true
      ∧ c'.looping.weight < c.looping.weight := by
  suffices h : ∃ act c', c.stepRead act = some c' ∧ c'.closed = true
      ∧ c'.looping.weight < c.looping.weight by
    obtain ⟨act, c', hact, hnext⟩ := h
    exact ⟨.read act, c', rfl, hact, hnext⟩
  -- with _closed set the loop is left at its next test; a recv that goes on times out
  cases hphase : c.looping with
  | checking =>
    refine ⟨.loop, { c with looping := .unwinding none }, ?_, hclosed, Nat.lt_succ_self 5⟩
    simp only [stepRead, hphase, if_pos hclosed]
  | receiving =>
    refine ⟨.recv .timeout, { c with looping := .checking }, ?_, hclosed,
      Nat.lt_add_of_pos_right two_pos⟩
    simp only [stepRead, hphase, Recv.error?]
  | handling events =>
    cases events with
    | nil =>
      refine ⟨.next, { c with looping := .checking }, ?_, hclosed, Nat.lt_succ_self 6⟩
      simp only [stepRead, hphase]
    | cons event events =>
      cases hevent : c.onEvent with
      | true =>
        refine ⟨.next, { c with handed := c.handed ++ [event], looping := .inEvent events }, ?_,
          hclosed, Nat.lt_succ_self _⟩
        simp only [stepRead, hphase, if_pos hevent]
      | false =>
        refine ⟨.next, { c with looping := .handling events }, ?_, hclosed, ?_⟩
        · simp only [stepRead, hphase, if_neg (Bool.eq_false_iff.mp hevent)]
        · exact Nat.lt_add_of_pos_right two_pos
  | inEvent events =>
    refine ⟨.eventEnds .returns, { c with looping := .handling events }, ?_, hclosed,
      Nat.lt_succ_self _⟩
    simp only [stepRead, hphase]
  | unwinding error =>
    refine ⟨.unwind, { c with closeReason := error, looping := .closing error }, ?_, hclosed,
      Nat.lt_succ_self 4⟩
    simp only [stepRead, hphase]
  | closing error =>
    refine ⟨.unwind, { c with closed := true, looping := .releasing error }, ?_, rfl,
      Nat.lt_succ_self 3⟩
    simp only [stepRead, hphase]
  | releasing error =>
    refine ⟨.unwind, { c with socketClosed := true, looping := .reporting error }, ?_, hclosed,
      Nat.lt_succ_self 2⟩
    simp only [stepRead, hphase]
  | reporting error =>
    cases hclose : c.onClose with
    | true =>
      refine ⟨.unwind, { c with reported := c.reported ++ [error], looping := .inClose }, ?_,
        hclosed, Nat.lt_succ_self 1⟩
      simp only [stepRead, hphase, if_pos hclose]
    | false =>
      refine ⟨.unwind, { c with looping := .ended }, ?_, hclosed, Nat.zero_lt_two⟩
      simp only [stepRead, hphase, if_neg (Bool.eq_false_iff.mp hclose)]
  | inClose =>
    refine ⟨.closeEnds, { c with looping := .ended }, ?_, hclosed, Nat.lt_succ_self 0⟩
    simp only [stepRead, hphase]
  | ended => exact absurd hphase hlooping

/-- Once `_closed` is set, whoever did it, at most one more chunk is taken, `on_event` is only
called for its events and for those still to be handed over, and the reader thread takes at most
two steps for each of them and eight more; and it comes to its end without another thread. -/
theorem ends_after_closed (hclosed : c.closed = true) {acts : List Act}
    (hrun : Machine.run step c acts = some c') :
    (∃ chunks events, c'.received = c.received ++ chunks
      ∧ c.session.feedAll chunks = .ok (events, c'.session) ∧ chunks.length ≤ 1
      ∧ c'.handed.length ≤ c.handed.length + c.looping.rest.length + events.length
      ∧ acts.countP Act.IsRead ≤ 2 * (c.looping.rest.length + events.length) + 8)
    ∧ ∃ more c'', (∀ act ∈ more, act.IsRead = true) ∧ Machine.run step c' more = some c''
      ∧ c''.looping = .ended := by
  have hstart : Stopping c 0 c :=
    ⟨hclosed, [], [], (List.append_nil _).symm, rfl, (Nat.zero_add _).le, Nat.le_refl _,
      (Nat.zero_add _).le⟩
  have hstop := Machine.run_counts (C := Act.IsRead) (fun _ _ _ _ h hstep => h.step hstep) hrun
    hstart
  constructor
  · obtain ⟨chunks, events, hall, hfed, hone, hhanded, hsteps⟩ := hstop.more
    have hpending := c.looping.pending_le
    have hweight := c.looping.weight_le
    exact ⟨chunks, events, hall, hfed, by omega, by omega, by omega⟩
  · obtain ⟨more, c'', hmore, hrun', -, hover⟩ :=
      Machine.run_reaches exists_nearer c' hstop.closed
    exact ⟨more, c'', hmore, hrun', hover⟩

/-- `close` was called while a `recv` was going on. -/
def closedMeanwhile : ReadLoop :=
  { started {} true true with looping := .receiving, closed := true }

theorem ends_after_closed_closedMeanwhile :
    ∃ more c, Machine.run step closedMeanwhile (.read (.recv .timeout) :: more) = some c
      ∧ c.looping = .ended := by
  have hclosed : closedMeanwhile.closed = true := rfl
  have hrun : Machine.run step closedMeanwhile [.read (.recv .timeout)]
      = some { closedMeanwhile with looping := .checking } := rfl
  obtain ⟨-, more, c, -, hmore, hover⟩ := ends_after_closed hclosed hrun
  refine ⟨more, c, ?_, hover⟩
  rw [← List.singleton_append, Machine.run_append, hrun]
  exact hmore

end ReadLoop

end Ddmp
