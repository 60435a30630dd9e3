import Ddmp.Client.AsyncAnswerTheorems
import Ddmp.Client.AsyncExchange
import Ddmp.Client.AsyncOutboundTheorems
import Ddmp.Client.AsyncShutdownTheorems
import Ddmp.Client.FakeCoolerTheorems

/-!
# No write is left waiting

An asyncio client that is connected to the fake cooler is one end of an `Exchange`
(`refines_exchange`), so that what holds of every exchange holds of it. With the rule that the
first answer decides a write, no write waits once nothing is on its way (`answered_of_quiet`), and
every write can come to its end without a timer (`writes_end`).
-/

namespace Ddmp

open Lib

/-! ## The SET of a call -/

namespace SetCall

/-- The SET of the call is among the frames sent; the client had handled no more events than there
are answers to the frames before. -/
def Asked (cooler : FakeCooler) (sent : List Frame) (call : SetCall) : Prop :=
  ∃ before frame after, sent = before ++ frame :: after ∧ frame.action = Action.SET.value
    ∧ frame.address = call.expectation.topic.address
    ∧ (∀ observed,
      ({ call.expectation with observed }.matches (eventOf (Exchange.echoOf frame))).1 = some true)
    ∧ call.addedAt ≤ (cooler.converse before).2.length

namespace Asked

variable {cooler : FakeCooler} {sent : List Frame} {call : SetCall}

theorem concat (h : call.Asked cooler sent) (frame : Frame) :
    call.Asked cooler (sent ++ [frame]) := by
  obtain ⟨before, set, after, rfl, hset⟩ := h
  exact ⟨before, set, after ++ [frame], by rw [List.append_assoc, List.cons_append], hset⟩

theorem resolve (h : call.Asked cooler sent) (event : Event) :
    (call.resolve event).Asked cooler sent := by
  cases hdone : call.future.done with
  | true =>
    rw [resolve_of_done hdone]
    exact h
  | false =>
    obtain ⟨future, heq, -⟩ := resolve_of_not_done hdone event
    obtain ⟨observed, hobserved⟩ := call.expectation.exists_observed event
    rw [heq, hobserved]
    exact h

theorem lose (h : call.Asked cooler sent) : call.lose.Asked cooler sent := by
  cases hdone : call.future.done with
  | true =>
    rw [lose_of_done hdone]
    exact h
  | false =>
    rw [lose_of_not_done hdone]
    exact h

end Asked

end SetCall

namespace AsyncClient

variable {c c' : AsyncClient} {cooler : FakeCooler} {sent : List Frame}

/-- Bytes are handed to the session, which never raises. -/
theorem receive_eq (c : AsyncClient) {data : Bytes} (hdata : data ≠ []) :
    ∃ events session, c.session.feed data = .ok (events, session)
      ∧ c.receive data = { c with session, reader := .running events } := by
  refine ⟨_, _, Session.feed_eq c.session data, ?_⟩
  rw [receive, if_neg hdata, Session.feed_eq]

/-- The action is one of those that may write. -/
def Act.writes : Act → Bool
  | .send _ | .set _ _ _ _ => true
  | _ => false

/-- Steps that write nothing keep the calls as they were asked. -/
theorem asked_step (hinv : c.Inv) (h : c.calls.AllLive (SetCall.Asked cooler sent)) {act : Act}
    (hact : act.writes = false)
    (hstep : c.step act = some c') : c'.calls.AllLive (SetCall.Asked cooler sent) := by
  cases moves_of_step hstep with
  | handles => exact h.each hinv.pending.nodup fun call hcall => hcall.resolve _
  | ends => exact h.each hinv.pending.nodup fun call hcall => hcall.lose
  | waits hi hopen => exact h.update fun call hcall => hcall
  | interrupts hi hopen reason => exact h.update fun call hcall => hcall
  | @leaves i _ _ outcome hi =>
    show (c.leave i outcome).calls.AllLive _
    rw [calls_leave hi]
    exact h.close hinv.pending.nodup _ _
  | sendRaises | writes | raises | withdraws | sends => cases hact
  | _ => exact h

end AsyncClient

/-! ## One end of an exchange -/

/-- The events that the reader task has still to handle, as long as it reads. -/
def Reader.unhandled? : Reader → Option (List Event)
  | .notBegun => some []
  | .running rest => some rest
  | .finished | .neverRan => none

/-- Of the events read the client has handled the first, and the others as long as it reads are
those it has still to handle. -/
structure AsyncClient.Handles (c : AsyncClient) (events : List Event) : Prop where
  handled : c.log <+: events
  unhandled : ∀ rest, c.reader.unhandled? = some rest → events = c.log ++ rest

namespace AsyncExchange

/-- What callers and the connection are relied on for: a `Topic` object that is passed has the
codec of its row, `drain` raises no `WriteRejected`, and the connection is not lost before anybody
is told. -/
def Act.IsUsual : Act → Prop
  | .client .lost => False
  | .client (.set ref _ _ _) => ref.Registered
  | .client (.call _ (.drainFails e)) => e.isRejection = false
  | _ => True

variable {tps : List Topic} {cooler : FakeCooler} {w w' : AsyncExchange} {x : Exchange}

/-- The client with its connection is an end of the exchange. -/
structure Follows (tps : List Topic) (cooler : FakeCooler) (w : AsyncExchange) (x : Exchange) :
    Prop where
  same : x = w.asExchange x.sent x.events
  talks : Exchange.Talks { topics := tps } cooler x
  handles : w.client.Handles x.events
  inv : w.client.Inv
  decided : w.client.AllDecided
  asked : w.client.calls.AllLive (SetCall.Asked cooler x.sent)

theorem follows_opened {recorded : List Bytes} {refuse : List Address}
    (hcooler : FakeCooler.create recorded refuse = .ok cooler) :
    Follows tps cooler (opened tps cooler) { session := { topics := tps }, cooler } where
  same := rfl
  talks := Exchange.talks_of_run hcooler (Machine.run_nil Exchange.step _)
  handles := ⟨List.prefix_refl [], fun _ hrest => Option.some.inj hrest ▸ rfl⟩
  inv := AsyncClient.inv_fresh _
  decided := fun _ hnone => absurd hnone List.not_mem_nil
  asked := fun _ hlive => absurd hlive List.not_mem_nil

/-- A step of the client that neither receives nor writes leaves the connection alone. -/
theorem connection_of_step {c c' : AsyncClient} {act : AsyncClient.Act}
    (hreceives : receives act = false) (hwrites : act.writes = false)
    (hstep : c.step act = some c') {events : List Event} (h : c.Handles events) :
    c'.written = c.written ∧ c'.session = c.session ∧ c'.Handles events := by
  have hends (error : Option PyErr) (writerClosed : Bool) :
      ({ c.endReading error with writerClosed } : AsyncClient).written = c.written
        ∧ ({ c.endReading error with writerClosed } : AsyncClient).session = c.session
        ∧ ({ c.endReading error with writerClosed } : AsyncClient).Handles events :=
    ⟨rfl, rfl, h.handled, fun _ hnone => by cases hnone⟩
  cases act with
  | reader act =>
    cases act with
    | read data =>
      cases data with
      | nil =>
        rw [AsyncClient.step, AsyncClient.stepReader] at hstep
        split at hstep
        · exact Option.some.inj hstep ▸ hends _ c.writerClosed
        · cases hstep
      | cons b data => cases hreceives
    | begin =>
      cases AsyncClient.moves_of_step hstep with
      | begins hreader =>
        refine ⟨rfl, rfl, h.handled, fun rest hrest => h.unhandled rest ?_⟩
        rw [hreader]
        exact hrest
      | ends hreader error => exact hends error _
    | handle =>
      cases AsyncClient.moves_of_step hstep with
      | @handles event rest hreader =>
        have hevents := h.unhandled (event :: rest) (by rw [hreader]; rfl)
        rw [List.append_cons] at hevents
        refine ⟨rfl, rfl, ⟨rest, hevents.symm⟩, fun rest' hrest => ?_⟩
        rw [← Option.some.inj hrest]
        exact hevents
      | ends hreader error => exact hends error _
    | readError e =>
      cases AsyncClient.moves_of_step hstep with
      | ends hreader error => exact hends error _
    | cancelled =>
      cases AsyncClient.moves_of_step hstep with
      | ends hreader error => exact hends error _
      | neverRuns => exact ⟨rfl, rfl, h.handled, fun _ hnone => by cases hnone⟩
  | send frame | set ref value compartment timeout => cases hwrites
  | lost => exact Option.some.inj hstep ▸ ⟨rfl, rfl, h.handled, h.unhandled⟩
  | call i act =>
    cases AsyncClient.moves_of_step hstep <;> exact ⟨rfl, rfl, h.handled, h.unhandled⟩
  | close act =>
    cases AsyncClient.moves_of_step hstep <;> exact ⟨rfl, rfl, h.handled, h.unhandled⟩
  | iteration act =>
    cases AsyncClient.moves_of_step hstep with
    | iterates => exact ⟨rfl, rfl, h.handled, h.unhandled⟩

/-- The thread of `_serve` does the same whatever has been sent and read before. -/
theorem step_cooler {act : Exchange.Act} (hact : act = .answer ∨ ∃ n, act = .serve n)
    (sent : List Frame) (events : List Event) :
    (w.asExchange sent events).step act
      = ((w.asExchange [] []).step act).map fun y => (w.served y).asExchange sent events :=
  Exchange.step_cooler (x := w.asExchange [] []) hact w.client.session sent events

/-! ## Every step is one of the exchange, or none -/

theorem wrote_same (w : AsyncExchange) {c : AsyncClient} (hwritten : c.written = w.client.written) :
    w.wrote c = { w with client := c } := by
  rw [wrote, hwritten, List.drop_length, List.append_nil]

theorem take_ne_nil {data : Bytes} {n : ℕ} (hn : 0 < n) (hle : n ≤ data.length) :
    data.take n ≠ [] := by
  apply List.ne_nil_of_length_pos
  rw [List.length_take]
  omega

namespace Follows

/-- The client does something that concerns nobody but itself. -/
theorem goOn (h : Follows tps cooler w x) {act : AsyncClient.Act}
    (hreceives : receives act = false) (hwrites : act.writes = false)
    (hdrain : ∀ i e, act = .call i (.drainFails e) → e.isRejection = false) {c : AsyncClient}
    (hstep : w.client.step act = some c) : Follows tps cooler (w.wrote c) x := by
  obtain ⟨hwritten, hsession, hhandles⟩ := connection_of_step hreceives hwrites hstep h.handles
  rw [wrote_same w hwritten]
  refine ⟨?_, h.talks, hhandles, AsyncClient.step_inv h.inv hstep,
    AsyncClient.decided_step h.inv h.decided hdrain hstep,
    AsyncClient.asked_step h.inv h.asked hwrites hstep⟩
  rw [asExchange, hsession]
  exact h.same

/-- A frame is sent. -/
theorem sends (h : Follows tps cooler w x) {frame : Frame} {line : Bytes}
    (hline : frame.encodeLine = .ok line) {c : AsyncClient}
    (hwritten : c.written = w.client.written ++ line) (hsession : c.session = w.client.session) :
    ∃ x', x.step (.send frame) = some x' ∧ x'.sent = x.sent ++ [frame] ∧ x'.events = x.events
      ∧ x' = (w.wrote c).asExchange x'.sent x'.events
      ∧ Exchange.Talks { topics := tps } cooler x' := by
  have hstep : x.step (.send frame)
      = some { x with up := x.up ++ line, sent := x.sent ++ [frame] } := by
    rw [Exchange.step, hline]
  refine ⟨_, hstep, rfl, rfl, ?_, h.talks.step hstep⟩
  rw [wrote, hwritten, List.drop_left, asExchange, hsession]
  conv_lhs => rw [h.same]
  rfl

/-- A call of `set` sends its frame, or nothing. -/
theorem set (h : Follows tps cooler w x) {ref : TopicRef} (href : ref.Registered) (value : Value)
    (compartment : Option ℤ) (timeout : Value) :
    ∃ acts x', Machine.run Exchange.step x acts = some x'
      ∧ Follows tps cooler (w.wrote (w.client.set ref value compartment timeout).2) x' := by
  have hstep : w.client.step (.set ref value compartment timeout)
      = some (w.client.set ref value compartment timeout).2 := rfl
  have hinv := AsyncClient.step_inv h.inv hstep
  have hdecided := AsyncClient.decided_step h.inv h.decided (fun _ _ hcall => by cases hcall) hstep
  rcases w.client.set_sends ref value compartment timeout with
    ⟨frame, expectation, line, hframe, hline, -, hset⟩ | ⟨e, hset | ⟨expectation, hset⟩⟩
  · rw [hset] at hinv hdecided ⊢
    obtain ⟨x', hsend, hsent, hevents, hsame, htalks⟩ := h.sends hline
      (c := { w.client.addEntry expectation timeout with written := w.client.written ++ line })
      rfl rfl
    refine ⟨[.send frame], x', by rw [Machine.run_cons, hsend]; rfl, hsame, htalks, ?_, hinv,
      hdecided, ?_⟩
    · rw [hevents]
      exact ⟨h.handles.handled, h.handles.unhandled⟩
    · rw [hsent]
      have hcoherent : w.client.session.Coherent := by
        have hsession := h.talks.coherent
        rwa [h.same] at hsession
      -- the new entry was added when these events had been handled
      obtain ⟨-, haction, haddr, hecho⟩ := Exchange.echo_of_setFrame hcoherent href hframe
      refine Registry.AllLive.add (fun i hi call hcall => (h.asked i hi call hcall).concat frame)
        h.inv.pending ⟨x.sent, frame, [], rfl, haction, haddr, hecho, ?_⟩
      exact h.handles.handled.length_le.trans h.talks.length_events_le
  · rw [hset]
    refine ⟨[], x, rfl, ?_⟩
    rw [wrote_same w rfl]
    exact h
  -- the entry was added, and withdrawn when the line could not be sent
  · rw [hset] at hinv hdecided ⊢
    have hwritten : ((w.client.addEntry expectation timeout).leave w.client.calls.slots.length
        (.error e)).written = w.client.written := rfl
    rw [wrote_same w hwritten]
    refine ⟨[], x, rfl, h.same, h.talks, ⟨h.handles.handled, h.handles.unhandled⟩, hinv, hdecided,
      ?_⟩
    show ((w.client.addEntry expectation timeout).leave _ _).calls.AllLive _
    rw [AsyncClient.calls_leave (w.client.slot_addEntry expectation timeout)]
    exact h.asked.add_close h.inv.pending _ _

/-- So does a caller of `send`. -/
theorem send (h : Follows tps cooler w x) (frame : Frame) :
    ∃ acts x', Machine.run Exchange.step x acts = some x'
      ∧ Follows tps cooler (w.wrote (w.client.send frame).2) x' := by
  have hraises (e : PyErr) (hsend : w.client.send frame = (.error e, w.client)) :
      ∃ acts x', Machine.run Exchange.step x acts = some x'
        ∧ Follows tps cooler (w.wrote (w.client.send frame).2) x' := by
    rw [hsend]
    refine ⟨[], x, rfl, ?_⟩
    rw [wrote_same w rfl]
    exact h
  by_cases hclosed : w.client.closed = true
  · exact hraises _ (by rw [AsyncClient.send, if_pos hclosed])
  · cases hline : frame.encodeLine with
    | error e => exact hraises e (by rw [AsyncClient.send, if_neg hclosed, hline])
    | ok line =>
      have hsend : w.client.send frame
          = (.ok (), { w.client with written := w.client.written ++ line }) := by
        rw [AsyncClient.send, if_neg hclosed, hline]
      obtain ⟨x', hstep, hsent, hevents, hsame, htalks⟩ := h.sends hline
        (c := { w.client with written := w.client.written ++ line }) rfl rfl
      rw [hsend]
      refine ⟨[.send frame], x', by rw [Machine.run_cons, hstep]; rfl, hsame, htalks, ?_,
        ⟨h.inv.calls, h.inv.pending, h.inv.finished⟩, h.decided, ?_⟩
      · rw [hevents]
        exact ⟨h.handles.handled, h.handles.unhandled⟩
      · rw [hsent]
        exact fun i hi call hcall => (h.asked i hi call hcall).concat frame

/-- The reader task receives some of the bytes on their way. -/
theorem read (h : Follows tps cooler w x) {n : ℕ} (hn : 0 < n) (hle : n ≤ w.down.length)
    {c : AsyncClient} (hstep : w.client.step (.reader (.read (w.down.take n))) = some c) :
    ∃ x', x.step (.read n) = some x'
      ∧ Follows tps cooler { w with client := c, down := w.down.drop n } x' := by
  have hinv := AsyncClient.step_inv h.inv hstep
  have hdecided := AsyncClient.decided_step h.inv h.decided (fun _ _ hcall => by cases hcall) hstep
  have hasked := AsyncClient.asked_step h.inv h.asked rfl hstep
  rw [AsyncClient.step, AsyncClient.stepReader] at hstep
  split at hstep
  · rename_i hreader _
    obtain ⟨events, session, hfeed, hreceive⟩ := w.client.receive_eq (take_ne_nil hn hle)
    rw [hreceive] at hstep
    obtain rfl := Option.some.inj hstep
    have hx : x.step (.read n)
        = some { x with session, events := x.events ++ events, down := x.down.drop n } := by
      have hsession : x.session = w.client.session := by rw [h.same]; rfl
      have hdown : x.down = w.down := by rw [h.same]; rfl
      rw [Exchange.step, hdown, hsession, if_pos ⟨hn, hle⟩, hfeed]
    -- between two chunks every event has been handled
    have hevents := h.handles.unhandled [] (by rw [hreader]; rfl)
    rw [List.append_nil] at hevents
    refine ⟨_, hx, ?_, h.talks.step hx, ⟨?_, fun rest hrest => ?_⟩, hinv, hdecided, hasked⟩
    · conv_lhs => rw [h.same]
      rfl
    · exact h.handles.handled.trans (List.prefix_append _ _)
    · rw [hevents, ← Option.some.inj hrest]
  · cases hstep

/-- The thread of `_serve` goes on. -/
theorem serve (h : Follows tps cooler w x) {act : Exchange.Act}
    (hact : act = .answer ∨ ∃ n, act = .serve n) {y : Exchange}
    (hstep : (w.asExchange [] []).step act = some y) :
    ∃ x', x.step act = some x' ∧ Follows tps cooler (w.served y) x' := by
  have hx : x.step act = some ((w.served y).asExchange x.sent x.events) := by
    conv_lhs => rw [h.same]
    rw [step_cooler hact, hstep]
    rfl
  exact ⟨_, hx, rfl, h.talks.step hx, h.handles, h.inv, h.decided, h.asked⟩

/-- What a step does is done by a run of the exchange. -/
theorem step (h : Follows tps cooler w x) {act : Act} (hact : act.IsUsual)
    (hstep : w.step act = some w') :
    ∃ acts x', Machine.run Exchange.step x acts = some x' ∧ Follows tps cooler w' x' := by
  -- the steps of the cooler are those of the exchange
  have hserve {a : Exchange.Act} (ha : a = .answer ∨ ∃ n, a = .serve n)
      (hserved : ((w.asExchange [] []).step a).map w.served = some w') :
      ∃ acts x', Machine.run Exchange.step x acts = some x' ∧ Follows tps cooler w' x' := by
    obtain ⟨y, hy, rfl⟩ := Option.map_eq_some_iff.mp hserved
    obtain ⟨x', hx, h'⟩ := h.serve ha hy
    exact ⟨[a], x', by rw [Machine.run_cons, hx]; rfl, h'⟩
  cases act with
  | client act =>
    rw [AsyncExchange.step, Option.ite_none_left_eq_some] at hstep
    obtain ⟨hreceives, hstep⟩ := hstep
    obtain ⟨c, hc, rfl⟩ := Option.map_eq_some_iff.mp hstep
    have hreceives : receives act = false := Bool.eq_false_iff.mpr hreceives
    cases act with
    | send frame => exact Option.some.inj hc ▸ h.send frame
    | set ref value compartment timeout =>
      obtain rfl := Option.some.inj hc
      exact h.set hact value compartment timeout
    | lost => exact hact.elim
    | call i act =>
      refine ⟨[], x, rfl, h.goOn hreceives rfl ?_ hc⟩
      intro j e hdrain
      obtain ⟨-, rfl⟩ := AsyncClient.Act.call.inj hdrain
      exact hact
    | reader act | close act | iteration act =>
      exact ⟨[], x, rfl, h.goOn hreceives rfl (fun _ _ hdrain => by cases hdrain) hc⟩
  | read n =>
    rw [AsyncExchange.step, Option.ite_none_right_eq_some] at hstep
    obtain ⟨⟨hn, hle⟩, hstep⟩ := hstep
    obtain ⟨c, hc, rfl⟩ := Option.map_eq_some_iff.mp hstep
    obtain ⟨x', hx, h'⟩ := h.read hn hle hc
    exact ⟨[.read n], x', by rw [Machine.run_cons, hx]; rfl, h'⟩
  | serve n => exact hserve (.inr ⟨n, rfl⟩) hstep
  | answer => exact hserve (.inl rfl) hstep

end Follows

/-- Every run of the client and the cooler is one of the exchange, with the same cooler, the same
session and the same bytes on their way. -/
theorem follows_of_run {recorded : List Bytes} {refuse : List Address}
    (hcooler : FakeCooler.create recorded refuse = .ok cooler) {acts : List Act}
    (hacts : ∀ act ∈ acts, act.IsUsual)
    (hrun : Machine.run step (opened tps cooler) acts = some w) :
    ∃ acts' x, Machine.run Exchange.step { session := { topics := tps }, cooler } acts' = some x
      ∧ Follows tps cooler w x := by
  obtain ⟨acts', x, -, hrun', h⟩ := Machine.run_matches (R := Follows tps cooler)
    (D := fun _ => True)
    (fun _ _ _ _ h hact hstep => by
      obtain ⟨bs, x', hrun, h'⟩ := h.step hact hstep
      exact ⟨bs, x', fun _ _ => trivial, hrun, h'⟩) hrun hacts (follows_opened hcooler)
  exact ⟨acts', x, hrun', h⟩

/-- An asyncio client with the fake cooler refines the exchange: its run is one of a session that
reads the same bytes, in which the frames sent and the events read so far are known. The events
that the client has processed are the first of those, and only the chunk it is handling is left. -/
theorem refines_exchange {recorded : List Bytes} {refuse : List Address}
    (hcooler : FakeCooler.create recorded refuse = .ok cooler) {acts : List Act}
    (hacts : ∀ act ∈ acts, act.IsUsual)
    (hrun : Machine.run step (opened tps cooler) acts = some w) :
    ∃ acts' x, Machine.run Exchange.step { session := { topics := tps }, cooler } acts' = some x
      ∧ x = w.asExchange x.sent x.events ∧ w.client.log <+: x.events
      ∧ ∀ rest, w.client.reader = .running rest → x.events = w.client.log ++ rest := by
  obtain ⟨acts', x, hrun', h⟩ := follows_of_run hcooler hacts hrun
  refine ⟨acts', x, hrun', h.same, h.handles.handled, fun rest hrest => ?_⟩
  exact h.handles.unhandled rest (by rw [hrest]; rfl)

/-- The cooler is switched on, and confirms it. -/
def switchedOn : List Act :=
  [.client (.reader .begin), .client (.set (.name "coolerpow") (.bool true) none (.int 10)),
    .client (.call 0 .drained), .serve 13, .answer, .read 13, .client (.reader .handle)]

theorem usual_switchedOn : ∀ act ∈ switchedOn, act.IsUsual := by
  simp [switchedOn, Act.IsUsual, TopicRef.Registered]

theorem refines_exchange_switchedOn :
    ∃ w acts x, Machine.run step (opened subscribeTopics Exchange.poweredOn) switchedOn = some w
      ∧ Machine.run Exchange.step { session := {}, cooler := Exchange.poweredOn } acts = some x
      ∧ x = w.asExchange x.sent x.events ∧ x.events = w.client.log := by
  have hreader : (Machine.run step (opened subscribeTopics Exchange.poweredOn) switchedOn).map
      (fun w => w.client.reader) = some (.running []) := rfl
  obtain ⟨w, hrun, hw⟩ := Option.map_eq_some_iff.mp hreader
  obtain ⟨acts, x, hrun', hsame, -, hevents⟩ :=
    refines_exchange Exchange.create_poweredOn usual_switchedOn hrun
  exact ⟨w, acts, x, hrun, hrun', hsame, by rw [hevents [] hw, List.append_nil]⟩

/-! ## Once nothing is on its way -/

/-- Then the client has handled the answer to every SET. -/
theorem Follows.answered (h : Follows tps cooler w x) (hquiet : w.Quiet) :
    w.client.calls.AllLive fun call => call.future.done = true := by
  intro i hi call hcall
  obtain ⟨call', hcall', hopen⟩ := (h.inv.pending.mem_live i).mp hi
  obtain rfl := Option.some.inj (hcall'.symm.trans hcall)
  obtain ⟨hup, htodo, hdown, hreader⟩ := hquiet
  have hx : x.Quiet := by
    rw [h.same]
    exact ⟨hup, htodo, hdown⟩
  obtain ⟨handled, read, answers, hconversing⟩ := h.talks
  obtain ⟨hsent, hanswers⟩ := hconversing.of_quiet hx
  obtain ⟨before, frame, after, hwhole, haction, haddr, hecho, hadded⟩ := h.asked i hi _ hcall'
  have hanswer := Exchange.answer_of_set haction cooler before after
  have hlog := h.handles.unhandled [] (by rw [hreader]; rfl)
  rw [← hwhole, hsent, ← hanswers] at hanswer
  rw [List.append_nil, hconversing.events] at hlog
  cases hdone : call'.future.done with
  | true => rfl
  | false =>
    -- the answer is behind the events that were handled before the call
    have hnone := (h.decided call' (List.mem_of_getElem? hcall')).unanswered hopen
      (Future.eq_pending hdone)
    rw [SetCall.firstAnswer, List.find?_eq_none, ← hlog] at hnone
    -- it stands as many places behind as there were answers to earlier frames
    have hfound : (((reference answers).frames.map eventOf).drop call'.addedAt)[
        (cooler.converse before).2.length - call'.addedAt]?
        = some (eventOf (if frame.address ∈ cooler.refuse then Exchange.nakOf frame
          else Exchange.echoOf frame)) := by
      rw [List.getElem?_drop, Nat.add_sub_cancel' hadded, List.getElem?_map, hanswer]
      rfl
    have hverdict := Exchange.matches_answer haddr hecho (frame.address ∈ cooler.refuse)
      call'.expectation.observed
    refine absurd ?_ (hnone _ (List.mem_of_getElem? hfound))
    rw [SetCall.verdict, hverdict]
    rfl

/-- A cooler that keeps publishes only refuses nothing else than it is told to. -/
theorem Follows.refuses (h : Follows tps cooler w x) (hpublishing : cooler.Publishing)
    {call : SetCall} (hcall : call ∈ w.client.calls.slots) (hrejected : call.isRejected = true) :
    call.expectation.topic.address ∈ cooler.refuse := by
  obtain ⟨address, raw, hfirst, hverdict⟩ := (h.decided call hcall).refused (.inr hrejected)
  have haddr : address = call.expectation.topic.address := by
    by_contra hne
    rw [SetCall.verdict, WriteExpectation.matches, if_neg hne] at hverdict
    cases hverdict
  have hmem : Event.nak address raw ∈ x.events :=
    h.handles.handled.subset (List.mem_of_mem_drop (List.mem_of_find?_eq_some hfirst))
  obtain ⟨handled, up, down, hconversing⟩ := h.talks
  rw [hconversing.events] at hmem
  obtain ⟨frame, hframe, hnak⟩ := List.mem_map.mp hmem
  have hanswer := (hconversing.answered.reference_prefix (List.prefix_append down x.down)).1.subset
    hframe
  obtain ⟨hnot, rfl⟩ := eventOf_eq_nak hnak
  exact haddr ▸ (hpublishing.converse_answers handled frame hanswer).resolve_left hnot

/-- However the parties are interleaved and the bytes cut, once nothing is on its way and the
reader task waits for bytes no write waits: every call of `set` that has not ended has its answer.
And at any time only writes to addresses that the cooler refuses have been rejected, if it has
recorded publishes only. -/
theorem answered_of_quiet {recorded : List Bytes} {refuse : List Address}
    (hcooler : FakeCooler.create recorded refuse = .ok cooler) {acts : List Act}
    (hacts : ∀ act ∈ acts, act.IsUsual)
    (hrun : Machine.run step (opened tps cooler) acts = some w) :
    (w.Quiet → ∀ call ∈ w.client.calls.slots, call.Unfinished → call.future.done = true)
      ∧ ((∀ raw ∈ recorded, ∀ frame, Frame.decode raw = .ok frame → frame.IsPublish) →
        ∀ call ∈ w.client.calls.slots, call.isRejected = true →
          call.expectation.topic.address ∈ refuse) := by
  obtain ⟨-, x, -, h⟩ := follows_of_run hcooler hacts hrun
  constructor
  · intro hquiet call hcall hopen
    obtain ⟨i, hi⟩ := List.mem_iff_getElem?.mp hcall
    exact h.answered hquiet i ((h.inv.pending.mem_live i).mpr ⟨call, hi, hopen⟩) call hi
  · intro hrecorded call hcall hrejected
    rw [← FakeCooler.refuse_create hcooler]
    exact h.refuses (FakeCooler.publishing_create hcooler hrecorded) hcall hrejected

theorem answered_of_quiet_switchedOn :
    ∃ w, Machine.run step (opened subscribeTopics Exchange.poweredOn) switchedOn = some w
      ∧ ∀ call ∈ w.client.calls.slots, call.Unfinished → call.future.done = true := by
  have hquiet : (Machine.run step (opened subscribeTopics Exchange.poweredOn) switchedOn).map
      (fun w => (w.up, w.todo, w.down, w.client.reader)) = some ([], [], [], .running []) := rfl
  obtain ⟨w, hrun, hw⟩ := Option.map_eq_some_iff.mp hquiet
  simp only [Prod.mk.injEq] at hw
  exact ⟨w, hrun, (answered_of_quiet Exchange.create_poweredOn usual_switchedOn hrun).1 hw⟩

/-! ## Coming to an end -/

/-- What is done without another call, a timer or a caller who gives up. -/
def Act.IsPassive : Act → Prop
  | .read _ | .serve _ | .answer => True
  | .client (.reader .handle) | .client (.call _ .drained) | .client (.call _ .resume) => True
  | _ => False

/-- The client is open, and reads. -/
structure Reads (w : AsyncExchange) : Prop where
  running : ∃ rest, w.client.reader = .running rest
  notCancelled : w.client.cancelRequested = false

/-- Without another call the client with its cooler comes from one state to the other. -/
def Settles (w w' : AsyncExchange) : Prop :=
  ∃ acts, (∀ act ∈ acts, act.IsPassive) ∧ Machine.run step w acts = some w'

theorem Settles.refl (w : AsyncExchange) : w.Settles w :=
  ⟨[], fun _ hact => absurd hact List.not_mem_nil, rfl⟩

theorem Settles.head {v : AsyncExchange} {act : Act} (hstep : w.step act = some v)
    (hact : act.IsPassive) (h : v.Settles w') : w.Settles w' := by
  obtain ⟨acts, hacts, hrun⟩ := h
  exact ⟨act :: acts, List.forall_mem_cons.mpr ⟨hact, hacts⟩,
    (Machine.run_cons_some step).mpr ⟨v, hstep, hrun⟩⟩

theorem Settles.trans {v : AsyncExchange} (h : w.Settles v) (h' : v.Settles w') :
    w.Settles w' := by
  obtain ⟨acts, hacts, hrun⟩ := h
  obtain ⟨acts', hacts', hrun'⟩ := h'
  exact ⟨acts ++ acts', List.forall_mem_append.mpr ⟨hacts, hacts'⟩,
    by rw [Machine.run_append, hrun, Option.bind_some, hrun']⟩

/-- The reader task handles the events it holds. -/
theorem Follows.settles_handled (h : Follows tps cooler w x) (hreads : w.Reads) :
    ∃ w', w.Settles w' ∧ Follows tps cooler w' x ∧ w'.Reads ∧ w'.client.reader = .running [] := by
  obtain ⟨⟨rest, hreader⟩, hcancel⟩ := hreads
  induction rest generalizing w with
  | nil => exact ⟨w, .refl w, h, ⟨⟨[], hreader⟩, hcancel⟩, hreader⟩
  | cons event rest ih =>
    have hclient : w.client.step (.reader .handle) = some (w.client.handle event rest) := by
      rw [AsyncClient.step, AsyncClient.stepReader, hreader]
    have hstep : w.step (.client (.reader .handle))
        = some (w.wrote (w.client.handle event rest)) := by
      rw [AsyncExchange.step, if_neg (by exact Bool.false_ne_true), hclient]
      rfl
    obtain ⟨w', hsettles, h', hreads, hnil⟩ :=
      ih (h.goOn rfl rfl (fun _ _ hdrain => by cases hdrain) hclient) hcancel rfl
    exact ⟨w', hsettles.head hstep trivial, h', hreads, hnil⟩

/-- A step of the exchange other than a send can be taken by the client and the cooler. -/
theorem Follows.settles_step (h : Follows tps cooler w x) (hreads : w.Reads) {act : Exchange.Act}
    (hact : ∀ frame, act ≠ .send frame) {x' : Exchange} (hstep : x.step act = some x') :
    ∃ w', w.Settles w' ∧ Follows tps cooler w' x' ∧ w'.Reads := by
  have hserve {a : Act} (ha : a.IsPassive) (hcooler : act = .answer ∨ ∃ n, act = .serve n)
      (hsame : w.step a = ((w.asExchange [] []).step act).map w.served) :
      ∃ w', w.Settles w' ∧ Follows tps cooler w' x' ∧ w'.Reads := by
    have hx : (w.asExchange x.sent x.events).step act = some x' := by
      rw [← h.same]
      exact hstep
    rw [step_cooler hcooler] at hx
    obtain ⟨y, hy, -⟩ := Option.map_eq_some_iff.mp hx
    obtain ⟨z, hz, h'⟩ := h.serve hcooler hy
    obtain rfl := Option.some.inj (hz.symm.trans hstep)
    rw [hy] at hsame
    exact ⟨w.served y, .head hsame ha (.refl _), h', hreads.running, hreads.notCancelled⟩
  cases act with
  | send frame => exact absurd rfl (hact frame)
  | serve n => exact hserve (a := .serve n) trivial (.inr ⟨n, rfl⟩) rfl
  | answer => exact hserve (a := .answer) trivial (.inl rfl) rfl
  | read n =>
    -- first what has been received before
    obtain ⟨v, hsettles, hv, ⟨-, hcancel⟩, hreader⟩ := h.settles_handled hreads
    have hguard : 0 < n ∧ n ≤ v.down.length := by
      rw [hv.same, Exchange.step, Option.ite_none_right_eq_some] at hstep
      exact hstep.1
    have hclient : v.client.step (.reader (.read (v.down.take n)))
        = some (v.client.receive (v.down.take n)) := by
      rw [AsyncClient.step, AsyncClient.stepReader, hreader, hcancel]
    have hread : v.step (.read n) = some { v with
        client := v.client.receive (v.down.take n), down := v.down.drop n } := by
      rw [AsyncExchange.step, if_pos hguard, hclient]
      rfl
    obtain ⟨z, hz, h'⟩ := hv.read hguard.1 hguard.2 hclient
    obtain rfl := Option.some.inj (hz.symm.trans hstep)
    refine ⟨_, hsettles.trans (.head hread trivial (.refl _)), h', ?_⟩
    obtain ⟨events, session, -, hreceive⟩ :=
      v.client.receive_eq (take_ne_nil hguard.1 hguard.2)
    rw [hreceive]
    exact ⟨⟨events, rfl⟩, hcancel⟩

/-- Everything on its way is handled. -/
theorem Follows.settles_quiet (h : Follows tps cooler w x) (hreads : w.Reads) :
    ∃ w' x', w.Settles w' ∧ Follows tps cooler w' x' ∧ w'.Reads ∧ w'.Quiet := by
  obtain ⟨x', ⟨acts, hrun, hacts⟩, hx'⟩ := h.talks.settles
  obtain ⟨more, v, hmore, hrun', hv, hreads'⟩ := Machine.run_matches
    (R := fun x w => Follows tps cooler w x ∧ w.Reads) (C := fun act => ∀ frame, act ≠ .send frame)
    (D := Act.IsPassive)
    (fun _ _ _ _ h hact hstep => by
      obtain ⟨w', ⟨bs, hbs, hrun⟩, h'⟩ := h.1.settles_step h.2 hact hstep
      exact ⟨bs, w', hbs, hrun, h'⟩) hrun hacts ⟨h, hreads⟩
  obtain ⟨w', hsettles, h', hreads'', hreader⟩ := hv.settles_handled hreads'
  refine ⟨w', x', .trans ⟨more, hmore, hrun'⟩ hsettles, h', hreads'', ?_⟩
  rw [h'.same] at hx'
  exact ⟨hx'.1, hx'.2.1, hx'.2.2, hreader⟩

/-- Calls of `set` go on without the cooler. -/
theorem run_calls {acts : List AsyncClient.Act} (hacts : ∀ act ∈ acts, ∃ i a, act = .call i a)
    {c : AsyncClient} (hrun : Machine.run AsyncClient.step w.client acts = some c) :
    Machine.run step w (acts.map .client) = some { w with client := c } := by
  induction acts generalizing w with
  | nil =>
    obtain rfl := Option.some.inj hrun
    rfl
  | cons act acts ih =>
    obtain ⟨⟨i, a, rfl⟩, hothers⟩ := List.forall_mem_cons.mp hacts
    obtain ⟨c', hc', hrest⟩ := (Machine.run_cons_some _).mp hrun
    have hwritten : c'.written = w.client.written := by
      cases AsyncClient.moves_of_step hc' <;> rfl
    have hstep : w.step (.client (.call i a)) = some { w with client := c' } := by
      rw [step, if_neg (by exact Bool.false_ne_true), hc', Option.map_some,
        wrote_same w hwritten]
    rw [List.map_cons, Machine.run_cons, hstep, Option.bind_some]
    exact ih hothers hrest

/-- As long as the reader task reads and nobody has called `close`, every write can come to its
end, without a timer and without anybody who calls or cancels anything: the cooler and the client
only handle what is on its way, and the calls go on. -/
theorem writes_end {recorded : List Bytes} {refuse : List Address}
    (hcooler : FakeCooler.create recorded refuse = .ok cooler) {acts : List Act}
    (hacts : ∀ act ∈ acts, act.IsUsual)
    (hrun : Machine.run step (opened tps cooler) acts = some w) {rest : List Event}
    (hreader : w.client.reader = .running rest) (hcancel : w.client.cancelRequested = false) :
    ∃ more w', (∀ act ∈ more, act.IsPassive) ∧ Machine.run step w more = some w' ∧ w'.Quiet
      ∧ ∀ call ∈ w'.client.calls.slots, ¬ call.Unfinished := by
  obtain ⟨-, x, -, h⟩ := follows_of_run hcooler hacts hrun
  obtain ⟨v, y, hsettles, hv, -, hquiet⟩ := h.settles_quiet ⟨⟨rest, hreader⟩, hcancel⟩
  obtain ⟨calls, c, hcalls, -, hlocal, hlive, -, -, hreader'⟩ :=
    AsyncClient.run_live hv.inv (hv.answered hquiet)
  -- then the calls, whose futures are done, come to their end one by one
  have hends : v.Settles { v with client := c } := by
    refine ⟨calls.map .client, ?_, run_calls (fun act hact => (hlocal act hact).2) hcalls⟩
    intro act hact
    obtain ⟨a, ha, rfl⟩ := List.mem_map.mp hact
    obtain ⟨hpassive, i, b, rfl⟩ := hlocal a ha
    cases b with
    | drained | resume => trivial
    | drainFails e | timesOut | cancel => exact hpassive.elim
  obtain ⟨more, hmore, hrun'⟩ := hsettles.trans hends
  refine ⟨more, _, hmore, hrun', ?_, fun call hcall hopen => ?_⟩
  · obtain ⟨hup, htodo, hdown, hnil⟩ := hquiet
    exact ⟨hup, htodo, hdown, hreader'.trans hnil⟩
  · have hinv : c.Inv :=
      Machine.run_preserves (fun _ _ _ h hstep => AsyncClient.step_inv h hstep) hcalls hv.inv
    obtain ⟨i, hi⟩ := List.mem_iff_getElem?.mp hcall
    have hmem := (hinv.pending.mem_live i).mpr ⟨call, hi, hopen⟩
    rw [hlive] at hmem
    exact absurd hmem List.not_mem_nil

/-- From the middle of a write. -/
theorem writes_end_switchedOn :
    ∃ w, Machine.run step (opened subscribeTopics Exchange.poweredOn) (switchedOn.take 3) = some w
      ∧ ∃ more w', (∀ act ∈ more, act.IsPassive) ∧ Machine.run step w more = some w'
        ∧ ∀ call ∈ w'.client.calls.slots, ¬ call.Unfinished := by
  have hreader : (Machine.run step (opened subscribeTopics Exchange.poweredOn)
      (switchedOn.take 3)).map (fun w => (w.client.reader, w.client.cancelRequested))
      = some (.running [], false) := rfl
  obtain ⟨w, hrun, hw⟩ := Option.map_eq_some_iff.mp hreader
  obtain ⟨more, w', hmore, hrun', -, hends⟩ := writes_end Exchange.create_poweredOn
    (fun act hact => usual_switchedOn act (List.mem_of_mem_take hact)) hrun
    (Prod.mk.inj hw).1 (Prod.mk.inj hw).2
  exact ⟨w, hrun, more, w', hmore, hrun', hends⟩

end AsyncExchange

end Ddmp
