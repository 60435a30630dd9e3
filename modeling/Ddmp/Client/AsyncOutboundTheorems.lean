import Ddmp.Client.AsyncMoves
import Ddmp.Protocol.StreamTheorems
import Ddmp.Session.AllowListTheorems

/-!
# What an asyncio client writes

`send`, which `subscribe_all` calls, and `set` write whole lines, and nobody else writes:
`written_frames` says what a cooler reads from the connection, however the calls and the other
parties are interleaved.
-/

namespace Ddmp

open Lib

namespace AsyncClient

/-- The frames that a step writes: that of a call of `send` or `set` that comes to `drain`. -/
def frames : AsyncClient × Act → List Frame
  | (c, .send frame) =>
    match (c.send frame).1 with
    | .ok () => [frame]
    | .error _ => []
  | (c, .set ref value compartment timeout) =>
    match c.session.setFrame ref value compartment, (c.set ref value compartment timeout).1 with
    | .ok (frame, _), .ok _ => [frame]
    | _, _ => []
  | _ => []

variable {c c' : AsyncClient}

/-- A call of `set` adds its entry and writes the line of its frame, or raises. -/
theorem set_sends (c : AsyncClient) (ref : TopicRef) (value : Value) (compartment : Option ℤ)
    (timeout : Value) :
    (∃ frame expectation line, c.session.setFrame ref value compartment = .ok (frame, expectation)
        ∧ frame.encodeLine = .ok line ∧ c.closed = false
        ∧ c.set ref value compartment timeout = (.ok c.calls.slots.length,
          { c.addEntry expectation timeout with written := c.written ++ line }))
      ∨ ∃ e, c.set ref value compartment timeout = (.error e, c)
        ∨ ∃ expectation, c.set ref value compartment timeout = (.error e,
          (c.addEntry expectation timeout).leave c.calls.slots.length (.error e)) := by
  cases hframe : c.session.setFrame ref value compartment with
  | error e => exact .inr ⟨e, .inl (by rw [set, hframe])⟩
  | ok pair =>
    obtain ⟨frame, expectation⟩ := pair
    by_cases hclosed : c.closed = true
    · have hadded : (c.addEntry expectation timeout).closed = true := hclosed
      exact .inr ⟨_, .inr ⟨expectation, by simp only [set, hframe, send, if_pos hadded]; rfl⟩⟩
    · have hadded : ¬ (c.addEntry expectation timeout).closed = true := hclosed
      cases hline : frame.encodeLine with
      | error e =>
        exact .inr ⟨e, .inr ⟨expectation, by simp only [set, hframe, send, if_neg hadded, hline]⟩⟩
      | ok line =>
        refine .inl ⟨frame, expectation, line, rfl, hline, Bool.eq_false_iff.mpr hclosed, ?_⟩
        simp only [set, hframe, send, if_neg hadded, hline]
        rfl

/-! ## One step -/

/-- `send` writes the line of its frame, or raises. -/
theorem send_written (c : AsyncClient) (frame : Frame) :
    ∃ bytes, Carries bytes (frames (c, .send frame))
      ∧ (c.send frame).2.written = c.written ++ bytes := by
  by_cases hclosed : c.closed = true
  · refine ⟨[], ?_, ?_⟩
    · simp only [frames, send, if_pos hclosed, carries_nil]
    · rw [send, if_pos hclosed, List.append_nil]
  · cases hline : frame.encodeLine with
    | error e =>
      refine ⟨[], ?_, ?_⟩
      · simp only [frames, send, if_neg hclosed, hline, carries_nil]
      · rw [send, if_neg hclosed, hline, List.append_nil]
    | ok line =>
      refine ⟨line, ?_, ?_⟩
      · simp only [frames, send, if_neg hclosed, hline]
        exact carries_line hline
      · rw [send, if_neg hclosed, hline]

theorem set_written (c : AsyncClient) (ref : TopicRef) (value : Value) (compartment : Option ℤ)
    (timeout : Value) :
    ∃ bytes, Carries bytes (frames (c, .set ref value compartment timeout))
      ∧ (c.set ref value compartment timeout).2.written = c.written ++ bytes := by
  rcases c.set_sends ref value compartment timeout with
    ⟨frame, expectation, line, hframe, hline, -, hset⟩ | ⟨e, hset⟩
  · refine ⟨line, ?_, by rw [hset]⟩
    simp only [frames, hframe, hset]
    exact carries_line hline
  · have hnothing : frames (c, .set ref value compartment timeout) = [] := by
      rw [frames]
      split
      · rename_i hok
        rcases hset with hset | ⟨expectation, hset⟩
        · rw [hset] at hok
          cases hok
        · rw [hset] at hok
          cases hok
      · rfl
    refine ⟨[], hnothing ▸ carries_nil, ?_⟩
    rcases hset with hset | ⟨expectation, hset⟩
    · rw [hset, List.append_nil]
    · rw [hset, List.append_nil]
      rfl

/-- A step writes the lines of its frames. -/
theorem written_of_step {act : Act} (hstep : c.step act = some c') :
    ∃ bytes, Carries bytes (frames (c, act)) ∧ c'.written = c.written ++ bytes := by
  cases act with
  | send frame => exact Option.some.inj hstep ▸ c.send_written frame
  | set ref value compartment timeout =>
    exact Option.some.inj hstep ▸ c.set_written ref value compartment timeout
  | _ =>
    -- nobody else writes
    have hwritten : c'.written = c.written := by
      cases moves_of_step hstep <;> rfl
    exact ⟨[], carries_nil, by rw [hwritten, List.append_nil]⟩

/-- A frame that a step writes was passed to `send` or built by `set_frame`. -/
theorem mem_frames {act : Act} {frame : Frame} (h : frame ∈ frames (c, act)) :
    act = .send frame
      ∨ ∃ ref value compartment timeout expectation, act = .set ref value compartment timeout
        ∧ c.session.setFrame ref value compartment = .ok (frame, expectation) := by
  cases act with
  | send f =>
    rw [frames] at h
    split at h
    · rw [List.mem_singleton.mp h]
      exact .inl rfl
    · exact absurd h List.not_mem_nil
  | set ref value compartment timeout =>
    rw [frames] at h
    split at h
    · rename_i hframe _
      rw [List.mem_singleton.mp h]
      exact .inr ⟨ref, value, compartment, timeout, _, rfl, hframe⟩
    · exact absurd h List.not_mem_nil
  | _ => exact absurd h List.not_mem_nil

theorem carries_of_step {past : List (AsyncClient × Act)}
    (h : Carries c.written (past.flatMap frames)) {act : Act} (hstep : c.step act = some c') :
    Carries c'.written ((past ++ [(c, act)]).flatMap frames) := by
  obtain ⟨bytes, hbytes, hwritten⟩ := written_of_step hstep
  rw [List.flatMap_append, List.flatMap_singleton, hwritten]
  exact h.append hbytes

/-! ## Runs -/

/-- Whatever the parties do, what the client writes are the lines of the frames of the calls of
`send` and `set` that come to `drain`, in the order of the calls, no line broken or mixed with
another. So the cooler, however much of it arrives and in whatever chunks, reads the first of these
frames and nothing else, and all of them once everything has arrived. A frame read was passed to
`send`, or it is a SET, for a writable address unless a caller has passed a `Topic` object. -/
theorem written_frames {session : Session} {acts : List Act}
    (hrun : Machine.run step { session } acts = some c) {chunks : List Bytes}
    (hchunks : chunks.flatten <+: c.written) :
    ∃ lists d, LineDecoder.feedAll {} chunks = .ok (lists, d) ∧ d.dropped = 0
      ∧ lists.flatten <+: (Machine.history step { session } acts).flatMap frames
      ∧ (chunks.flatten = c.written →
        lists.flatten = (Machine.history step { session } acts).flatMap frames ∧ d.pending = [])
      ∧ ∀ frame ∈ lists.flatten, .send frame ∈ acts ∨ frame.action = Action.SET.value
        ∧ ((∀ ref value compartment timeout, .set ref value compartment timeout ∈ acts →
            ∀ t, ref ≠ .topic t) →
          WritableAddress frame.address ∧ frame.address ∉ neverWrite) := by
  have hcarries : Carries c.written ((Machine.history step { session } acts).flatMap frames) :=
    Machine.run_remembers (I := fun past c => Carries c.written (past.flatMap frames))
      (fun _ _ _ _ h hstep => carries_of_step h hstep) [] hrun carries_nil
  -- the decoder reads what the reference reads from the part that has arrived
  obtain ⟨hfirst, hdropped⟩ := hcarries.reference_prefix hchunks
  obtain ⟨lists, hall, hlists⟩ := LineDecoder.feedAll_eq chunks {} rfl
  rw [List.nil_append] at hall hlists
  rw [← hlists] at hfirst
  refine ⟨lists, _, hall, ?_, hfirst, fun hwhole => ?_, fun frame hframe => ?_⟩
  · rw [hdropped]
  · obtain ⟨hframes, -, hpending⟩ := hcarries.reference
    rw [← hwhole] at hframes hpending
    exact ⟨hlists.trans hframes, hpending⟩
  -- the action that wrote the frame is one of the run
  · obtain ⟨⟨s, act⟩, hpast, hmem⟩ := List.mem_flatMap.mp (hfirst.subset hframe)
    have hact := Machine.mem_of_mem_history hpast
    rcases mem_frames hmem with rfl | ⟨ref, value, compartment, timeout, expectation, rfl, hset⟩
    · exact .inl hact
    · refine .inr ⟨(Session.topic_of_setFrame hset).1, fun hrefs => ?_⟩
      have haddr := Session.writable_of_setFrame hset
        (hrefs ref value compartment timeout hact)
      exact ⟨haddr, haddr.not_mem_neverWrite⟩

/-- The client subscribes to a topic and switches the cooler on, and tries that again after the end
of the connection. -/
def switchedOnTwice : List Act :=
  [.reader .begin, .send { action := Action.SUBSCRIBE.value, address := mccc 0x0B },
    .set (.name "coolerpow") (.bool true) none (.int 10), .reader (.read []),
    .set (.name "coolerpow") (.bool true) none (.int 10)]

/-- The cooler has read all but the end of the second line, in two chunks. -/
theorem written_frames_switchedOnTwice :
    ∃ lists d, LineDecoder.feedAll {} [bytesLit "EgsAA", bytesLit "Bo=\rEQsA"] = .ok (lists, d)
      ∧ ∀ frame ∈ lists.flatten, frame = { action := Action.SUBSCRIBE.value, address := mccc 0x0B }
        ∨ frame.action = Action.SET.value ∧ WritableAddress frame.address := by
  have hwritten : (Machine.run step {} switchedOnTwice).map written
      = some (bytesLit "EgsAABo=\rEQsAABoBAAAA\r") := rfl
  obtain ⟨c, hrun, hc⟩ := Option.map_eq_some_iff.mp hwritten
  have hchunks : [bytesLit "EgsAA", bytesLit "Bo=\rEQsA"].flatten <+: c.written := by
    rw [hc]
    decide
  obtain ⟨lists, d, hall, -, -, -, hframes⟩ := written_frames hrun hchunks
  refine ⟨lists, d, hall, fun frame hframe => ?_⟩
  rcases hframes frame hframe with hsend | ⟨haction, hwritable⟩
  · simp only [switchedOnTwice, List.mem_cons, Act.send.injEq, reduceCtorEq, List.not_mem_nil,
      or_false, false_or] at hsend
    exact .inl hsend
  · refine .inr ⟨haction, (hwritable fun ref value compartment timeout hmem t href => ?_).1⟩
    simp [switchedOnTwice, href] at hmem

end AsyncClient

end Ddmp
