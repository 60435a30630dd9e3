import Ddmp.Client.FakeCooler
import Ddmp.Protocol.StreamTheorems
import Ddmp.Session.EchoTheorems

/-!
# A conversation with the fake cooler

However the bytes of both directions are cut, and however the sends, the receives and the answers
are interleaved, an exchange is the conversation of a cooler that handles the frames one after
another in the order sent, with an initial part of its answers read (`exchange_converse`). So a
session mirrors the cooler once nothing is on its way (`mirrors_of_quiet`), and every write is
confirmed or refused (`write_answered`).
-/

namespace Ddmp

open Lib Lib.Fallible

/-! ## The cooler -/

namespace FakeCooler

/-- What the cooler replies with can be sent, and is kept under its address. -/
def Stocked (c : FakeCooler) : Prop :=
  ∀ a frame, c.publishes.get? a = some frame → frame.Fits ∧ frame.address = a

variable {c : FakeCooler} {frame : Frame}

/-- A reply to a frame that fits fits, for the same address, and leaves the cooler stocked. -/
theorem Stocked.reply (h : c.Stocked) (hframe : frame.Fits) :
    (c.reply frame).2.Stocked
      ∧ ∀ answer, (c.reply frame).1 = some answer → answer.Fits
        ∧ answer.address = frame.address := by
  unfold FakeCooler.reply
  split
  · exact ⟨h, fun answer hanswer => h frame.address answer hanswer⟩
  · split
    · split
      · refine ⟨h, fun answer hanswer => ?_⟩
        rw [← Option.some.inj hanswer]
        exact ⟨⟨Action.fits .NAK, hframe.2⟩, rfl⟩
      · have hecho : Frame.Fits {
            action := Action.PUBLISH.value
            address := frame.address
            payload := frame.payload } :=
          ⟨Action.fits .PUBLISH, hframe.2⟩
        refine ⟨fun a f hf => ?_, fun answer hanswer => ?_⟩
        · rw [Dict.get?_set] at hf
          split at hf
          · rename_i ha
            rw [← Option.some.inj hf]
            exact ⟨hecho, ha⟩
          · exact h a f hf
        · rw [← Option.some.inj hanswer]
          exact ⟨hecho, rfl⟩
    · exact ⟨h, fun answer hanswer => absurd hanswer (Option.some_ne_none answer).symm⟩

theorem Stocked.handle (h : c.Stocked) (hframe : frame.Fits) :
    (c.handle frame).2.Stocked
      ∧ ∀ answer, (c.handle frame).1 = some answer → answer.Fits
        ∧ answer.address = frame.address :=
  Stocked.reply (c := { c with received := c.received ++ [frame] }) h hframe

/-- A frame that is kept was recorded. -/
theorem exists_of_create {recorded : List Bytes} {refuse : List Address}
    (h : create recorded refuse = .ok c) {a : Address} {f : Frame}
    (hget : c.publishes.get? a = some f) :
    ∃ raw ∈ recorded, Frame.decode raw = .ok f ∧ f.address = a := by
  obtain ⟨frames, hframes, hc⟩ := bind_eq_ok.mp h
  rw [← Except.ok.inj hc, Dict.get?_replay, Dict.get?_empty, Option.or_none] at hget
  obtain ⟨entry, hentry, hframe⟩ := List.mem_map.mp (List.mem_of_getLast? hget)
  obtain ⟨hmem, ha⟩ := List.mem_filter.mp hentry
  obtain ⟨g, hg, rfl⟩ := List.mem_map.mp hmem
  obtain rfl : g = f := hframe
  obtain ⟨raw, hraw, hdecode⟩ := exists_of_mem_mapM hframes hg
  exact ⟨raw, hraw, hdecode, of_decide_eq_true ha⟩

theorem stocked_create {recorded : List Bytes} {refuse : List Address}
    (h : create recorded refuse = .ok c) : c.Stocked := by
  intro a f hget
  obtain ⟨raw, -, hdecode, ha⟩ := exists_of_create h hget
  exact ⟨Frame.fits_of_decode hdecode, ha⟩

theorem refuse_create {recorded : List Bytes} {refuse : List Address}
    (h : create recorded refuse = .ok c) : c.refuse = refuse := by
  obtain ⟨frames, -, hc⟩ := bind_eq_ok.mp h
  rw [← Except.ok.inj hc]

theorem converse_append (c : FakeCooler) (frames more : List Frame) :
    c.converse (frames ++ more)
      = (((c.converse frames).1.converse more).1,
        (c.converse frames).2 ++ ((c.converse frames).1.converse more).2) := by
  induction frames generalizing c with
  | nil => rfl
  | cons f rest ih => simp only [List.cons_append, converse, ih, List.append_assoc]

theorem converse_concat (c : FakeCooler) (frames : List Frame) (frame : Frame) :
    c.converse (frames ++ [frame])
      = (((c.converse frames).1.handle frame).2,
        (c.converse frames).2 ++ ((c.converse frames).1.handle frame).1.toList) := by
  rw [converse_append]
  simp only [converse, List.append_nil]

theorem refuse_handle (c : FakeCooler) (frame : Frame) :
    (c.handle frame).2.refuse = c.refuse := by
  unfold handle reply
  split
  · rfl
  · split
    · split <;> rfl
    · rfl

theorem refuse_converse (c : FakeCooler) (frames : List Frame) :
    (c.converse frames).1.refuse = c.refuse := by
  induction frames using List.reverseRecOn with
  | nil => rfl
  | append_singleton frames frame ih => rw [converse_concat, refuse_handle, ih]

/-- A frame that makes the cooler publish an address: a SUBSCRIBE, or a SET that is accepted. -/
def Tells (refuse : List Address) (a : Address) (frame : Frame) : Prop :=
  frame.address = a
    ∧ (frame.action = Action.SUBSCRIBE.value ∨ frame.action = Action.SET.value ∧ a ∉ refuse)

instance (refuse : List Address) (a : Address) (frame : Frame) :
    Decidable (Tells refuse a frame) := inferInstanceAs (Decidable (_ ∧ _))

/-- What the cooler keeps to reply with are publishes for their addresses. -/
def Publishing (c : FakeCooler) : Prop :=
  ∀ a frame, c.publishes.get? a = some frame → frame.IsPublish ∧ frame.address = a

theorem publishing_create {recorded : List Bytes} {refuse : List Address}
    (h : create recorded refuse = .ok c)
    (hrecorded : ∀ raw ∈ recorded, ∀ frame, Frame.decode raw = .ok frame → frame.IsPublish) :
    c.Publishing := by
  intro a f hget
  obtain ⟨raw, hraw, hdecode, ha⟩ := exists_of_create h hget
  exact ⟨hrecorded raw hraw f hdecode, ha⟩

/-- An answer is a publish or refuses a SET. -/
theorem Publishing.answers (h : c.Publishing) {frame answer : Frame}
    (hanswer : (c.handle frame).1 = some answer) :
    answer.IsPublish ∨ answer.address ∈ c.refuse := by
  rw [handle, reply] at hanswer
  split at hanswer
  · exact .inl (h _ _ hanswer).1
  · split at hanswer
    · split at hanswer
      · rename_i hrefuse
        rw [← Option.some.inj hanswer]
        exact .inr hrefuse
      · rw [← Option.some.inj hanswer]
        exact .inl rfl
    · cases hanswer

/-- A frame that tells of an address brings what the cooler now keeps for it; any other frame
changes nothing for that address. -/
theorem Publishing.handle (h : c.Publishing) (frame : Frame) :
    (c.handle frame).2.Publishing
      ∧ ∀ a, if Tells c.refuse a frame then
          lastPublish a (c.handle frame).1.toList
              = ((c.handle frame).2.publishes.get? a).map Frame.payload
            ∧ ((c.handle frame).2.publishes.get? a = none → c.publishes.get? a = none)
        else lastPublish a (c.handle frame).1.toList = none
          ∧ (c.handle frame).2.publishes.get? a = c.publishes.get? a := by
  have hset : ¬ Action.SET.value = Action.SUBSCRIBE.value := by decide
  unfold FakeCooler.handle FakeCooler.reply
  by_cases hsubscribe : frame.action = Action.SUBSCRIBE.value
  · rw [if_pos hsubscribe]
    refine ⟨h, fun a => ?_⟩
    by_cases ha : frame.address = a
    · rw [if_pos ⟨ha, .inl hsubscribe⟩, ha]
      refine ⟨?_, id⟩
      dsimp only
      cases hget : c.publishes.get? a with
      | none => rfl
      | some answer =>
        rw [Option.toList_some, lastPublish_singleton, if_pos (h a answer hget)]
        rfl
    · rw [if_neg fun htells => ha htells.1]
      refine ⟨?_, rfl⟩
      dsimp only
      cases hget : c.publishes.get? frame.address with
      | none => rfl
      | some answer =>
        rw [Option.toList_some, lastPublish_singleton,
          if_neg fun hanswer => ha ((h _ answer hget).2.symm.trans hanswer.2)]
  · rw [if_neg hsubscribe]
    by_cases haction : frame.action = Action.SET.value
    · rw [if_pos haction]
      by_cases hrefuse : frame.address ∈ c.refuse
      · rw [if_pos hrefuse]
        refine ⟨h, fun a => ?_⟩
        have htells : ¬ Tells c.refuse a frame := by
          rintro ⟨rfl, hsub | ⟨-, hnot⟩⟩
          · exact hsubscribe hsub
          · exact hnot hrefuse
        have hnak : ¬ Action.NAK.value = Action.PUBLISH.value := by decide
        rw [if_neg htells]
        exact ⟨(lastPublish_singleton a _).trans (if_neg fun hpublish => hnak hpublish.1), rfl⟩
      · rw [if_neg hrefuse]
        -- the echo is what the cooler keeps from now on
        refine ⟨fun a f hf => ?_, fun a => ?_⟩
        · dsimp only at hf
          rw [Dict.get?_set] at hf
          split at hf
          · rename_i ha
            rw [← Option.some.inj hf]
            exact ⟨rfl, ha⟩
          · exact h a f hf
        · dsimp only
          rw [Dict.get?_set, Option.toList_some, lastPublish_singleton]
          by_cases ha : frame.address = a
          · rw [if_pos ⟨ha, .inr ⟨haction, ha ▸ hrefuse⟩⟩, if_pos ⟨rfl, ha⟩, if_pos ha]
            exact ⟨rfl, fun hnone => absurd hnone (Option.some_ne_none _)⟩
          · rw [if_neg fun htells => ha htells.1, if_neg fun hecho => ha hecho.2, if_neg ha]
            exact ⟨rfl, rfl⟩
    · rw [if_neg haction]
      refine ⟨h, fun a => ?_⟩
      rw [if_neg fun htells => htells.2.elim hsubscribe fun hacc => haction hacc.1]
      exact ⟨rfl, rfl⟩

/-- After a conversation, the last publish of an address among the answers is what the cooler
keeps for it, if a frame has told of the address; otherwise there is none. -/
theorem Publishing.converse (h : c.Publishing) (frames : List Frame) :
    (c.converse frames).1.Publishing
      ∧ ∀ a, lastPublish a (c.converse frames).2
        = if ∃ frame ∈ frames, Tells c.refuse a frame then
            ((c.converse frames).1.publishes.get? a).map Frame.payload
          else none := by
  induction frames using List.reverseRecOn with
  | nil => exact ⟨h, fun a => (if_neg fun hex => absurd hex (by simp)).symm⟩
  | append_singleton frames frame ih =>
    obtain ⟨hpublishing, hlast⟩ := ih
    obtain ⟨hnext, hhandle⟩ := hpublishing.handle frame
    rw [converse_concat]
    refine ⟨hnext, fun a => ?_⟩
    have ha := hhandle a
    rw [refuse_converse] at ha
    rw [lastPublish_append, hlast a]
    have hex : (∃ f ∈ frames ++ [frame], Tells c.refuse a f)
        ↔ (∃ f ∈ frames, Tells c.refuse a f) ∨ Tells c.refuse a frame := by
      simp [or_and_right, exists_or]
    by_cases htells : Tells c.refuse a frame
    · rw [if_pos htells] at ha
      rw [ha.1, if_pos (hex.mpr (.inr htells))]
      cases hget : ((c.converse frames).1.handle frame).2.publishes.get? a with
      | some answer => rfl
      | none =>
        -- then nothing has been kept for the address before either
        rw [ha.2 hget, Option.map_none, ite_self]
        rfl
    · rw [if_neg htells] at ha
      rw [ha.1, ha.2, Option.none_or]
      refine if_congr ?_ rfl rfl
      rw [hex, or_iff_left htells]

theorem Publishing.converse_answers (h : c.Publishing) (frames : List Frame) :
    ∀ answer ∈ (c.converse frames).2, answer.IsPublish ∨ answer.address ∈ c.refuse := by
  induction frames using List.reverseRecOn with
  | nil => exact fun _ hanswer => absurd hanswer List.not_mem_nil
  | append_singleton frames frame ih =>
    intro answer hanswer
    rw [converse_concat, List.mem_append, Option.mem_toList] at hanswer
    rcases hanswer with hanswer | hanswer
    · exact ih answer hanswer
    · have hlast := (h.converse frames).1.answers hanswer
      rwa [refuse_converse] at hlast

end FakeCooler

/-! ## The exchange -/

namespace Exchange

/-- What holds of an exchange when `up` and `down` have been received, and the frames in `handled`
have been handled. -/
structure Conversing (start : Session) (cooler : FakeCooler) (handled : List Frame)
    (up down : Bytes) (x : Exchange) : Prop where
  serving : x.serving = true
  sent : Carries (up ++ x.up) x.sent
  decodes : Decodes up x.decoder
  waiting : (reference up).frames = handled ++ x.todo
  state : x.cooler = (cooler.converse handled).1
  stocked : x.cooler.Stocked
  answered : Carries (down ++ x.down) (cooler.converse handled).2
  session : ∃ d, Decodes down d
    ∧ x.session = { start with decoder := d }.afterFrames (reference down).frames
  events : x.events = (reference down).frames.map eventOf

variable {start : Session} {cooler : FakeCooler} {handled : List Frame} {up down : Bytes}
  {x x' : Exchange}

/-- More is written, which makes what is on its way the lines of these frames. -/
theorem Conversing.write (h : Conversing start cooler handled up down x) {more : Bytes}
    {sent : List Frame} (hcarries : Carries (up ++ (x.up ++ more)) sent) :
    Conversing start cooler handled up down { x with up := x.up ++ more, sent } where
  serving := h.serving
  sent := hcarries
  decodes := h.decodes
  waiting := h.waiting
  state := h.state
  stocked := h.stocked
  answered := h.answered
  session := h.session
  events := h.events

theorem Conversing.send (h : Conversing start cooler handled up down x) {frame : Frame}
    {line : Bytes} (hline : frame.encodeLine = .ok line) :
    Conversing start cooler handled up down
      { x with up := x.up ++ line, sent := x.sent ++ [frame] } := by
  have hsent := h.sent.append (carries_line hline)
  rw [List.append_assoc] at hsent
  exact h.write hsent

theorem Conversing.serve (h : Conversing start cooler handled up down x) (htodo : x.todo = [])
    (n : ℕ) : Conversing start cooler handled (up ++ x.up.take n) down { x with
      todo := (reference (x.decoder.buf ++ x.up.take n)).frames
      decoder := {
        buf := (reference (x.decoder.buf ++ x.up.take n)).pending
        dropped := x.decoder.dropped + (reference (x.decoder.buf ++ x.up.take n)).dropped }
      up := x.up.drop n } := by
  obtain ⟨hframes, hdecodes⟩ := h.decodes.next (x.up.take n)
  refine ⟨h.serving, ?_, hdecodes, ?_, h.state, h.stocked, h.answered, h.session, h.events⟩
  · rw [List.append_assoc, List.take_append_drop]
    exact h.sent
  · rw [hframes, h.waiting, htodo, List.append_nil]

theorem Conversing.read (h : Conversing start cooler handled up down x) (n : ℕ)
    {events : List Event} {session : Session}
    (hfeed : x.session.feed (x.down.take n) = .ok (events, session)) :
    Conversing start cooler handled up (down ++ x.down.take n)
      { x with session, events := x.events ++ events, down := x.down.drop n } := by
  obtain ⟨d, hd, hsession⟩ := h.session
  obtain ⟨hframes, hdecodes⟩ := hd.next (x.down.take n)
  have hbuf : x.session.decoder = d := by rw [hsession]; rfl
  rw [Session.feed_eq, hbuf] at hfeed
  obtain ⟨rfl, rfl⟩ := Prod.mk.inj (Except.ok.inj hfeed)
  refine ⟨h.serving, h.sent, h.decodes, h.waiting, h.state, h.stocked, ?_, ⟨_, hdecodes, ?_⟩, ?_⟩
  · rw [List.append_assoc, List.take_append_drop]
    exact h.answered
  · rw [hframes, Session.afterFrames_append, hsession]
    rfl
  · rw [hframes, List.map_append, h.events]

/-- A frame that is handled was sent, so that it fits, and so does the reply. -/
theorem Conversing.answer (h : Conversing start cooler handled up down x) {frame : Frame}
    {todo : List Frame} (htodo : x.todo = frame :: todo)
    (hstep : x.step .answer = some x') :
    Conversing start cooler (handled ++ [frame]) up down x' := by
  have hfits : frame.Fits := by
    have hfirst := (h.sent.reference_prefix (List.prefix_append up x.up)).1
    refine h.sent.fits frame (hfirst.subset ?_)
    rw [h.waiting, htodo]
    exact List.mem_append_right handled List.mem_cons_self
  obtain ⟨hstocked, hreply⟩ := h.stocked.handle hfits
  have hwaiting : (reference up).frames = handled ++ [frame] ++ todo := by
    rw [h.waiting, htodo, List.append_assoc, List.singleton_append]
  have hconverse := cooler.converse_concat handled frame
  rw [← h.state] at hconverse
  have hserving := h.serving
  simp only [step, htodo, hserving] at hstep
  cases hhandle : x.cooler.handle frame with
  | mk answer next =>
    rw [hhandle] at hstep hstocked hreply hconverse
    cases answer with
    | none =>
      rw [← Option.some.inj hstep]
      refine ⟨rfl, h.sent, h.decodes, hwaiting, ?_, hstocked, ?_, h.session, h.events⟩
      · rw [hconverse]
      · rw [hconverse]
        dsimp only
        rw [Option.toList_none, List.append_nil]
        exact h.answered
    | some answer =>
      obtain ⟨raw, hline, -⟩ := (hreply answer rfl).1.exists_line
      simp only [hline] at hstep
      rw [← Option.some.inj hstep]
      refine ⟨rfl, h.sent, h.decodes, hwaiting, ?_, hstocked, ?_, h.session, h.events⟩
      · rw [hconverse]
      · rw [hconverse]
        have hanswered := h.answered.append (carries_line hline)
        rw [List.append_assoc] at hanswered
        exact hanswered

/-- The thread of `_serve` does the same whatever the client has sent and read before. -/
theorem step_cooler {act : Act} (hact : act = .answer ∨ ∃ n, act = .serve n) (session : Session)
    (sent : List Frame) (events : List Event) :
    step { x with session, sent, events } act
      = (x.step act).map fun y => { y with session, sent, events } := by
  rcases hact with rfl | ⟨n, rfl⟩
  · cases hserving : x.serving with
    | false => simp only [step, hserving, Option.map_none]
    | true =>
      cases htodo : x.todo with
      | nil => simp only [step, hserving, htodo, Option.map_none]
      | cons frame todo =>
        simp only [step, hserving, htodo]
        cases x.cooler.handle frame with
        | mk answer next =>
          cases answer with
          | none => rfl
          | some answer =>
            dsimp only
            cases answer.encodeLine with
            | ok line => rfl
            | error e => rfl
  · simp only [step, LineDecoder.feed_eq]
    by_cases hguard : x.serving = true ∧ x.todo.isEmpty = true ∧ 0 < n ∧ n ≤ x.up.length
    · rw [if_pos hguard, if_pos hguard]
      rfl
    · rw [if_neg hguard, if_neg hguard]
      rfl

/-- An answer takes no bytes. -/
theorem up_answer (hstep : x.step .answer = some x') : x'.up = x.up := by
  rw [step] at hstep
  split at hstep
  · split at hstep
    · exact Option.some.inj hstep ▸ rfl
    · split at hstep
      · exact Option.some.inj hstep ▸ rfl
      · exact Option.some.inj hstep ▸ rfl
  · cases hstep

/-- What holds of an exchange at any time. -/
def Talks (start : Session) (cooler : FakeCooler) (x : Exchange) : Prop :=
  ∃ handled up down, Conversing start cooler handled up down x

theorem Talks.step (h : Talks start cooler x) {act : Act} (hstep : x.step act = some x') :
    Talks start cooler x' := by
  obtain ⟨handled, up, down, h⟩ := h
  cases act with
  | send frame =>
    rw [Exchange.step] at hstep
    split at hstep
    · rename_i hline
      exact Option.some.inj hstep ▸ ⟨_, _, _, h.send hline⟩
    · exact Option.some.inj hstep ▸ ⟨_, _, _, h⟩
  | serve n =>
    rw [Exchange.step, Option.ite_none_right_eq_some, LineDecoder.feed_eq] at hstep
    obtain ⟨⟨-, htodo, -⟩, hstep⟩ := hstep
    exact Option.some.inj hstep ▸ ⟨_, _, _, h.serve (List.isEmpty_iff.mp htodo) n⟩
  | answer =>
    cases htodo : x.todo with
    | nil =>
      simp [Exchange.step, htodo] at hstep
    | cons frame todo => exact ⟨_, _, _, h.answer htodo hstep⟩
  | read n =>
    rw [Exchange.step, Option.ite_none_right_eq_some] at hstep
    obtain ⟨-, hstep⟩ := hstep
    split at hstep
    · rename_i hfeed
      exact Option.some.inj hstep ▸ ⟨_, _, _, h.read n hfeed⟩
    · exact nomatch hstep

theorem talks_of_run {recorded : List Bytes} {refuse : List Address}
    (hcooler : FakeCooler.create recorded refuse = .ok cooler) {tps : List Topic} {acts : List Act}
    (hrun : Machine.run step { session := { topics := tps }, cooler } acts = some x) :
    Talks { topics := tps } cooler x :=
  Machine.run_preserves (fun _ _ _ h hstep => Talks.step h hstep) hrun
    ⟨[], [], [], rfl, carries_nil, decodes_nil, rfl, rfl, FakeCooler.stocked_create hcooler,
      carries_nil, ⟨{}, decodes_nil, rfl⟩, rfl⟩

/-- When no frame is on its way, everything sent has been handled. -/
theorem Conversing.sent_eq (h : Conversing start cooler handled up down x) (hup : x.up = [])
    (htodo : x.todo = []) : x.sent = handled := by
  have hsent := h.sent
  have hwaiting := h.waiting
  rw [hup, List.append_nil] at hsent
  rw [htodo, List.append_nil] at hwaiting
  exact hsent.reference.1.symm.trans hwaiting

/-- When nothing is on its way, every answer has been read as well. -/
theorem Conversing.of_quiet (h : Conversing start cooler handled up down x) (hquiet : x.Quiet) :
    x.sent = handled ∧ (reference down).frames = (cooler.converse handled).2 := by
  obtain ⟨hup, htodo, hdown⟩ := hquiet
  have hanswered := h.answered
  rw [hdown, List.append_nil] at hanswered
  exact ⟨h.sent_eq hup htodo, hanswered.reference.1⟩

/-- However the two streams are cut and the steps interleaved, an exchange is the conversation of
the cooler with the frames sent, in the order sent: the cooler is the one that has handled the
first of them one after another, and the session has read the first of its answers. Nothing is
dropped on either side, and nothing is left out once nothing is on its way. -/
theorem exchange_converse {recorded : List Bytes} {refuse : List Address}
    (hcooler : FakeCooler.create recorded refuse = .ok cooler) {tps : List Topic} {acts : List Act}
    (hrun : Machine.run step { session := { topics := tps }, cooler } acts = some x) :
    ∃ handled waiting read flying,
      x.sent = handled ++ waiting ∧ x.cooler = (cooler.converse handled).1
      ∧ (cooler.converse handled).2 = read ++ flying ∧ x.events = read.map eventOf
      ∧ (∃ d, x.session = { topics := tps, decoder := d : Session }.afterFrames read
        ∧ d.dropped = 0)
      ∧ x.decoder.dropped = 0 ∧ x.serving = true ∧ (x.Quiet → waiting = [] ∧ flying = []) := by
  obtain ⟨handled, up, down, h⟩ := talks_of_run hcooler hrun
  obtain ⟨⟨unread, hsent⟩, hdropped⟩ := h.sent.reference_prefix (List.prefix_append up x.up)
  obtain ⟨⟨flying, hread⟩, hlost⟩ := h.answered.reference_prefix (List.prefix_append down x.down)
  obtain ⟨d, hd, hsession⟩ := h.session
  refine ⟨handled, x.todo ++ unread, (reference down).frames, flying, ?_, h.state, hread.symm,
    h.events, ⟨d, hsession, hd.dropped.trans hlost⟩, h.decodes.dropped.trans hdropped, h.serving,
    ?_⟩
  · rw [← List.append_assoc, ← h.waiting, hsent]
  · intro hquiet
    obtain ⟨hhandled, hanswers⟩ := h.of_quiet hquiet
    have hwaiting : handled ++ (x.todo ++ unread) = handled ++ [] := by
      rw [← List.append_assoc, ← h.waiting, hsent, hhandled, List.append_nil]
    have hflying : (reference down).frames ++ flying = (reference down).frames ++ [] := by
      rw [hread, hanswers, List.append_nil]
    exact ⟨List.append_cancel_left hwaiting, List.append_cancel_left hflying⟩

/-- A cooler with one recorded line: it is on. -/
def poweredOn : FakeCooler :=
  { publishes := Dict.empty.set (mccc 0x0B)
      { action := Action.PUBLISH.value, address := mccc 0x0B, payload := [1, 0, 0, 0] } }

theorem create_poweredOn :
    FakeCooler.create [[0x10, 0x0B, 0, 0, 0x1A, 1, 0, 0, 0]] [] = .ok poweredOn := rfl

/-- The client subscribes to it, with both lines cut in two. -/
def subscribes : List Act :=
  [.send { action := Action.SUBSCRIBE.value, address := mccc 0x0B }, .serve 3, .serve 6, .answer,
    .read 5, .read 8]

theorem exchange_converse_subscribes :
    ∃ x, Machine.run step { session := {}, cooler := poweredOn } subscribes = some x
      ∧ x.events = (poweredOn.converse x.sent).2.map eventOf := by
  have hquiet : (Machine.run step { session := {}, cooler := poweredOn } subscribes).map
      (fun x => (x.up, x.todo, x.down)) = some ([], [], []) := rfl
  obtain ⟨x, hrun, hx⟩ := Option.map_eq_some_iff.mp hquiet
  simp only [Prod.mk.injEq] at hx
  obtain ⟨handled, waiting, read, flying, hsent, -, hanswers, hevents, -, -, -, hnothing⟩ :=
    exchange_converse create_poweredOn hrun
  obtain ⟨rfl, rfl⟩ := hnothing hx
  rw [List.append_nil] at hsent hanswers
  exact ⟨x, hrun, by rw [hevents, hsent, hanswers]⟩

/-- Once nothing is on its way, the session holds what the cooler keeps for every address that was
subscribed to, or written without a refusal, and nothing for any other address. -/
theorem mirrors_of_quiet {recorded : List Bytes} {refuse : List Address}
    (hcooler : FakeCooler.create recorded refuse = .ok cooler)
    (hrecorded : ∀ raw ∈ recorded, ∀ frame, Frame.decode raw = .ok frame → frame.IsPublish)
    {tps : List Topic} {acts : List Act}
    (hrun : Machine.run step { session := { topics := tps }, cooler } acts = some x)
    (hquiet : x.Quiet) :
    (∀ a, x.session.raw.get? a
        = if ∃ frame ∈ x.sent, FakeCooler.Tells refuse a frame then
            (x.cooler.publishes.get? a).map Frame.payload
          else none)
      ∧ ∀ t ∈ topics, x.session.values.get? t.name
        = if ∃ frame ∈ x.sent, FakeCooler.Tells refuse t.address frame then
            (x.cooler.publishes.get? t.address).map fun frame => t.stored frame.payload
          else none := by
  obtain ⟨handled, up, down, h⟩ := talks_of_run hcooler hrun
  obtain ⟨hsent, hanswers⟩ := h.of_quiet hquiet
  obtain ⟨d, -, hsession⟩ := h.session
  have hlast := ((FakeCooler.publishing_create hcooler hrecorded).converse handled).2
  rw [FakeCooler.refuse_create hcooler, ← h.state] at hlast
  rw [hsession, hanswers, hsent]
  refine ⟨fun a => ?_, fun t ht => ?_⟩
  · rw [Session.raw_afterFrames, Dict.get?_empty, Option.or_none]
    exact hlast a
  · rw [Session.values_afterFrames _ _ ht, Dict.get?_empty, Option.or_none, hlast]
    split
    · rw [Option.map_map]
      rfl
    · rfl

theorem mirrors_of_quiet_subscribes :
    ∃ x, Machine.run step { session := {}, cooler := poweredOn } subscribes = some x
      ∧ x.session.raw.get? (mccc 0x0B)
        = (x.cooler.publishes.get? (mccc 0x0B)).map Frame.payload := by
  have hquiet : (Machine.run step { session := {}, cooler := poweredOn } subscribes).map
      (fun x => (x.up, x.todo, x.down)) = some ([], [], []) := rfl
  have hsent : (Machine.run step { session := {}, cooler := poweredOn } subscribes).map sent
      = some [{ action := Action.SUBSCRIBE.value, address := mccc 0x0B }] := rfl
  obtain ⟨x, hrun, hx⟩ := Option.map_eq_some_iff.mp hquiet
  simp only [Prod.mk.injEq] at hx
  rw [hrun, Option.map_some, Option.some_inj] at hsent
  have hrecorded : ∀ raw ∈ [([0x10, 0x0B, 0, 0, 0x1A, 1, 0, 0, 0] : Bytes)], ∀ frame,
      Frame.decode raw = .ok frame → frame.IsPublish := by
    intro raw hraw frame hframe
    rw [List.mem_singleton.mp hraw, Frame.decode_cons] at hframe
    rw [← Except.ok.inj hframe]
    rfl
  refine ⟨x, hrun, ((mirrors_of_quiet create_poweredOn hrecorded hrun hx).1 _).trans (if_pos ?_)⟩
  rw [hsent]
  exact ⟨_, List.mem_cons_self, rfl, .inl rfl⟩

/-! ## Coming to rest -/

/-- Without another send, the one exchange comes to be the other. -/
def Settles (x x' : Exchange) : Prop :=
  ∃ acts, Machine.run step x acts = some x' ∧ ∀ act ∈ acts, ∀ frame, act ≠ .send frame

theorem Settles.refl (x : Exchange) : x.Settles x :=
  ⟨[], rfl, fun _ hact => absurd hact List.not_mem_nil⟩

theorem Settles.head {y : Exchange} {act : Act} (hstep : x.step act = some y)
    (hact : ∀ frame, act ≠ .send frame) (h : y.Settles x') : x.Settles x' := by
  obtain ⟨acts, hrun, hacts⟩ := h
  exact ⟨act :: acts, (Machine.run_cons_some step).mpr ⟨y, hstep, hrun⟩,
    List.forall_mem_cons.mpr ⟨hact, hacts⟩⟩

theorem Settles.trans {y : Exchange} (h : x.Settles y) (h' : y.Settles x') : x.Settles x' := by
  obtain ⟨acts, hrun, hacts⟩ := h
  obtain ⟨acts', hrun', hacts'⟩ := h'
  refine ⟨acts ++ acts', ?_, List.forall_mem_append.mpr ⟨hacts, hacts'⟩⟩
  rw [Machine.run_append, hrun, Option.bind_some, hrun']

/-- The thread of `_serve` handles all frames of its chunk. -/
theorem Talks.answers (h : Talks start cooler x) :
    ∃ x', x.Settles x' ∧ Talks start cooler x' ∧ x'.todo = [] ∧ x'.up = x.up := by
  generalize htodo : x.todo = todo
  induction todo generalizing x with
  | nil => exact ⟨x, .refl x, h, htodo, rfl⟩
  | cons frame todo ih =>
    obtain ⟨y, hstep, htodo', hup⟩ : ∃ y, x.step .answer = some y ∧ y.todo = todo
        ∧ y.up = x.up := by
      obtain ⟨handled, up, down, hconversing⟩ := h
      have hserving := hconversing.serving
      simp only [Exchange.step, htodo, hserving]
      split
      · exact ⟨_, rfl, rfl, rfl⟩
      · split
        · exact ⟨_, rfl, rfl, rfl⟩
        · exact ⟨_, rfl, rfl, rfl⟩
    obtain ⟨x', hsettles, h', hnil, hup'⟩ := ih (h.step hstep) htodo'
    exact ⟨x', hsettles.head hstep (fun _ => nofun), h', hnil, hup'.trans hup⟩

/-- It receives everything that is on its way, and handles it. -/
theorem Talks.serves (h : Talks start cooler x) :
    ∃ x', x.Settles x' ∧ Talks start cooler x' ∧ x'.todo = [] ∧ x'.up = [] := by
  obtain ⟨y, hsettles, hy, htodo, -⟩ := h.answers
  by_cases hup : y.up = []
  · exact ⟨y, hsettles, hy, htodo, hup⟩
  · obtain ⟨z, hstep, hup'⟩ : ∃ z, y.step (.serve y.up.length) = some z ∧ z.up = [] := by
      obtain ⟨handled, up, down, hconversing⟩ := hy
      have hguard : y.serving = true ∧ y.todo.isEmpty = true ∧ 0 < y.up.length
          ∧ y.up.length ≤ y.up.length :=
        ⟨hconversing.serving, List.isEmpty_iff.mpr htodo, List.length_pos_iff.mpr hup, le_refl _⟩
      rw [Exchange.step, if_pos hguard, LineDecoder.feed_eq]
      exact ⟨_, rfl, List.drop_length⟩
    obtain ⟨x', hsettles', h', htodo', hup''⟩ := (hy.step hstep).answers
    exact ⟨x', hsettles.trans (hsettles'.head hstep (fun _ => nofun)), h', htodo',
      hup''.trans hup'⟩

/-- Then the client receives everything. -/
theorem Talks.settles (h : Talks start cooler x) : ∃ x', x.Settles x' ∧ x'.Quiet := by
  obtain ⟨y, hsettles, -, htodo, hup⟩ := h.serves
  by_cases hdown : y.down = []
  · exact ⟨y, hsettles, hup, htodo, hdown⟩
  · have hguard : 0 < y.down.length ∧ y.down.length ≤ y.down.length :=
      ⟨List.length_pos_iff.mpr hdown, le_refl _⟩
    obtain ⟨z, hstep, hz⟩ : ∃ z, y.step (.read y.down.length) = some z ∧ z.Quiet := by
      rw [Exchange.step, if_pos hguard, Session.feed_eq]
      exact ⟨_, rfl, hup, htodo, List.drop_length⟩
    exact ⟨z, hsettles.trans ((Settles.refl z).head hstep (fun _ => nofun)), hz⟩

/-- From every state that an exchange reaches it can come to rest without another send. -/
theorem exists_quiet {recorded : List Bytes} {refuse : List Address}
    (hcooler : FakeCooler.create recorded refuse = .ok cooler) {tps : List Topic} {acts : List Act}
    (hrun : Machine.run step { session := { topics := tps }, cooler } acts = some x) :
    ∃ acts' x', Machine.run step x acts' = some x' ∧ (∀ act ∈ acts', ∀ frame, act ≠ .send frame)
      ∧ x'.Quiet := by
  obtain ⟨x', ⟨acts', hrun', hacts'⟩, hx'⟩ := (talks_of_run hcooler hrun).settles
  exact ⟨acts', x', hrun', hacts', hx'⟩

/-- A client that has only sent its SUBSCRIBE. -/
theorem exists_quiet_sent :
    ∃ x, Machine.run step { session := {}, cooler := poweredOn }
        [.send { action := Action.SUBSCRIBE.value, address := mccc 0x0B }] = some x
      ∧ ∃ acts' x', Machine.run step x acts' = some x'
        ∧ (∀ act ∈ acts', ∀ frame, act ≠ .send frame) ∧ x'.Quiet := by
  have hsome : (Machine.run step { session := {}, cooler := poweredOn }
      [.send { action := Action.SUBSCRIBE.value, address := mccc 0x0B }]).isSome := rfl
  obtain ⟨x, hrun⟩ := Option.isSome_iff_exists.mp hsome
  exact ⟨x, hrun, exists_quiet create_poweredOn hrun⟩

/-! ## A write -/

/-- The publish that echoes a SET. -/
def echoOf (frame : Frame) : Frame :=
  { action := Action.PUBLISH.value, address := frame.address, payload := frame.payload }

/-- The NAK that refuses it. -/
def nakOf (frame : Frame) : Frame := { action := Action.NAK.value, address := frame.address }

theorem topics_fit : ∀ t ∈ topics, ∀ n ∈ t.address.toList, 0 ≤ n ∧ n < 256 := by decide

/-- The SET of a registered topic fits, and the cooler's echo of it confirms the write. -/
theorem echo_of_setFrame {s : Session} (hs : s.Coherent) {ref : TopicRef} (href : ref.Registered)
    {value : Value} {compartment : Option ℤ} {frame : Frame} {expectation : WriteExpectation}
    (h : s.setFrame ref value compartment = .ok (frame, expectation)) :
    frame.Fits ∧ frame.action = Action.SET.value ∧ frame.address = expectation.topic.address
      ∧ ∀ observed, ({ expectation with observed }.matches (eventOf (echoOf frame))).1
        = some true := by
  obtain ⟨t, hwritable, payload, expected, hw, rfl, rfl⟩ := Session.setFrame_eq_ok.mp h
  obtain ⟨hresolve, hname⟩ := assertWritable_eq_ok.mp hwritable
  have ht : t.Registered := href.topic hresolve
  have hfits : ∀ n ∈ t.address.toList, 0 ≤ n ∧ n < 256 := by
    obtain ⟨u, hu, huaddr, -⟩ := ht.byAddress
    exact huaddr ▸ topics_fit u hu
  refine ⟨⟨Action.fits .SET, hfits⟩, rfl, rfl, fun observed => ?_⟩
  refine (matches_eventOf ht _).mpr ⟨rfl, rfl, ?_⟩
  cases hper : t.perCompartment with
  | true =>
    obtain ⟨u, hu, huname, huper, hucodec⟩ := ht.byName hper
    have hclose := (hw.congr huname hucodec (huper.trans hper.symm)).close_stored hs hu
      (huname ▸ hname)
    rwa [Topic.stored, Session.tolerance, hucodec] at hclose
  | false =>
    cases hw with
    | array harray => exact absurd (hper.symm.trans harray) (by decide)
    | scalar _ _ _ _ hdecode =>
      show close (t.stored payload) expected (Session.tolerance t) = true
      rw [t.stored_of_decode hdecode]
      exact (Codec.decoded_of_decode hdecode).selfClose _ (Session.tolerance_nonneg t)

/-- Frames that were sent stay sent. -/
theorem sent_of_run {acts : List Act} (hrun : Machine.run step x acts = some x') :
    x.sent <+: x'.sent := by
  refine Machine.run_preserves (I := fun y => x.sent <+: y.sent) (fun y act y' h hstep => ?_) hrun
    (List.prefix_refl x.sent)
  cases act with
  | send frame =>
    rw [step] at hstep
    split at hstep
    · rw [← Option.some.inj hstep]
      exact h.trans (List.prefix_append y.sent [frame])
    · exact Option.some.inj hstep ▸ h
  | serve n =>
    rw [step, Option.ite_none_right_eq_some, LineDecoder.feed_eq] at hstep
    exact Option.some.inj hstep.2 ▸ h
  | answer =>
    rw [step] at hstep
    split at hstep
    · split at hstep
      · exact Option.some.inj hstep ▸ h
      · split at hstep
        · exact Option.some.inj hstep ▸ h
        · exact Option.some.inj hstep ▸ h
    · exact nomatch hstep
  | read n =>
    rw [step, Option.ite_none_right_eq_some, Session.feed_eq] at hstep
    exact Option.some.inj hstep.2 ▸ h

/-- The answer to a SET is its echo or a NAK, and comes behind the answers to what was sent
before. -/
theorem answer_of_set {frame : Frame} (hset : frame.action = Action.SET.value)
    (c : FakeCooler) (before after : List Frame) :
    (c.converse (before ++ frame :: after)).2[(c.converse before).2.length]?
      = some (if frame.address ∈ c.refuse then nakOf frame else echoOf frame) := by
  have hsubscribe : ¬ frame.action = Action.SUBSCRIBE.value := by rw [hset]; decide
  have hrefuse := c.refuse_converse before
  have hanswer : ((c.converse before).1.handle frame).1
      = some (if frame.address ∈ c.refuse then nakOf frame else echoOf frame) := by
    rw [FakeCooler.handle, FakeCooler.reply, if_neg hsubscribe, if_pos hset]
    dsimp only
    rw [hrefuse]
    split <;> rfl
  rw [FakeCooler.converse_append, List.getElem?_append_right (le_refl _), Nat.sub_self,
    FakeCooler.converse]
  dsimp only
  rw [hanswer]
  rfl

/-- What is handled was sent. -/
theorem Conversing.handled_isPrefix (h : Conversing start cooler handled up down x) :
    handled <+: x.sent := by
  have hfirst := (h.sent.reference_prefix (List.prefix_append up x.up)).1
  rw [h.waiting] at hfirst
  exact (List.prefix_append handled x.todo).trans hfirst

/-- What is read are answers. -/
theorem Conversing.read_isPrefix (h : Conversing start cooler handled up down x) :
    (reference down).frames <+: (cooler.converse handled).2 :=
  (h.answered.reference_prefix (List.prefix_append down x.down)).1

/-- There are no more events than answers to what was sent. -/
theorem Talks.length_events_le (h : Talks start cooler x) :
    x.events.length ≤ (cooler.converse x.sent).2.length := by
  obtain ⟨handled, up, down, h⟩ := h
  obtain ⟨waiting, hwaiting⟩ := h.handled_isPrefix
  have hread := h.read_isPrefix.length_le
  rw [h.events, List.length_map, ← hwaiting, FakeCooler.converse_append, List.length_append]
  omega

/-- The session of an exchange is coherent. -/
theorem Talks.coherent {tps : List Topic} (h : Talks { topics := tps } cooler x) :
    x.session.Coherent := by
  obtain ⟨handled, up, down, h⟩ := h
  obtain ⟨d, -, hsession⟩ := h.session
  rw [hsession]
  exact (Session.coherent_of_empty rfl rfl).afterFrames _

/-- The answer to a SET is the verdict on its write. -/
theorem matches_answer {e : WriteExpectation} {frame : Frame}
    (haddr : frame.address = e.topic.address)
    (hecho : ∀ observed, ({ e with observed }.matches (eventOf (echoOf frame))).1 = some true)
    (refused : Prop) [Decidable refused] (observed : Value) :
    ({ e with observed }.matches (eventOf (if refused then nakOf frame else echoOf frame))).1
      = some (decide ¬ refused) := by
  by_cases hrefused : refused
  · have hnak : eventOf (nakOf frame) = .nak frame.address [] := rfl
    rw [if_pos hrefused, decide_eq_false (not_not.mpr hrefused), hnak, WriteExpectation.matches]
    exact if_pos haddr
  · rw [if_neg hrefused, decide_eq_true hrefused]
    exact hecho observed

/-- A write in the middle of any exchange is answered: once nothing is on its way, the events that
the client has read since then have one that confirms it, or, if the cooler refuses the address,
one that says so. -/
theorem write_answered {recorded : List Bytes} {refuse : List Address}
    (hcooler : FakeCooler.create recorded refuse = .ok cooler) {tps : List Topic}
    {acts acts' : List Act}
    (hbefore : Machine.run step { session := { topics := tps }, cooler } acts = some x)
    {ref : TopicRef} (href : ref.Registered) {value : Value} {compartment : Option ℤ}
    {frame : Frame} {expectation : WriteExpectation}
    (hset : x.session.setFrame ref value compartment = .ok (frame, expectation))
    (hafter : Machine.run step x (.send frame :: acts') = some x') (hquiet : x'.Quiet) :
    ∃ (k : ℕ) (event : Event), x.events.length ≤ k ∧ x'.events[k]? = some event
      ∧ ∀ observed, ({ expectation with observed }.matches event).1
        = some (decide (frame.address ∉ refuse)) := by
  have htalks := talks_of_run hcooler hbefore
  have hrun : Machine.run step { session := { topics := tps }, cooler }
      (acts ++ .send frame :: acts') = some x' := by
    rw [Machine.run_append, hbefore, Option.bind_some, hafter]
  obtain ⟨handled', up', down', h'⟩ := talks_of_run hcooler hrun
  obtain ⟨hsent', hanswers'⟩ := h'.of_quiet hquiet
  obtain ⟨hfits, haction, haddr, hecho⟩ := echo_of_setFrame htalks.coherent href hset
  -- the frame is behind those sent before
  obtain ⟨after, hafter'⟩ : x.sent ++ [frame] <+: x'.sent := by
    obtain ⟨raw, hline, -⟩ := hfits.exists_line
    obtain ⟨y, hsend, hrest⟩ := (Machine.run_cons_some step).mp hafter
    rw [step, hline, Option.some_inj] at hsend
    have hfirst := sent_of_run hrest
    rwa [← hsend] at hfirst
  rw [List.append_assoc, List.singleton_append] at hafter'
  have hanswer := answer_of_set haction cooler x.sent after
  rw [hafter', hsent', ← hanswers', FakeCooler.refuse_create hcooler] at hanswer
  refine ⟨(cooler.converse x.sent).2.length,
    eventOf (if frame.address ∈ refuse then nakOf frame else echoOf frame),
    htalks.length_events_le, ?_, matches_answer haddr hecho _⟩
  rw [h'.events, List.getElem?_map, hanswer]
  rfl

/-- The cooler is switched off, and the echo confirms it. -/
theorem write_answered_switchOff :
    ∃ x x' frame expectation, Machine.run step { session := {}, cooler := poweredOn } subscribes
        = some x
      ∧ x.session.setFrame (.name "coolerpow") (.bool false) none = .ok (frame, expectation)
      ∧ Machine.run step x [.send frame, .serve 13, .answer, .read 13] = some x'
      ∧ ∃ (k : ℕ) (event : Event), x.events.length ≤ k ∧ x'.events[k]? = some event
        ∧ (expectation.matches event).1 = some true := by
  have hall : ((Machine.run step { session := {}, cooler := poweredOn } subscribes).bind fun x =>
      (x.session.setFrame (.name "coolerpow") (.bool false) none).toOption.bind fun written =>
        (Machine.run step x [.send written.1, .serve 13, .answer, .read 13]).map
          fun x' => (x'.up, x'.todo, x'.down)) = some ([], [], []) := rfl
  obtain ⟨x, hbefore, hrest⟩ := Option.bind_eq_some_iff.mp hall
  obtain ⟨⟨frame, expectation⟩, hset, hrest⟩ := Option.bind_eq_some_iff.mp hrest
  obtain ⟨x', hafter, hquiet⟩ := Option.map_eq_some_iff.mp hrest
  simp only [Prod.mk.injEq] at hquiet
  have hframe := eq_ok_of_toOption hset
  have href : TopicRef.Registered (.name "coolerpow") := trivial
  obtain ⟨k, event, hk, hevent, hmatches⟩ :=
    write_answered create_poweredOn hbefore href hframe hafter hquiet
  exact ⟨x, x', frame, expectation, hbefore, hframe, hafter, k, event, hk, hevent,
    hmatches expectation.observed⟩

end Exchange

end Ddmp
