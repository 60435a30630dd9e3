import Ddmp.Cli.WriteCommand
import Ddmp.Session.ConfirmTheorems
import Ddmp.Session.PublishTheorems

/-!
# The verdict of the write command

The polling loop looks at the clock before it drains the list of events, so what is recorded while
it sleeps for the last time is not looked at. `verdict_sound_iff` says that this is the only way
in which an answer is missed.
-/

namespace Ddmp

open Lib LittleEndian

/-- What the thread has drained and not yet checked, from the clear on. -/
def Writing.pending? : Writing → Option (List Stamped)
  | .cleared _ | .sent | .testing | .draining | .sleeping _ => some []
  | .checking pending => some pending
  | _ => none

namespace WriteCommand

variable {s s' : WriteCommand}

/-! ## Answers -/

/-- What `matches` says of an event. -/
def verdict (s : WriteCommand) (e : Event) : Option Bool :=
  s.expectation.bind fun x => (x.matches e).1

/-- A PUBLISH that confirms the write. -/
def Confirms (s : WriteCommand) (e : Event) : Prop :=
  ∃ x topic value raw, s.expectation = some x ∧ e = .publish x.topic.address topic value raw
    ∧ close value x.expected x.tolerance = true

/-- A NAK for the topic of the write. -/
def Refuses (s : WriteCommand) (e : Event) : Prop :=
  ∃ x raw, s.expectation = some x ∧ e = .nak x.topic.address raw

/-- An answer confirms or refuses the write. -/
theorem answer_of_verdict {e : Event} {b : Bool} (h : s.verdict e = some b) :
    b = true ∧ s.Confirms e ∨ b = false ∧ s.Refuses e := by
  obtain ⟨x, hx, hmatches⟩ := Option.bind_eq_some_iff.mp h
  rcases x.answer_of_matches hmatches with ⟨hb, topic, value, raw, he, hclose⟩ | ⟨hb, raw, he⟩
  · exact .inl ⟨hb, x, topic, value, raw, hx, he, hclose⟩
  · exact .inr ⟨hb, x, raw, hx, he⟩

theorem confirms_of_verdict {e : Event} (h : s.verdict e = some true) : s.Confirms e := by
  rcases answer_of_verdict h with ⟨-, hconfirms⟩ | ⟨hfalse, -⟩
  · exact hconfirms
  · cases hfalse

theorem refuses_of_verdict {e : Event} (h : s.verdict e = some false) : s.Refuses e := by
  rcases answer_of_verdict h with ⟨htrue, -⟩ | ⟨-, hrefuses⟩
  · cases htrue
  · exact hrefuses

/-- The first event since the clear that is an answer. -/
def firstAnswer (s : WriteCommand) : Option Stamped :=
  s.recorded.find? fun r => (s.verdict r.2).isSome

/-- A code that is returned is right: 0 and 3 about the first answer, 4 about all events that were
recorded before the deadline. -/
structure Sound (s : WriteCommand) : Prop where
  confirmed : s.main = .returned 0 → ∃ r, s.firstAnswer = some r ∧ s.Confirms r.2
  refused : s.main = .returned 3 → ∃ r, s.firstAnswer = some r ∧ s.Refuses r.2
  unanswered : s.main = .returned 4 →
    ∀ r ∈ s.recorded, r.1 < s.deadline → s.verdict r.2 = none

theorem sound_of_running (h : ∀ code, s.main ≠ .returned code) : s.Sound :=
  ⟨fun hmain => absurd hmain (h 0), fun hmain => absurd hmain (h 3),
    fun hmain => absurd hmain (h 4)⟩

/-! ## The invariant -/

/-- Everything recorded since the clear has been checked without an answer, or is drained, or is
still in the list. -/
structure Inv (s : WriteCommand) : Prop where
  checked : ∀ pending, s.main.pending? = some pending → ∃ done,
    s.recorded = done ++ (pending ++ s.events) ∧ ∀ r ∈ done, s.verdict r.2 = none
  sound : s.Sound
  late : s.main = .returned 4 → s.deadline ≤ s.clock

/-- When the test of the clock ends the loop, no answer from before the deadline is in the list. -/
def InTime (s : WriteCommand) (a : Act) : Prop :=
  a = .main .test → s.main = .testing → s.deadline ≤ s.clock →
    ∀ r ∈ s.events, r.1 < s.deadline → s.verdict r.2 = none

/-- The first answer stays the first when more is recorded. -/
theorem find?_record {P : Stamped → Bool} {l : List Stamped} {r x : Stamped}
    (h : l.find? P = some r) : (l ++ [x]).find? P = some r := by
  rw [List.find?_append, h]
  rfl

theorem Inv.record {e : Event} {unread : List Event} (hi : s.Inv) :
    Inv { s with
      unread
      events := s.events ++ [(s.clock, e)]
      recorded := s.recorded ++ [(s.clock, e)] } where
  checked pending hpending := by
    obtain ⟨done, hrecorded, hdone⟩ := hi.checked pending hpending
    refine ⟨done, ?_, hdone⟩
    dsimp only
    rw [hrecorded, List.append_assoc, List.append_assoc]
  sound :=
    { confirmed := fun hmain => (hi.sound.confirmed hmain).imp fun _ h => ⟨find?_record h.1, h.2⟩
      refused := fun hmain => (hi.sound.refused hmain).imp fun _ h => ⟨find?_record h.1, h.2⟩
      unanswered := fun hmain r hr hlt => by
        rcases List.mem_append.mp hr with hr | hr
        · exact hi.sound.unanswered hmain r hr hlt
        · -- recorded now, when the deadline has passed
          obtain rfl := List.mem_singleton.mp hr
          exact absurd hlt (not_lt.mpr (hi.late hmain)) }
  late := hi.late

theorem Inv.tick {dt : ℚ} (hi : s.Inv) (hdt : 0 ≤ dt) :
    Inv { s with clock := s.clock + dt } where
  checked := hi.checked
  sound := ⟨hi.sound.confirmed, hi.sound.refused, hi.sound.unanswered⟩
  late hmain := le_add_of_le_of_nonneg (hi.late hmain) hdt

/-- Checking one event keeps what every event is. -/
theorem verdict_check {x : WriteExpectation} (hx : s.expectation = some x) (e : Event)
    (main : Writing) (e' : Event) :
    verdict { s with expectation := some (x.matches e).2, main } e' = s.verdict e' := by
  rw [verdict, verdict, hx]
  exact x.matches_after e e'

/-- As long as nothing is returned, only what has been checked counts. -/
theorem inv_of_running (hmain : ∀ code, s.main ≠ .returned code)
    (hchecked : ∀ pending, s.main.pending? = some pending → ∃ done,
      s.recorded = done ++ (pending ++ s.events) ∧ ∀ r ∈ done, s.verdict r.2 = none) : s.Inv :=
  ⟨hchecked, sound_of_running hmain, fun h => absurd h (hmain 4)⟩

/-- Before the clear nothing counts. -/
theorem inv_of_none (hmain : s.main.pending? = none) (hcodes : ∀ code ∈ [0, 3, 4],
    s.main ≠ .returned code) : s.Inv where
  checked pending h := nomatch hmain.symm.trans h
  sound := ⟨fun h => absurd h (hcodes 0 (by decide)), fun h => absurd h (hcodes 3 (by decide)),
    fun h => absurd h (hcodes 4 (by decide))⟩
  late h := absurd h (hcodes 4 (by decide))

/-- The test of the clock ends the loop with 4, or not. -/
theorem Inv.test (hi : s.Inv) (hmain : s.main = .testing) (hC : s.InTime (.main .test)) :
    Inv { s with main := if s.clock < s.deadline then .draining else .returned 4 } := by
  obtain ⟨done, hrecorded, hdone⟩ := hi.checked [] (by rw [hmain]; rfl)
  split
  · exact inv_of_running nofun fun pending hpending =>
      ⟨done, by rw [← Option.some.inj hpending]; exact hrecorded, hdone⟩
  · rename_i hlate
    refine ⟨nofun, ⟨nofun, nofun, fun _ r hr hlt => ?_⟩, fun _ => not_lt.mp hlate⟩
    rw [hrecorded] at hr
    rcases List.mem_append.mp hr with hr | hr
    · exact hdone r hr
    · exact hC rfl hmain (not_lt.mp hlate) r hr hlt

/-- A test that ends the loop over an answer in time makes the code 4 wrong. -/
theorem Inv.not_sound_of_test (hi : s.Inv) {a : Act} (hC : ¬ s.InTime a) :
    ∃ s', s.step a = some s' ∧ ¬ s'.Sound := by
  simp only [InTime, Classical.not_imp, not_forall] at hC
  obtain ⟨rfl, hmain, hlate, r, hr, hlt, hanswer⟩ := hC
  obtain ⟨done, hrecorded, -⟩ := hi.checked [] (by rw [hmain]; rfl)
  refine ⟨{ s with main := .returned 4 }, ?_, fun hsound => ?_⟩
  · simp only [step, stepMain, hmain, if_neg (not_lt.mpr hlate)]
  · refine hanswer (hsound.unanswered rfl r ?_ hlt)
    show r ∈ s.recorded
    rw [hrecorded]
    exact List.mem_append_right _ hr

/-- One event of those drained is checked. -/
theorem Inv.check {x : WriteExpectation} {e : Stamped} {pending : List Stamped} (hi : s.Inv)
    (hmain : s.main = .checking (e :: pending)) (hx : s.expectation = some x) :
    Inv { s with
      expectation := some (x.matches e.2).2
      main := match (x.matches e.2).1 with
        | some true => .returned 0
        | some false => .returned 3
        | none => .checking pending } := by
  obtain ⟨done, hrecorded, hdone⟩ := hi.checked (e :: pending) (by rw [hmain]; rfl)
  have hverdict : s.verdict e.2 = (x.matches e.2).1 := by
    rw [verdict, hx, Option.bind_some]
  have hsame (main : Writing) := verdict_check hx e.2 main
  -- of what has been recorded, this event is the first that can be an answer
  have hfirst (hanswer : (s.verdict e.2).isSome) (main : Writing) :
      firstAnswer { s with expectation := some (x.matches e.2).2, main } = some e := by
    have hnone : done.find? (fun r => (s.verdict r.2).isSome) = none := by
      rw [List.find?_eq_none]
      intro r hr
      rw [hdone r hr]
      exact Bool.false_ne_true
    simp only [firstAnswer, hsame]
    rw [hrecorded, List.find?_append, hnone, List.cons_append, List.find?_cons, hanswer]
    rfl
  cases hm : (x.matches e.2).1 with
  | none =>
    refine inv_of_running nofun fun pending' hpending => ⟨done ++ [e], ?_, fun r hr => ?_⟩
    · obtain rfl := Option.some.inj hpending
      dsimp only
      rw [hrecorded, List.append_assoc, List.singleton_append, List.cons_append]
    · rw [hsame]
      rcases List.mem_append.mp hr with hr | hr
      · exact hdone r hr
      · rw [List.mem_singleton.mp hr, hverdict, hm]
  | some b =>
    have hanswer : (s.verdict e.2).isSome := by rw [hverdict, hm]; rfl
    cases b with
    | true =>
      refine ⟨nofun, ⟨fun _ => ⟨e, hfirst hanswer _, ?_⟩, nofun, nofun⟩, nofun⟩
      exact confirms_of_verdict ((hsame _ _).trans (hverdict.trans hm))
    | false =>
      refine ⟨nofun, ⟨nofun, fun _ => ⟨e, hfirst hanswer _, ?_⟩, nofun⟩, nofun⟩
      exact refuses_of_verdict ((hsame _ _).trans (hverdict.trans hm))

/-- The invariant speaks of what is recorded and of where the thread is: a step that neither
records nor checks anything keeps it. -/
theorem Inv.move (hi : s.Inv) (hmain : s.main.pending? = some [])
    (hmain' : s'.main.pending? = some []) (hrecorded : s'.recorded = s.recorded)
    (hevents : s'.events = s.events) (hexpectation : s'.expectation = s.expectation) : s'.Inv := by
  obtain ⟨done, hdone, hnone⟩ := hi.checked [] hmain
  refine inv_of_running (fun code hcode => ?_) fun pending hpending => ⟨done, ?_, fun r hr => ?_⟩
  · rw [hcode] at hmain'
    cases hmain'
  · obtain rfl := Option.some.inj (hmain'.symm.trans hpending)
    rw [hrecorded, hevents, hdone]
  · rw [verdict, hexpectation]
    exact hnone r hr

/-- The clear starts anew. -/
theorem inv_clear (s : WriteCommand) (frame : Frame) :
    Inv { s with main := .cleared frame, events := [], recorded := [] } := by
  refine inv_of_running nofun fun pending hpending => ⟨[], ?_, ?_⟩
  · obtain rfl := Option.some.inj hpending
    rfl
  · exact fun r hr => absurd hr List.not_mem_nil

/-- What is drained is still to be checked. -/
theorem Inv.drain (hi : s.Inv) (hmain : s.main = .draining) :
    Inv { s with main := .checking s.events, events := [] } := by
  obtain ⟨done, hrecorded, hdone⟩ := hi.checked [] (by rw [hmain]; rfl)
  refine inv_of_running nofun fun pending hpending => ⟨done, ?_, hdone⟩
  obtain rfl := Option.some.inj hpending
  dsimp only
  rw [hrecorded, List.append_nil, List.nil_append]

/-- A step of `_write` keeps the invariant, if it does not end the loop over an answer in time. -/
theorem Inv.stepMain (hi : s.Inv) {act : MainAct} (hC : s.InTime (.main act))
    (h : s.stepMain act = some s') : s'.Inv := by
  unfold WriteCommand.stepMain at h
  cases act with
  | setFrame =>
    dsimp only at h
    split at h
    · split at h
      · obtain rfl := Option.some.inj h
        exact inv_of_none rfl (by simp)
      · obtain rfl := Option.some.inj h
        cases s.args.yes <;> exact inv_of_none rfl (by simp)
    · cases h
  | clear =>
    dsimp only at h
    split at h
    · rename_i frame _
      obtain rfl := Option.some.inj h
      exact inv_clear s frame
    · cases h
  | send outcome =>
    dsimp only at h
    split at h
    · rename_i hmain
      split at h
      · obtain rfl := Option.some.inj h
        exact hi.move (by rw [hmain]; rfl) rfl rfl rfl rfl
      · obtain rfl := Option.some.inj h
        exact inv_of_none rfl (by simp)
    · cases h
  | setDeadline =>
    dsimp only at h
    split at h
    · rename_i hmain
      obtain rfl := Option.some.inj h
      exact hi.move (by rw [hmain]; rfl) rfl rfl rfl rfl
    · cases h
  | test =>
    dsimp only at h
    split at h
    · rename_i hmain
      obtain rfl := Option.some.inj h
      exact hi.test hmain hC
    · cases h
  | drain =>
    dsimp only at h
    split at h
    · rename_i hmain
      obtain rfl := Option.some.inj h
      exact hi.drain hmain
    · cases h
  | check =>
    dsimp only at h
    split at h
    · rename_i hmain
      obtain rfl := Option.some.inj h
      exact hi.move (by rw [hmain]; rfl) rfl rfl rfl rfl
    · rename_i hmain hexpectation
      obtain rfl := Option.some.inj h
      exact hi.check hmain hexpectation
    · cases h
  | wake =>
    dsimp only at h
    split at h
    · rename_i hmain
      split at h
      · obtain rfl := Option.some.inj h
        exact hi.move (by rw [hmain]; rfl) rfl rfl rfl rfl
      · cases h
    · cases h

/-- Every step keeps the invariant, if it does not end the loop over an answer in time. -/
theorem Inv.step (hi : s.Inv) {a : Act} (hC : s.InTime a) (h : s.step a = some s') : s'.Inv := by
  cases a with
  | main act => exact hi.stepMain hC h
  | feed chunk =>
    unfold WriteCommand.step at h
    dsimp only at h
    split at h
    · obtain rfl := Option.some.inj h
      exact ⟨hi.checked, ⟨hi.sound.confirmed, hi.sound.refused, hi.sound.unanswered⟩, hi.late⟩
    · cases h
  | record =>
    unfold WriteCommand.step at h
    dsimp only at h
    split at h
    · cases h
    · obtain rfl := Option.some.inj h
      exact hi.record
  | tick dt =>
    unfold WriteCommand.step at h
    dsimp only at h
    split at h
    · rename_i hdt
      obtain rfl := Option.some.inj h
      exact hi.tick hdt
    · cases h

theorem inv_start (args : WriteArgs) (client : SyncClient) (session : Session) (clock : ℚ) :
    (start args client session clock).Inv := inv_of_none rfl nofun

/-! ## The last sleep -/

/-- `ddmp set HOST coolerpow true --yes`. -/
def switchOn : WriteArgs where
  name := "coolerpow"
  value := .str "true"
  compartment := none
  echoTimeout := 10

/-- The line of the cooler that has been switched on. -/
def confirmation : Bytes := bytesLit "EAsAABoBAAAA\r"

/-- The loop sleeps from 9.95 s to 10.05 s, and the line comes in at 9.96 s. -/
def lastSleep : List Act :=
  [.main .setFrame, .main .clear, .main (.send .done), .main .setDeadline, .tick (199 / 20),
    .main .test, .main .drain, .main .check, .tick (1 / 100), .feed confirmation, .record,
    .tick (9 / 100), .main .wake, .main .test]

theorem setFrame_switchOn :
    Session.setFrame {} (.name "coolerpow") (.str "true") none
      = .ok ({ action := Action.SET.value, address := mccc 0x0B, payload := i32Bytes 1 },
        WriteExpectation.coolerOn) := by
  have hwritable : assertWritable (.name "coolerpow") = .ok WriteExpectation.coolerOn.topic := rfl
  have htolerance : Session.tolerance WriteExpectation.coolerOn.topic = 0 := by decide
  have hbool : Session.coerceBool (.str "true") = .ok true :=
    congrArg Except.ok (by decide +kernel)
  have hcoerce : Session.coerce WriteExpectation.coolerOn.topic (.str "true")
      = .ok (.bool true) := congrArg (Except.map Value.bool) hbool
  refine Session.setFrame_eq_ok.mpr ⟨WriteExpectation.coolerOn.topic, hwritable, i32Bytes 1,
    .bool true, .scalar rfl (.inl rfl) hcoerce rfl
      (BoolCodec.decode_i32Bytes (n := 1) (by decide)), rfl, ?_⟩
  rw [htolerance]
  rfl

/-- The event of `confirmation`. -/
def confirmed : Event :=
  .publish (mccc 0x0B) (some WriteExpectation.coolerOn.topic) (.bool true) [1, 0, 0, 0]

theorem feed_confirmation :
    ∃ session, Session.feed {} confirmation = .ok ([confirmed], session) := by
  have hframes : (reference confirmation).frames
      = [⟨Action.PUBLISH.value, mccc 0x0B, [1, 0, 0, 0]⟩] := by decide +kernel
  have hevent := eventOf_publish (t := WriteExpectation.coolerOn.topic) (by decide)
    (BoolCodec.decode_i32Bytes (n := 1) (by decide))
  rw [Session.feed_eq]
  show ∃ session, Except.ok ((reference confirmation).frames.map eventOf, _) = _
  rw [hframes]
  exact ⟨_, congrArg (fun e => Except.ok ([e], _)) hevent⟩

/-- What the run does with any line, and with any event that comes of it. -/
theorem run_lastSleep {client client' : SyncClient} {session session' : Session} {f : Frame}
    {x : WriteExpectation} {e : Event}
    (hset : session.setFrame (.name "coolerpow") (.str "true") none = .ok (f, x))
    (hsend : client.send f .done = (.ok (), client'))
    (hfeed : session.feed confirmation = .ok ([e], session')) :
    ∃ s', Machine.run WriteCommand.step (start switchOn client session 0) lastSleep = some s'
      ∧ s'.main = .returned 4 ∧ s'.deadline = 10 ∧ s'.recorded = [(249 / 25, e)]
      ∧ s'.expectation = some x := by
  norm_num [Machine.run_cons, lastSleep, WriteCommand.step, WriteCommand.stepMain, start,
    switchOn, hset, hsend]
  rw [hfeed]
  norm_num

/-- In every run, the codes that `_write` returns are right throughout exactly if no test of the
clock ends the loop while an answer that was recorded before the deadline is in the list. -/
theorem verdict_sound_iff (args : WriteArgs) (client : SyncClient) (session : Session) (clock : ℚ)
    (acts : List Act) :
    Machine.Always WriteCommand.step Sound (start args client session clock) acts
      ↔ Machine.Along WriteCommand.step InTime (start args client session clock) acts :=
  Machine.always_iff_along (fun _ hi => hi.sound) (fun _ _ _ hi hC hstep => hi.step hC hstep)
    (fun _ _ hi hC => hi.not_sound_of_test hC) (inv_start args client session clock)

/-- The cooler confirms in time, and the code is 4. -/
theorem unconfirmed_in_time :
    ∃ s', Machine.run WriteCommand.step
        (start switchOn { host := "cooler", sock := some [] } {} 0) lastSleep = some s'
      ∧ s'.main = .returned 4
      ∧ ∃ r ∈ s'.recorded, r.1 < s'.deadline ∧ s'.verdict r.2 = some true := by
  obtain ⟨session, hfeed⟩ := feed_confirmation
  obtain ⟨client', hsend⟩ : ∃ client', SyncClient.send { host := "cooler", sock := some [] }
      { action := Action.SET.value, address := mccc 0x0B, payload := i32Bytes 1 } .done
        = (.ok (), client') := ⟨_, rfl⟩
  obtain ⟨s', hrun, hmain, hdeadline, hrecorded, hexpectation⟩ :=
    run_lastSleep setFrame_switchOn hsend hfeed
  refine ⟨s', hrun, hmain, (249 / 25, confirmed), ?_, ?_, ?_⟩
  · rw [hrecorded]
    exact List.mem_singleton_self _
  · rw [hdeadline]
    norm_num
  · rw [verdict, hexpectation]
    rfl

end WriteCommand

end Ddmp
