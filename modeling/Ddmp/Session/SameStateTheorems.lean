import Ddmp.Session.HistoryTheorems

/-!
# What a session depends on

Two sessions with the same last publishes cannot be told apart (`indistinguishable`): the order in
which topics were published, what was published before, refusals, other frames and broken lines
make no difference, now or later.
-/

namespace Ddmp

theorem CoolerState.fromValues_congr {values values' : Lib.Dict String Value}
    (h : ∀ name, values.get? name = values'.get? name) :
    fromValues values = fromValues values' := by
  have hget : get values = get values' := by
    funext name
    rw [get, get, h]
  simp only [fromValues, hget]

namespace Session

/-- The two hold the same values. -/
def SameValues (s s' : Session) : Prop := ∀ name, s.values.get? name = s'.values.get? name

namespace SameValues

variable {s s' : Session}

theorem state (h : s.SameValues s') : s.state = s'.state := CoolerState.fromValues_congr h

theorem checkRange (h : s.SameValues s') (idx : ℕ) (setpoint : Value) :
    s.checkRange idx setpoint = s'.checkRange idx setpoint := by
  rw [Session.checkRange, Session.checkRange, h]

theorem setFrame (h : s.SameValues s') (ref : TopicRef) (value : Value)
    (compartment : Option ℤ) :
    s.setFrame ref value compartment = s'.setFrame ref value compartment := by
  simp only [Session.setFrame, h.checkRange, h _]

theorem afterFrames (h : s.SameValues s') (frames : List Frame) :
    (s.afterFrames frames).SameValues (s'.afterFrames frames) := by
  intro name
  rw [Session.afterFrames, Session.afterFrames, Lib.Dict.get?_replay, Lib.Dict.get?_replay, h name]

/-- With the same part of a line pending they hand out the same events. -/
theorem feedAll (h : s.SameValues s') (hbuf : s.decoder.buf = s'.decoder.buf)
    (htail : Lib.Lines.tail lineTerminator s.decoder.buf = s.decoder.buf) (chunks : List Bytes) :
    ∃ events t t', s.feedAll chunks = .ok (events, t) ∧ s'.feedAll chunks = .ok (events, t')
      ∧ t.SameValues t' := by
  have hall := feedAll_eq chunks s htail
  have hall' := feedAll_eq chunks s' (hbuf ▸ htail)
  rw [← hbuf] at hall'
  refine ⟨_, _, _, hall, hall', ?_⟩
  apply SameValues.afterFrames
  exact h

/-- Sessions that have received the same last publishes. -/
theorem of_lastPublish {tps : List Topic} {frames frames' : List Frame} {d d' : LineDecoder}
    (h : ∀ t ∈ Ddmp.topics, lastPublish t.address frames = lastPublish t.address frames') :
    SameValues ({ topics := tps, decoder := d : Session }.afterFrames frames)
      ({ topics := tps, decoder := d' : Session }.afterFrames frames') := by
  intro name
  by_cases hname : ∃ t ∈ Ddmp.topics, t.name = name
  · obtain ⟨t, ht, rfl⟩ := hname
    rw [values_afterFrames _ _ ht, values_afterFrames _ _ ht, h t ht]
  · have hunknown : ∀ t ∈ Ddmp.topics, t.name ≠ name := fun t ht heq => hname ⟨t, ht, heq⟩
    have hfirst := ((coherent_of_empty (s := { topics := tps, decoder := d }) rfl rfl).afterFrames
      frames).unknown name hunknown
    have hsecond := ((coherent_of_empty (s := { topics := tps, decoder := d' }) rfl rfl).afterFrames
      frames').unknown name hunknown
    rw [hfirst, hsecond]

end SameValues

/-- Two sessions that have read streams with the same last publish of every topic answer `value`,
`state` and `set_frame` in the same way; if the same part of a line is pending as well, they hand
out the same events from then on, and still answer in the same way. -/
theorem indistinguishable {tps : List Topic} {first second : List Bytes}
    {events events' : List Event} {s s' : Session}
    (hfirst : feedAll { topics := tps } first = .ok (events, s))
    (hsecond : feedAll { topics := tps } second = .ok (events', s'))
    (hlast : ∀ t ∈ Ddmp.topics, lastPublish t.address (reference first.flatten).frames
      = lastPublish t.address (reference second.flatten).frames) (more : List Bytes)
    (hpending : more = [] ∨ s.decoder.pending = s'.decoder.pending) :
    ∃ later t t', s.feedAll more = .ok (later, t) ∧ s'.feedAll more = .ok (later, t')
      ∧ (∀ name, t.values.get? name = t'.values.get? name) ∧ t.state = t'.state
      ∧ ∀ ref value compartment, t.setFrame ref value compartment
        = t'.setFrame ref value compartment := by
  rw [feedAll_eq first { topics := tps } rfl, Except.ok.injEq, Prod.mk.injEq] at hfirst
  rw [feedAll_eq second { topics := tps } rfl, Except.ok.injEq, Prod.mk.injEq] at hsecond
  have hsame : s.SameValues s' := by
    rw [← hfirst.2, ← hsecond.2]
    exact .of_lastPublish hlast
  rcases hpending with rfl | hpending
  · exact ⟨[], s, s', rfl, rfl, hsame, hsame.state, hsame.setFrame⟩
  · have htail : Lib.Lines.tail lineTerminator s.decoder.buf = s.decoder.buf := by
      rw [← hfirst.2]
      exact Lib.Lines.tail_tail lineTerminator _
    obtain ⟨later, t, t', hall, hall', hsame⟩ := hsame.feedAll hpending htail more
    exact ⟨later, t, t', hall, hall', hsame, hsame.state, hsame.setFrame⟩

/-- The cooler was off before, and has refused a write. -/
theorem indistinguishable_coolerOn :
    ∃ s s', feedAll {} [bytesLit "EAsAABoBAAAA\r"] = .ok s
      ∧ feedAll {} [bytesLit "EAsAABoAAAAA\rBQsAABo=\rEAsA", bytesLit "ABoBAAAA\r"] = .ok s'
      ∧ ∃ later t t', s.2.feedAll [bytesLit "EAsAABoAAAAA\r"] = .ok (later, t)
        ∧ s'.2.feedAll [bytesLit "EAsAABoAAAAA\r"] = .ok (later, t') ∧ t.state = t'.state := by
  have hfirst := feedAll_eq [bytesLit "EAsAABoBAAAA\r"] {} rfl
  have hsecond := feedAll_eq [bytesLit "EAsAABoAAAAA\rBQsAABo=\rEAsA", bytesLit "ABoBAAAA\r"] {} rfl
  have hlast : ∀ t ∈ Ddmp.topics,
      lastPublish t.address (reference [bytesLit "EAsAABoBAAAA\r"].flatten).frames
        = lastPublish t.address (reference [bytesLit "EAsAABoAAAAA\rBQsAABo=\rEAsA",
          bytesLit "ABoBAAAA\r"].flatten).frames := by
    have honce : (reference [bytesLit "EAsAABoBAAAA\r"].flatten).frames
        = [{ action := Action.PUBLISH.value, address := mccc 0x0B, payload := [1, 0, 0, 0] }] := rfl
    have hthrice : (reference [bytesLit "EAsAABoAAAAA\rBQsAABo=\rEAsA",
        bytesLit "ABoBAAAA\r"].flatten).frames
        = [{ action := Action.PUBLISH.value, address := mccc 0x0B, payload := [0, 0, 0, 0] },
          { action := Action.NAK.value, address := mccc 0x0B },
          { action := Action.PUBLISH.value, address := mccc 0x0B, payload := [1, 0, 0, 0] }] := rfl
    rw [honce, hthrice]
    decide
  obtain ⟨later, t, t', hall, hall', -, hstate, -⟩ :=
    indistinguishable hfirst hsecond hlast [bytesLit "EAsAABoAAAAA\r"] (.inr rfl)
  exact ⟨_, _, hfirst, hsecond, later, t, t', hall, hall', hstate⟩

end Session

end Ddmp
