import Ddmp.Protocol.CodecsTheorems
import Ddmp.Protocol.LineDecoderTheorems
import Ddmp.Session.Session

/-!
# What a session remembers

No inbound byte makes a session raise, and its two dictionaries are the replay of two logs:
the payloads by address, and the stored values by name. For a topic of the table the last
PUBLISH to its address therefore decides both entries.
-/

namespace Ddmp

open Lib

/-! ## The effect of one frame -/

/-- What `_publish` stores for a topic: the decoded payload, or the payload itself. -/
def Topic.stored (t : Topic) (payload : Bytes) : Value :=
  match t.codec.decode payload with
  | .ok v => v
  | .error _ => .bytes payload

theorem Topic.stored_of_decode {t : Topic} {payload : Bytes} {v : Value}
    (h : t.codec.decode payload = .ok v) : t.stored payload = v := by
  rw [stored, h]

theorem Topic.stored_of_lt {t : Topic} {payload : Bytes}
    (h : payload.length < t.codec.minLength) : t.stored payload = .bytes payload := by
  obtain ⟨msg, hmsg⟩ := Codec.decode_of_lt h
  rw [stored, hmsg]

/-- The stored value is the decoded one, or the payload when decoding raises `DecodeError`. -/
theorem Topic.stored_spec (t : Topic) (payload : Bytes) :
    t.codec.decode payload = .ok (t.stored payload)
      ∨ (∃ msg, t.codec.decode payload = .error (.decodeError msg))
        ∧ t.stored payload = .bytes payload := by
  by_cases h : payload.length < t.codec.minLength
  · exact .inr ⟨Codec.decode_of_lt h, t.stored_of_lt h⟩
  · obtain ⟨v, hv⟩ := Codec.decode_of_le (Nat.le_of_not_lt h)
    exact .inl (by rw [stored_of_decode hv, hv])

/-- The frame is a PUBLISH. -/
def Frame.IsPublish (f : Frame) : Prop := f.action = Action.PUBLISH.value

instance (f : Frame) : Decidable f.IsPublish := inferInstanceAs (Decidable (_ = _))

/-- The event of a frame: Publish for PUBLISH, Nak for NAK, Unhandled for anything else. -/
def eventOf (f : Frame) : Event :=
  if f.IsPublish then
    match topicByAddress.get? f.address with
    | none => .publish f.address none (.bytes f.payload) f.payload
    | some t => .publish f.address (some t) (t.stored f.payload) f.payload
  else if f.action = Action.NAK.value then .nak f.address f.payload
  else .unhandled f

theorem eventOf_eq_nak {f : Frame} {a : Address} {raw : Bytes} (h : eventOf f = .nak a raw) :
    ¬ f.IsPublish ∧ f.address = a := by
  unfold eventOf at h
  split at h
  · split at h
    · cases h
    · cases h
  · rename_i hnot
    split at h
    · exact ⟨hnot, (Event.nak.inj h).1⟩
    · cases h

theorem eventOf_eq_publish {f : Frame} {a : Address} {topic : Option Topic} {value : Value}
    {raw : Bytes} (h : eventOf f = .publish a topic value raw) : f.IsPublish ∧ f.address = a := by
  unfold eventOf at h
  split at h
  · rename_i hpublish
    refine ⟨hpublish, ?_⟩
    split at h
    · exact (Event.publish.inj h).1
    · exact (Event.publish.inj h).1
  · split at h
    · cases h
    · cases h

/-- What a frame assigns in `raw`. -/
def rawEntry (f : Frame) : Option (Address × Bytes) :=
  if f.IsPublish then some (f.address, f.payload) else none

/-- What a frame assigns in `values`. -/
def valueEntry (f : Frame) : Option (String × Value) :=
  if f.IsPublish then (topicByAddress.get? f.address).map fun t => (t.name, t.stored f.payload)
  else none

/-- The payloads published to an address, in order. -/
def publishes (a : Address) (frames : List Frame) : List Bytes :=
  (frames.filter fun f => f.IsPublish ∧ f.address = a).map Frame.payload

/-- The last payload published to an address. -/
def lastPublish (a : Address) (frames : List Frame) : Option Bytes :=
  (publishes a frames).getLast?

theorem publishes_cons (a : Address) (f : Frame) (rest : List Frame) :
    publishes a (f :: rest)
      = if f.IsPublish ∧ f.address = a then f.payload :: publishes a rest
        else publishes a rest := by
  rw [publishes, List.filter_cons]
  by_cases h : f.IsPublish ∧ f.address = a
  · rw [if_pos h, if_pos (decide_eq_true h)]
    rfl
  · rw [if_neg h, if_neg (by rwa [decide_eq_true_eq])]
    rfl

theorem lastPublish_append (a : Address) (fs gs : List Frame) :
    lastPublish a (fs ++ gs) = (lastPublish a gs).or (lastPublish a fs) := by
  rw [lastPublish, publishes, List.filter_append, List.map_append, List.getLast?_append]
  rfl

theorem lastPublish_singleton (a : Address) (f : Frame) :
    lastPublish a [f] = if f.IsPublish ∧ f.address = a then some f.payload else none := by
  rw [lastPublish, publishes_cons]
  split <;> rfl

namespace Session

/-- The session after some frames. -/
def afterFrames (s : Session) (frames : List Frame) : Session :=
  { s with
    raw := s.raw.replay (frames.filterMap rawEntry)
    values := s.values.replay (frames.filterMap valueEntry) }

@[simp] theorem afterFrames_nil (s : Session) : s.afterFrames [] = s := rfl

theorem afterFrames_append (s : Session) (fs gs : List Frame) :
    s.afterFrames (fs ++ gs) = (s.afterFrames fs).afterFrames gs := by
  simp only [afterFrames, List.filterMap_append, Dict.replay_append]

/-- One frame never raises. -/
theorem onFrame_eq (s : Session) (f : Frame) :
    s.onFrame f = .ok (eventOf f, s.afterFrames [f]) := by
  by_cases hpub : f.IsPublish
  · have haction : f.action = Action.PUBLISH.value := hpub
    rw [onFrame, if_pos haction, publish]
    cases ht : topicByAddress.get? f.address with
    | none =>
      simp only [eventOf, afterFrames, rawEntry, valueEntry, List.filterMap_cons,
        List.filterMap_nil, if_pos hpub, ht, Option.map_none]
      rfl
    | some t =>
      simp only [eventOf, afterFrames, rawEntry, valueEntry, List.filterMap_cons,
        List.filterMap_nil, if_pos hpub, ht, Option.map_some]
      -- `DecodeError` is the only exception of a codec, and `_publish` catches it
      rcases t.stored_spec f.payload with hdec | ⟨⟨msg, hdec⟩, hstored⟩
      · rw [hdec]
        rfl
      · rw [hdec, hstored]
        rfl
  · have haction : ¬ f.action = Action.PUBLISH.value := hpub
    have hafter : s.afterFrames [f] = s := by
      simp only [afterFrames, rawEntry, valueEntry, List.filterMap_cons, if_neg hpub]
      rfl
    rw [onFrame, if_neg haction, hafter, eventOf, if_neg hpub]
    split <;> rfl

theorem onFrames_eq (s : Session) (frames : List Frame) :
    s.onFrames frames = .ok (frames.map eventOf, s.afterFrames frames) := by
  induction frames generalizing s with
  | nil => rfl
  | cons f rest ih =>
    rw [onFrames, onFrame_eq]
    simp only [bind, Except.bind, ih, pure, Except.pure]
    exact congrArg _ (Prod.ext rfl (afterFrames_append s [f] rest).symm)

/-- One call of `feed`: the frames the reference finds in the buffer and the new bytes. -/
theorem feed_eq (s : Session) (data : Bytes) :
    s.feed data = .ok ((reference (s.decoder.buf ++ data)).frames.map eventOf,
      { s with decoder :=
          { buf := (reference (s.decoder.buf ++ data)).pending
            dropped := s.decoder.dropped + (reference (s.decoder.buf ++ data)).dropped } }.afterFrames
        (reference (s.decoder.buf ++ data)).frames) := by
  rw [feed, LineDecoder.feed_eq]
  exact onFrames_eq _ _

/-- Feeding chunks one after another. -/
theorem feedAll_eq (chunks : List Bytes) (s : Session)
    (hs : Lines.tail lineTerminator s.decoder.buf = s.decoder.buf) :
    s.feedAll chunks = .ok ((reference (s.decoder.buf ++ chunks.flatten)).frames.map eventOf,
      { s with decoder :=
          { buf := (reference (s.decoder.buf ++ chunks.flatten)).pending
            dropped := s.decoder.dropped
              + (reference (s.decoder.buf ++ chunks.flatten)).dropped } }.afterFrames
        (reference (s.decoder.buf ++ chunks.flatten)).frames) := by
  induction chunks generalizing s with
  | nil =>
    have hlines := Lines.lines_of_tail_eq lineTerminator hs
    simp [feedAll, reference, nonBlankLines, hlines, hs]
  | cons chunk rest ih =>
    rw [feedAll, feed_eq]
    have hpending : Lines.tail lineTerminator (reference (s.decoder.buf ++ chunk)).pending
        = (reference (s.decoder.buf ++ chunk)).pending := Lines.tail_tail lineTerminator _
    -- the events of the chunk come first, then those of the remaining stream
    have hrest := ih ({ s with decoder :=
      { buf := (reference (s.decoder.buf ++ chunk)).pending
        dropped := s.decoder.dropped + (reference (s.decoder.buf ++ chunk)).dropped } }.afterFrames
      (reference (s.decoder.buf ++ chunk)).frames) hpending
    simp only [bind, Except.bind, hrest, pure, Except.pure]
    rw [List.flatten_cons, ← List.append_assoc, frames_append (s.decoder.buf ++ chunk),
      dropped_append (s.decoder.buf ++ chunk), pending_append (s.decoder.buf ++ chunk),
      List.map_append, afterFrames_append, ← Nat.add_assoc]
    rfl

/-- One more chunk. -/
theorem feedAll_concat {s s' s'' : Session} {chunks : List Bytes} {events events' : List Event}
    (hall : s.feedAll chunks = .ok (events, s')) {chunk : Bytes}
    (hfeed : s'.feed chunk = .ok (events', s'')) :
    s.feedAll (chunks ++ [chunk]) = .ok (events ++ events', s'') := by
  induction chunks generalizing s events with
  | nil =>
    obtain ⟨rfl, rfl⟩ := Prod.mk.inj (Except.ok.inj hall)
    rw [List.nil_append, feedAll, hfeed]
    simp only [bind, Except.bind, feedAll, pure, Except.pure, List.append_nil, List.nil_append]
  | cons first rest ih =>
    rw [feedAll, feed_eq] at hall
    rw [List.cons_append, feedAll, feed_eq]
    simp only [bind, Except.bind, pure, Except.pure] at hall ⊢
    split at hall
    · exact nomatch hall
    · rename_i pair hrest
      obtain ⟨rfl, rfl⟩ := Prod.mk.inj (Except.ok.inj hall)
      rw [ih hrest]
      simp only [List.append_assoc]

/-! ## The two dictionaries -/

theorem assigned_rawEntry (a : Address) (frames : List Frame) :
    Dict.assigned a (frames.filterMap rawEntry) = publishes a frames := by
  induction frames with
  | nil => rfl
  | cons f rest ih =>
    rw [publishes_cons]
    by_cases hpub : f.IsPublish
    · have hentry : rawEntry f = some (f.address, f.payload) := if_pos hpub
      rw [List.filterMap_cons_some hentry, Dict.assigned_cons, ih]
      simp only [hpub, true_and]
    · have hentry : rawEntry f = none := if_neg hpub
      rw [List.filterMap_cons_none hentry, ih, if_neg fun h => hpub h.1]

theorem assigned_valueEntry {t : Topic} (ht : t ∈ Ddmp.topics) (frames : List Frame) :
    Dict.assigned t.name (frames.filterMap valueEntry)
      = (publishes t.address frames).map t.stored := by
  induction frames with
  | nil => rfl
  | cons f rest ih =>
    rw [publishes_cons]
    by_cases hpub : f.IsPublish
    · cases hu : topicByAddress.get? f.address with
      | none =>
        have hentry : valueEntry f = none := by rw [valueEntry, hu, Option.map_none, ite_self]
        have ha : ¬ f.address = t.address := fun h => by
          rw [h, topicByAddress_self ht] at hu
          exact Option.some_ne_none t hu
        rw [List.filterMap_cons_none hentry, ih, if_neg fun h => ha h.2]
      | some u =>
        obtain ⟨hmem, haddr⟩ := topicByAddress_eq_some.mp hu
        have hentry : valueEntry f = some (u.name, u.stored f.payload) := by
          rw [valueEntry, if_pos hpub, hu, Option.map_some]
        rw [List.filterMap_cons_some hentry, Dict.assigned_cons, ih]
        -- in the table a name stands for one address, and an address for one name
        by_cases ha : f.address = t.address
        · have hut : u = t := eq_of_address hmem ht (haddr.trans ha)
          rw [if_pos (by rw [hut]), if_pos ⟨hpub, ha⟩, List.map_cons, hut]
        · have hname : ¬ u.name = t.name := fun h => ha (by rw [← haddr, eq_of_name hmem ht h])
          rw [if_neg hname, if_neg fun h => ha h.2]
    · have hentry : valueEntry f = none := if_neg hpub
      rw [List.filterMap_cons_none hentry, ih, if_neg fun h => hpub h.1]

/-- Nothing is stored under a name that is not in the table. -/
theorem assigned_valueEntry_of_not_mem {name : String} (h : ∀ t ∈ Ddmp.topics, t.name ≠ name)
    (frames : List Frame) : Dict.assigned name (frames.filterMap valueEntry) = [] := by
  apply Dict.assigned_of_not_mem
  intro hmem
  obtain ⟨e, he, hname⟩ := List.mem_map.mp hmem
  obtain ⟨f, -, hf⟩ := List.mem_filterMap.mp he
  rw [valueEntry, Option.ite_none_right_eq_some, Option.map_eq_some_iff] at hf
  obtain ⟨-, t, ht, rfl⟩ := hf
  exact h t (topicByAddress_eq_some.mp ht).1 hname

theorem raw_afterFrames (s : Session) (frames : List Frame) (a : Address) :
    (s.afterFrames frames).raw.get? a = (lastPublish a frames).or (s.raw.get? a) := by
  rw [afterFrames, Dict.get?_replay, assigned_rawEntry, lastPublish]

theorem values_afterFrames (s : Session) (frames : List Frame) {t : Topic}
    (ht : t ∈ Ddmp.topics) : (s.afterFrames frames).values.get? t.name
      = ((lastPublish t.address frames).map t.stored).or (s.values.get? t.name) := by
  rw [afterFrames, Dict.get?_replay, assigned_valueEntry ht, lastPublish, List.getLast?_map]

theorem lastPublish_isSome {a : Address} {frames : List Frame} :
    (lastPublish a frames).isSome ↔ ∃ f ∈ frames, f.IsPublish ∧ f.address = a := by
  rw [lastPublish, publishes, List.getLast?_isSome]
  simp [List.filter_eq_nil_iff]

/-- A frame that is not a PUBLISH for an address of the table leaves `values` alone. -/
theorem values_onFrame {s s' : Session} {f : Frame} {event : Event}
    (h : ¬ (f.IsPublish ∧ ∃ t ∈ Ddmp.topics, t.address = f.address))
    (hstep : s.onFrame f = .ok (event, s')) : s'.values = s.values := by
  have hentry : valueEntry f = none := by
    by_cases hpub : f.IsPublish
    · cases ht : topicByAddress.get? f.address with
      | none => rw [valueEntry, ht, Option.map_none, ite_self]
      | some t => exact absurd ⟨hpub, t, topicByAddress_eq_some.mp ht⟩ h
    · rw [valueEntry, if_neg hpub]
  rw [onFrame_eq, Except.ok.injEq, Prod.mk.injEq] at hstep
  rw [← hstep.2, afterFrames, List.filterMap_cons, hentry]
  rfl

/-! ## The invariant of reachable sessions -/

/-- The two dictionaries agree: a topic has a value exactly when its address has a payload,
and then the value is what that payload is stored as. No other name has a value. -/
structure Coherent (s : Session) : Prop where
  stored : ∀ t ∈ Ddmp.topics, s.values.get? t.name = (s.raw.get? t.address).map t.stored
  unknown : ∀ name, (∀ t ∈ Ddmp.topics, t.name ≠ name) → s.values.get? name = none

theorem coherent_of_empty {s : Session} (hvalues : s.values = Dict.empty)
    (hraw : s.raw = Dict.empty) : s.Coherent where
  stored := by
    intro t _
    rw [hvalues, hraw]
    rfl
  unknown := by
    intro name _
    rw [hvalues]
    rfl

theorem Coherent.afterFrames {s : Session} (h : s.Coherent) (frames : List Frame) :
    (s.afterFrames frames).Coherent where
  stored := by
    intro t ht
    rw [values_afterFrames s frames ht, raw_afterFrames, h.stored t ht]
    cases lastPublish t.address frames <;> rfl
  unknown := by
    intro name hname
    rw [Session.afterFrames, Dict.get?_replay, assigned_valueEntry_of_not_mem hname,
      h.unknown name hname]
    rfl

theorem Reachable.coherent {s : Session} (h : s.Reachable) : s.Coherent := by
  obtain ⟨tps, chunks, events, hfeed⟩ := h
  rw [feedAll_eq chunks _ rfl, Except.ok.injEq, Prod.mk.injEq] at hfeed
  rw [← hfeed.2]
  exact (coherent_of_empty rfl rfl).afterFrames _

/-- A session that has read a stream holds the payloads last published. -/
theorem exists_reachable (tps : List Topic) (chunks : List Bytes) :
    ∃ s : Session, s.Reachable
      ∧ ∀ a, s.raw.get? a = lastPublish a (reference chunks.flatten).frames := by
  refine ⟨_, ⟨tps, chunks, _, feedAll_eq chunks { topics := tps } rfl⟩, fun a => ?_⟩
  rw [raw_afterFrames]
  exact Option.or_none

/-- A session that has read a stream: no call raises, every frame gives its event, and for a
topic of the table both entries come from the last PUBLISH to its address. Any other frame
leaves `values` unchanged. -/
theorem feedAll_last_publish (tps : List Topic) (chunks : List Bytes) :
    ∃ s, feedAll { topics := tps } chunks
        = .ok ((reference chunks.flatten).frames.map eventOf, s)
      ∧ (∀ t ∈ Ddmp.topics,
          ((s.values.get? t.name).isSome ↔ (s.raw.get? t.address).isSome)
          ∧ ((s.raw.get? t.address).isSome
              ↔ ∃ f ∈ (reference chunks.flatten).frames, f.IsPublish ∧ f.address = t.address)
          ∧ ∀ payload, lastPublish t.address (reference chunks.flatten).frames = some payload →
            s.raw.get? t.address = some payload
            ∧ ((∃ v, t.codec.decode payload = .ok v ∧ s.values.get? t.name = some v)
              ∨ (∃ msg, t.codec.decode payload = .error (.decodeError msg))
                ∧ s.values.get? t.name = some (.bytes payload)))
      ∧ ∀ (s₀ s₁ : Session) (f : Frame) (event : Event),
          ¬ (f.IsPublish ∧ ∃ t ∈ Ddmp.topics, t.address = f.address) →
          s₀.onFrame f = .ok (event, s₁) → s₁.values = s₀.values := by
  refine ⟨_, feedAll_eq chunks { topics := tps } rfl, ?_, fun _ _ _ _ => values_onFrame⟩
  intro t ht
  have hraw : ∀ s : Session, s.raw = Dict.empty →
      (s.afterFrames (reference chunks.flatten).frames).raw.get? t.address
        = lastPublish t.address (reference chunks.flatten).frames := by
    intro s hs
    rw [raw_afterFrames, hs, Dict.get?_empty, Option.or_none]
  have hvalue : ∀ s : Session, s.values = Dict.empty →
      (s.afterFrames (reference chunks.flatten).frames).values.get? t.name
        = (lastPublish t.address (reference chunks.flatten).frames).map t.stored := by
    intro s hs
    rw [values_afterFrames s _ ht, hs, Dict.get?_empty, Option.or_none]
  simp only [List.nil_append]
  rw [hraw _ rfl, hvalue _ rfl, Option.isSome_map]
  refine ⟨Iff.rfl, lastPublish_isSome, fun payload hlast => ⟨hlast, ?_⟩⟩
  rw [hlast, Option.map_some]
  rcases t.stored_spec payload with hdec | ⟨hmsg, hstored⟩
  · exact .inl ⟨_, hdec, rfl⟩
  · exact .inr ⟨hmsg, by rw [hstored]⟩

end Session

end Ddmp
