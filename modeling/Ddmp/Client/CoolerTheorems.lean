import Ddmp.Client.Cooler
import Ddmp.Lib.Mirror
import Ddmp.Session.ArrayWriteTheorems

/-!
# Two writes to one array

The world refines the lagging mirror: the session's raw payload is the copy held, the SET
frames are the writes and the PUBLISH frames the reports. Since a client computes the whole
array from the copy it holds, the second of two writes takes back the first one unless the
array of the first has been published to the session in between.
-/

namespace Ddmp

open Lib Lib.Fallible Lib.LittleEndian

/-! ## The world refines the lagging mirror -/

namespace World

/-- The mirror behind a world. -/
def mirror (tp : Topic) (w : World) : Mirror.State Bytes where
  stored := w.stored
  shown := w.shown
  backlog := w.backlog
  owes := w.owes
  writes := w.sets.map Frame.payload
  reports := w.inbound.map Frame.payload
  held := w.session.raw.get? tp.address

/-- The dictionaries of the session agree, and every frame on its way to it publishes the
topic. -/
structure Inv (tp : Topic) (w : World) : Prop where
  coherent : w.session.Coherent
  inbound : ∀ f ∈ w.inbound, f.IsPublish ∧ f.address = tp.address

theorem read_eq (w : World) (f : Frame) :
    w.read f = some { w with session := w.session.afterFrames [f] } := by
  rw [read, Session.onFrame_eq]

/-- Every move of the world is at most one move of the mirror. -/
theorem step_mirror {tp : Topic} {w w' : World} {act : Act} (hw : w.Inv tp)
    (h : step tp w act = some w') :
    w'.Inv tp ∧ ∃ acts, Machine.run Mirror.step (w.mirror tp) acts = some (w'.mirror tp) := by
  cases act with
  | process =>
    rw [step] at h
    split at h
    · exact nomatch h
    · rename_i f rest hsets
      rw [← Option.some.inj h]
      refine ⟨⟨hw.coherent, hw.inbound⟩, [.store], ?_⟩
      simp only [Machine.run_cons, Machine.run_nil, mirror, Mirror.step, hsets, List.map_cons,
        Option.bind_some]
  | publish =>
    rw [← Option.some.inj h]
    refine ⟨⟨hw.coherent, fun f hf => ?_⟩, [.report], ?_⟩
    · rcases List.mem_append.mp hf with hf | hf
      · exact hw.inbound f hf
      · rw [List.mem_singleton.mp hf]
        exact ⟨rfl, rfl⟩
    · simp only [Machine.run_cons, Machine.run_nil, mirror, Mirror.step, Option.bind_some,
        List.map_append]
      rfl
  | refresh =>
    rw [step] at h
    split at h
    · exact nomatch h
    · rename_i payload rest hbacklog
      rw [Option.ite_none_left_eq_some] at h
      rw [← Option.some.inj h.2]
      refine ⟨⟨hw.coherent, hw.inbound⟩, [.advance], ?_⟩
      simp only [Machine.run_cons, Machine.run_nil, mirror, Mirror.step, hbacklog, if_neg h.1,
        Option.bind_some]
  | deliver =>
    rw [step] at h
    split at h
    · exact nomatch h
    · rename_i f rest hinbound
      rw [read_eq] at h
      obtain ⟨hpub, haddr⟩ := hw.inbound f (hinbound ▸ List.mem_cons_self)
      rw [← Option.some.inj h]
      refine ⟨⟨hw.coherent.afterFrames [f],
        fun g hg => hw.inbound g (hinbound ▸ List.mem_cons_of_mem f hg)⟩, [.receive], ?_⟩
      simp only [Machine.run_cons, Machine.run_nil, mirror, Mirror.step, hinbound, List.map_cons,
        Option.bind_some, Session.raw_afterFrames, lastPublish_singleton,
        if_pos (And.intro hpub haddr), Option.some_or]
  | other f =>
    rw [step, Option.ite_none_left_eq_some, read_eq] at h
    obtain ⟨hother, h⟩ := h
    rw [← Option.some.inj h]
    refine ⟨⟨hw.coherent.afterFrames [f], hw.inbound⟩, [], ?_⟩
    -- the mirror does not see frames of other topics
    have hnot : ¬ (f.IsPublish ∧ f.address = tp.address) := hother
    simp only [Machine.run_nil, mirror, Session.raw_afterFrames, lastPublish_singleton,
      if_neg hnot, Option.none_or]

/-- Every run of the world is a run of the mirror. -/
theorem run_mirror {tp : Topic} {w w' : World} {acts : List Act} (hw : w.Inv tp)
    (h : Machine.run (step tp) w acts = some w') :
    w'.Inv tp ∧ ∃ macts, Machine.run Mirror.step (w.mirror tp) macts = some (w'.mirror tp) :=
  Machine.run_simulates (fun _ _ _ ht hstep => step_mirror ht hstep) h hw

theorem Settled.inv {tp : Topic} {payload : Bytes} {w : World} (h : Settled tp payload w) :
    w.Inv tp where
  coherent := h.reachable.coherent
  inbound := by
    intro f hf
    rw [h.inbound f hf]
    exact ⟨rfl, rfl⟩

theorem Settled.within {tp : Topic} {payload : Bytes} {w : World} (h : Settled tp payload w) :
    (w.mirror tp).Within {payload} where
  stored := h.stored
  shown := h.shown
  backlog := fun a ha => by
    have hnil : (w.mirror tp).backlog = [] := h.backlog
    rw [hnil] at ha
    exact absurd ha List.not_mem_nil
  writes := fun a ha => by
    have hnil : (w.mirror tp).writes = [] := congrArg (List.map Frame.payload) h.sets
    rw [hnil] at ha
    exact absurd ha List.not_mem_nil
  reports := fun a ha => by
    obtain ⟨f, hf, rfl⟩ := List.mem_map.mp ha
    rw [h.inbound f hf]
    rfl
  held := fun a ha => by
    have hheld : (w.mirror tp).held = some payload := h.held
    rw [hheld] at ha
    exact (Option.some.inj ha).symm

/-! ## One call, then two -/

/-- What a call of `set` for an array does: it writes, to the mirror, the array that the
session holds with one word replaced. -/
theorem set_array {tp : Topic} (ht : tp ∈ topics) (hper : tp.perCompartment = true)
    {w w' : World} (hw : w.Inv tp) {ref : TopicRef} (href : topic ref = .ok tp) {value : Value}
    {compartment : Option ℤ} {f : Frame} (hset : w.set ref value compartment = .ok (f, w'))
    {i : ℕ} (hi : compartment.getD 0 = i) :
    tp.codec.IsWritableArray ∧ w'.Inv tp ∧ w'.mirror tp = (w.mirror tp).write f.payload
      ∧ ∃ held, (w.mirror tp).held = some held
        ∧ ∃ m, ArrayPayload tp.codec (i32s held) i m f.payload
          ∧ tp.encodeItem value = .ok (i32Bytes m) := by
  obtain ⟨⟨f', e⟩, hframe, h⟩ := bind_eq_ok.mp hset
  obtain ⟨rfl, rfl⟩ := Prod.mk.inj (Except.ok.inj h)
  obtain ⟨tp', hwritable, payload, expected, hwrites, rfl, -⟩ := Session.setFrame_eq_ok.mp hframe
  obtain ⟨hresolve, hname⟩ := assertWritable_eq_ok.mp hwritable
  obtain rfl : tp = tp' := Except.ok.inj (href.symm.trans hresolve)
  have hc : tp.codec.IsWritableArray :=
    ((writable_codecs tp ht hname).resolve_left fun h => by
      rw [hper] at h
      exact absurd h.1 (by decide)).2
  obtain ⟨held, hraw, m, hpayload, hitem⟩ :=
    hwrites.exists_arrayPayload hw.coherent ht hc hper hi
  refine ⟨hc, ⟨hw.coherent, hw.inbound⟩, ?_, held, hraw, m, hpayload, hitem⟩
  simp only [mirror, Mirror.State.write, List.map_append, List.map_cons, List.map_nil]

/-- Two writes to different compartments, with any moves before, between and after them: the
second value is stored, a third compartment keeps its value, and the first value is stored
if the array it was written with was the last one the session had read before the second
call. Otherwise that was still the old array, and the first write is undone. -/
theorem two_writes {tp : Topic} (ht : tp ∈ topics) (hper : tp.perCompartment = true)
    {published : Bytes} {w₀ w₁ w₂ w₃ w₄ w₅ : World} {acts acts' acts'' : List Act}
    {ref₁ ref₂ : TopicRef} (href₁ : topic ref₁ = .ok tp) (href₂ : topic ref₂ = .ok tp)
    {a b : Value} {c₁ c₂ : Option ℤ} {i j : ℕ} (hi : c₁.getD 0 = i) (hj : c₂.getD 0 = j)
    (hij : i ≠ j) {f₁ f₂ : Frame} (h₀ : w₀.Settled tp published)
    (h₁ : Machine.run (step tp) w₀ acts = some w₁) (hset₁ : w₁.set ref₁ a c₁ = .ok (f₁, w₂))
    (h₂ : Machine.run (step tp) w₂ acts' = some w₃) (hset₂ : w₃.set ref₂ b c₂ = .ok (f₂, w₄))
    (h₃ : Machine.run (step tp) w₄ acts'' = some w₅) (hdone : w₅.sets = []) :
    ∃ held encA encB, w₃.session.raw.get? tp.address = some held
      ∧ tp.encodeItem a = .ok encA ∧ tp.encodeItem b = .ok encB
      ∧ block w₅.stored j = encB
      ∧ (∀ k, k ≠ i → k ≠ j → tp.itemAt w₅.stored k = tp.itemAt published k)
      ∧ (held = f₁.payload ∧ block w₅.stored i = encA
        ∨ held = published ∧ tp.itemAt w₅.stored i = tp.itemAt published i) := by
  obtain ⟨hinv₁, macts₁, hrun₁⟩ := run_mirror h₀.inv h₁
  obtain ⟨hc, hinv₂, hmirror₂, held₁, hheld₁, m₁, hp₁, hencA⟩ :=
    set_array ht hper hinv₁ href₁ hset₁ hi
  obtain ⟨hinv₃, macts₂, hrun₂⟩ := run_mirror hinv₂ h₂
  obtain ⟨-, hinv₄, hmirror₄, held₂, hheld₂, m₂, hp₂, hencB⟩ :=
    set_array ht hper hinv₃ href₂ hset₂ hj
  obtain ⟨-, macts₃, hrun₃⟩ := run_mirror hinv₄ h₃
  rw [hmirror₂] at hrun₂
  rw [hmirror₄] at hrun₃
  have hwrites : (w₅.mirror tp).writes = [] := congrArg (List.map Frame.payload) hdone
  obtain ⟨hstored, hheld₁', hheld₂'⟩ :=
    Mirror.stored_of_two_writes h₀.within hrun₁ hrun₂ hrun₃ hwrites
  -- the first array is computed from the old one, the second from the old or the first
  obtain rfl : held₁ = published := hheld₁' held₁ hheld₁
  have hstored' : w₅.stored = f₂.payload := hstored
  refine ⟨held₂, i32Bytes m₁, i32Bytes m₂, hheld₂, hencA, hencB, ?_, ?_, ?_⟩
  · rw [hstored']
    exact hp₂.block_self
  · intro k hki hkj
    rw [hstored', hp₂.itemAt_ne hc (Ne.symm hkj)]
    rcases hheld₂' held₂ hheld₂ with rfl | rfl
    · rfl
    · exact hp₁.itemAt_ne hc (Ne.symm hki)
  · rcases hheld₂' held₂ hheld₂ with rfl | rfl
    · exact .inr ⟨rfl, by rw [hstored', hp₂.itemAt_ne hc (Ne.symm hij)]⟩
    · refine .inl ⟨rfl, ?_⟩
      have hword : (i32s f₁.payload)[i]? = some m₁ := by
        rw [hp₁.words, getElem?_setWords_self hp₁.inRange]
      rw [hstored', hp₂.block_ne (Ne.symm hij) hword, hp₁.normal]

/-! ## A lost write

Both compartments are on; the first is switched off, then the second, with the re-publish of
the old array read in between. -/

def cpow : Topic :=
  { name := "cpow", address := mccc 0x03, codec := .boolArray, writable := true,
    perCompartment := true }

def bothOn : World where
  session := Session.afterFrames {} [publishOf cpow [1, 0, 0, 0, 1, 0, 0, 0]]
  stored := [1, 0, 0, 0, 1, 0, 0, 0]
  shown := [1, 0, 0, 0, 1, 0, 0, 0]

/-- The SET frame of an array. -/
def setOf (payload : Bytes) : Frame :=
  { action := Action.SET.value, address := mccc 0x03, payload }

/-- After the first call. -/
def firstSent : World := { bothOn with sets := [setOf [0, 0, 0, 0, 1, 0, 0, 0]] }

/-- The first SET is stored, the old array has been published again and read. -/
def oldReadAgain : World :=
  { bothOn with
    session := Session.afterFrames bothOn.session [publishOf cpow bothOn.shown]
    stored := [0, 0, 0, 0, 1, 0, 0, 0]
    backlog := [[0, 0, 0, 0, 1, 0, 0, 0]] }

/-- After the second call. -/
def secondSent : World := { oldReadAgain with sets := [setOf [1, 0, 0, 0, 0, 0, 0, 0]] }

/-- The second SET is stored too. -/
def bothStored : World :=
  { secondSent with
    sets := []
    stored := [1, 0, 0, 0, 0, 0, 0, 0]
    backlog := [[0, 0, 0, 0, 1, 0, 0, 0], [1, 0, 0, 0, 0, 0, 0, 0]]
    owes := true }

theorem settled_bothOn : bothOn.Settled cpow [1, 0, 0, 0, 1, 0, 0, 0] where
  reachable := ⟨_, [bytesLit "EAMAABoBAAAAAQAAAA==\r"], _, rfl⟩
  held := rfl
  stored := rfl
  shown := rfl
  backlog := rfl
  sets := rfl
  inbound := fun _ hf => absurd hf List.not_mem_nil

theorem two_writes_cpow :
    ∃ held encA encB, oldReadAgain.session.raw.get? cpow.address = some held
      ∧ cpow.encodeItem (.bool false) = .ok encA ∧ cpow.encodeItem (.bool false) = .ok encB
      ∧ block bothStored.stored 1 = encB
      ∧ (∀ k, k ≠ 0 → k ≠ 1 → cpow.itemAt bothStored.stored k
          = cpow.itemAt [1, 0, 0, 0, 1, 0, 0, 0] k)
      ∧ (held = [0, 0, 0, 0, 1, 0, 0, 0] ∧ block bothStored.stored 0 = encA
        ∨ held = [1, 0, 0, 0, 1, 0, 0, 0]
          ∧ cpow.itemAt bothStored.stored 0 = cpow.itemAt [1, 0, 0, 0, 1, 0, 0, 0] 0) := by
  have hresolve : topic (.name "cpow") = .ok cpow := rfl
  have hi : (some 0 : Option ℤ).getD 0 = (0 : ℕ) := rfl
  have hj : (some 1 : Option ℤ).getD 0 = (1 : ℕ) := rfl
  have hstart : Machine.run (step cpow) bothOn [] = some bothOn := rfl
  have hset₁ : bothOn.set (.name "cpow") (.bool false) (some 0)
      = .ok (setOf [0, 0, 0, 0, 1, 0, 0, 0], firstSent) := rfl
  have hread : Machine.run (step cpow) firstSent [.process, .publish, .deliver]
      = some oldReadAgain := rfl
  have hset₂ : oldReadAgain.set (.name "cpow") (.bool false) (some 1)
      = .ok (setOf [1, 0, 0, 0, 0, 0, 0, 0], secondSent) := rfl
  have hend : Machine.run (step cpow) secondSent [.process] = some bothStored := rfl
  exact two_writes (by decide) rfl hresolve hresolve hi hj (by decide) settled_bothOn hstart hset₁
    hread hset₂ hend rfl

/-- The first compartment, switched off by an accepted write, is on again in the end. -/
theorem first_write_lost :
    bothOn.Settled cpow [1, 0, 0, 0, 1, 0, 0, 0]
      ∧ bothOn.set (.name "cpow") (.bool false) (some 0)
        = .ok (setOf [0, 0, 0, 0, 1, 0, 0, 0], firstSent)
      ∧ Machine.run (step cpow) firstSent [.process, .publish, .deliver] = some oldReadAgain
      ∧ oldReadAgain.set (.name "cpow") (.bool false) (some 1)
        = .ok (setOf [1, 0, 0, 0, 0, 0, 0, 0], secondSent)
      ∧ Machine.run (step cpow) secondSent [.process] = some bothStored
      ∧ bothStored.sets = []
      ∧ cpow.encodeItem (.bool false) = .ok [0, 0, 0, 0]
      ∧ block bothStored.stored 0 ≠ [0, 0, 0, 0] :=
  ⟨settled_bothOn, rfl, rfl, rfl, rfl, rfl, rfl, by decide⟩

end World

end Ddmp
