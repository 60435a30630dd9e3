import Ddmp.Client.SyncLifecycle
import Ddmp.Protocol.StreamTheorems
import Ddmp.Session.HistoryTheorems

/-!
# What a cooler reads from a client that connects

`connect` writes the subscribe burst and stops at the first send that fails, so the bytes behind a
broken line are none. `burst_decoded`: the cooler reads the first frames of the burst, and never
anything else.
-/

namespace Ddmp

open Lib

namespace SyncLifecycle

/-- How far the burst has come: what `_sock` carries when `connect` is at a given point. -/
def Burst (frames : List Frame) (c : SyncLifecycle) : Prop :=
  match c.connecting with
  | .ready | .opening | .opened => c.client.sock = none
  | .assigned => c.client.sock = some []
  | .burst rest => ∃ sent stream, frames = sent ++ rest ∧ c.client.sock = some stream
      ∧ Carries stream sent
  | .sending frame rest => ∃ sent stream, frames = sent ++ frame :: rest
      ∧ c.client.sock = some stream ∧ Carries stream sent
  | .returned => ∃ stream, c.client.sock = some stream ∧ Carries stream frames
  | .raised _ => ∀ stream, c.client.sock = some stream →
      ∃ sent whole, sent <+: frames ∧ stream <+: whole ∧ Carries whole sent

/-- The frames that `connect` is to send, and those it has sent. -/
structure BurstInv (frames : List Frame) (c : SyncLifecycle) : Prop where
  wanted : (if c.subscribe then c.session.subscribeFrames else []) = frames
  burst : c.Burst frames

variable {c c' : SyncLifecycle} {frames : List Frame}

theorem BurstInv.connect (h : BurstInv frames c) {act : ConnectAct}
    (hstep : c.stepConnect act = some c') : BurstInv frames c' := by
  have hburst := h.burst
  unfold Burst at hburst
  cases act with
  | call =>
    rw [stepConnect] at hstep
    split at hstep
    · rename_i hready
      rw [hready] at hburst
      split at hstep
      · rw [← Option.some.inj hstep]
        exact ⟨h.wanted, fun stream hstream => nomatch hburst.symm.trans hstream⟩
      · exact Option.some.inj hstep ▸ ⟨h.wanted, hburst⟩
    · exact nomatch hstep
  | create outcome =>
    unfold stepConnect at hstep
    dsimp only at hstep
    split at hstep
    · rename_i hopening
      rw [hopening] at hburst
      rw [← Option.some.inj hstep]
      exact ⟨h.wanted, fun stream hstream => nomatch hburst.symm.trans hstream⟩
    · rename_i hopening
      rw [hopening] at hburst
      exact Option.some.inj hstep ▸ ⟨h.wanted, hburst⟩
    · exact nomatch hstep
  | assign =>
    rw [stepConnect] at hstep
    split at hstep
    · exact Option.some.inj hstep ▸ ⟨h.wanted, rfl⟩
    · exact nomatch hstep
  | startReader =>
    rw [stepConnect] at hstep
    split at hstep
    · rename_i hassigned
      rw [hassigned] at hburst
      rw [← Option.some.inj hstep]
      refine ⟨h.wanted, ?_⟩
      have hwanted := h.wanted
      unfold Burst
      cases hsubscribe : c.subscribe with
      | true =>
        rw [hsubscribe] at hwanted
        exact ⟨[], [], hwanted.symm, hburst, carries_nil⟩
      | false =>
        rw [hsubscribe] at hwanted
        exact ⟨[], hburst, hwanted ▸ carries_nil⟩
    · exact nomatch hstep
  | check =>
    rw [stepConnect] at hstep
    split at hstep
    · rename_i hrest
      rw [hrest] at hburst
      obtain ⟨sent, stream, hframes, hsock, hcarries⟩ := hburst
      rw [← Option.some.inj hstep]
      refine ⟨h.wanted, stream, hsock, ?_⟩
      rw [hframes, List.append_nil]
      exact hcarries
    · rename_i frame rest hrest
      rw [hrest] at hburst
      split at hstep
      · obtain ⟨sent, stream, hframes, hsock, hcarries⟩ := hburst
        rw [← Option.some.inj hstep]
        refine ⟨h.wanted, fun stream' hstream' => ?_⟩
        obtain rfl := Option.some.inj (hsock.symm.trans hstream')
        exact ⟨sent, stream, ⟨_, hframes.symm⟩, List.prefix_refl stream, hcarries⟩
      · exact Option.some.inj hstep ▸ ⟨h.wanted, hburst⟩
    · exact nomatch hstep
  | sendall outcome =>
    rw [stepConnect] at hstep
    split at hstep
    · rename_i frame rest hsending
      rw [hsending] at hburst
      obtain ⟨sent, stream, hframes, hsock, hcarries⟩ := hburst
      split at hstep
      · rw [← Option.some.inj hstep]
        refine ⟨h.wanted, fun stream' hstream' => ?_⟩
        obtain rfl := Option.some.inj (hsock.symm.trans hstream')
        exact ⟨sent, stream, ⟨_, hframes.symm⟩, List.prefix_refl stream, hcarries⟩
      · rename_i line hline
        have hnext := hcarries.append (carries_line hline)
        split at hstep
        · rw [← Option.some.inj hstep]
          refine ⟨h.wanted, sent ++ [frame], stream ++ line, ?_, ?_, hnext⟩
          · rw [hframes, List.append_assoc, List.singleton_append]
          · dsimp only
            rw [hsock]
            rfl
        · -- a part of the line is the last that is written
          rename_i n text
          rw [← Option.some.inj hstep]
          refine ⟨h.wanted, fun stream' hstream' => ?_⟩
          dsimp only at hstream'
          rw [hsock] at hstream'
          obtain rfl := Option.some.inj hstream'
          refine ⟨sent ++ [frame], stream ++ line, ⟨rest, ?_⟩, ?_, hnext⟩
          · rw [hframes, List.append_assoc, List.singleton_append]
          · exact (List.prefix_append_right_inj stream).mpr (List.take_prefix n line)
    · exact nomatch hstep

/-- The other threads neither write nor change where `connect` is. -/
theorem BurstInv.goOn (h : BurstInv frames c) (hsession : c'.session.topics = c.session.topics)
    (hconnecting : c'.connecting = c.connecting) (hsubscribe : c'.subscribe = c.subscribe)
    (hsock : c'.client.sock = c.client.sock) : BurstInv frames c' := by
  constructor
  · have hwanted := h.wanted
    rw [Session.subscribeFrames] at hwanted ⊢
    rw [hsubscribe, hsession, hwanted]
  · have hburst := h.burst
    unfold Burst at hburst ⊢
    rw [hconnecting, hsock]
    exact hburst

theorem BurstInv.read (h : BurstInv frames c) {act : ReadAct} (hstep : c.stepRead act = some c') :
    BurstInv frames c' := by
  cases act with
  | loop =>
    rw [stepRead] at hstep
    split at hstep
    · exact Option.some.inj hstep ▸ h.goOn rfl rfl rfl rfl
    · exact nomatch hstep
  | recv outcome =>
    rw [stepRead] at hstep
    split at hstep
    · dsimp only at hstep
      split at hstep
      · exact Option.some.inj hstep ▸ h.goOn rfl rfl rfl rfl
      · exact Option.some.inj hstep ▸ h.goOn rfl rfl rfl rfl
      · exact Option.some.inj hstep ▸ h.goOn rfl rfl rfl rfl
      · split at hstep
        · rename_i hfeed
          rw [Session.feed_eq] at hfeed
          have hsession := (Prod.mk.inj (Except.ok.inj hfeed)).2
          rw [← Option.some.inj hstep]
          exact h.goOn (by rw [← hsession]; rfl) rfl rfl rfl
        · exact Option.some.inj hstep ▸ h.goOn rfl rfl rfl rfl
    · exact nomatch hstep
  | leave =>
    rw [stepRead] at hstep
    split at hstep
    · exact Option.some.inj hstep ▸ h.goOn rfl rfl rfl rfl
    · exact nomatch hstep

theorem BurstInv.close (h : BurstInv frames c) {act : CloseAct}
    (hstep : c.stepClose act = some c') : BurstInv frames c' := by
  cases act with
  | check =>
    rw [stepClose, Option.some_inj] at hstep
    split at hstep
    · exact hstep ▸ h
    · exact hstep ▸ h.goOn rfl rfl rfl rfl
  | set | release =>
    rw [stepClose] at hstep
    split at hstep
    · exact Option.some.inj hstep ▸ h.goOn rfl rfl rfl rfl
    · exact nomatch hstep

theorem BurstInv.step (h : BurstInv frames c) {act : Act} (hstep : c.step act = some c') :
    BurstInv frames c' := by
  cases act with
  | connect act => exact h.connect hstep
  | read act => exact h.read hstep
  | close act => exact h.close hstep

/-- At every point `_sock` has the first lines of the burst, the last one perhaps in part. -/
theorem Burst.exists_prefix (h : c.Burst frames) {stream : Bytes}
    (hsock : c.client.sock = some stream) :
    ∃ sent whole, sent <+: frames ∧ stream <+: whole ∧ Carries whole sent := by
  have hstart (hnil : stream = []) :
      ∃ sent whole, sent <+: frames ∧ stream <+: whole ∧ Carries whole sent :=
    ⟨[], [], List.nil_prefix, hnil ▸ List.prefix_refl [], carries_nil⟩
  have hwhole {sent rest : List Frame} {stream' : Bytes} (hframes : frames = sent ++ rest)
      (hsock' : c.client.sock = some stream') (hcarries : Carries stream' sent) :
      ∃ sent whole, sent <+: frames ∧ stream <+: whole ∧ Carries whole sent := by
    obtain rfl := Option.some.inj (hsock.symm.trans hsock')
    exact ⟨sent, stream, ⟨rest, hframes.symm⟩, List.prefix_refl stream, hcarries⟩
  unfold Burst at h
  split at h
  · exact nomatch hsock.symm.trans h
  · exact nomatch hsock.symm.trans h
  · exact nomatch hsock.symm.trans h
  · exact hstart (Option.some.inj (hsock.symm.trans h))
  · obtain ⟨sent, stream', hframes, hsock', hcarries⟩ := h
    exact hwhole hframes hsock' hcarries
  · obtain ⟨sent, stream', hframes, hsock', hcarries⟩ := h
    exact hwhole hframes hsock' hcarries
  · obtain ⟨stream', hsock', hcarries⟩ := h
    exact hwhole (List.append_nil frames).symm hsock' hcarries
  · exact h stream hsock

/-- Whatever the network, the reader thread and the callers of `close` do to a client that only
connects, and in whatever chunks the cooler reads: it decodes the first frames of the subscribe
burst, in order, and drops nothing; and all of them when `connect` has returned. -/
theorem burst_decoded {host : String} {port : ℕ} {session : Session} {subscribe : Bool}
    {acts : List Act} (hrun : Machine.run step (fresh host port session subscribe) acts = some c)
    {stream : Bytes} (hsock : c.client.sock = some stream) {chunks : List Bytes}
    (hchunks : chunks.flatten = stream) :
    ∃ lists d, LineDecoder.feedAll {} chunks = .ok (lists, d)
      ∧ lists.flatten <+: (if subscribe then session.subscribeFrames else []) ∧ d.dropped = 0
      ∧ (c.connecting = .returned →
        lists.flatten = (if subscribe then session.subscribeFrames else []) ∧ d.pending = []) := by
  have hinv : BurstInv (if subscribe then session.subscribeFrames else []) c :=
    Machine.run_preserves (fun _ _ _ h hstep => h.step hstep) hrun ⟨rfl, rfl⟩
  have hburst := hinv.burst
  obtain ⟨sent, whole, hsent, hstream, hcarries⟩ := hburst.exists_prefix hsock
  obtain ⟨hframes, hdropped⟩ := hcarries.reference_prefix hstream
  obtain ⟨lists, hall, hlists⟩ := LineDecoder.feedAll_eq chunks {} rfl
  rw [List.nil_append, hchunks] at hall hlists
  refine ⟨lists, _, hall, ?_, ?_, fun hreturned => ?_⟩
  · rw [hlists]
    exact hframes.trans hsent
  · rw [hdropped]
  · unfold Burst at hburst
    rw [hreturned] at hburst
    obtain ⟨stream', hsock', hcarries'⟩ := hburst
    obtain rfl := Option.some.inj (hsock.symm.trans hsock')
    obtain ⟨hframes', -, hpending⟩ := hcarries'.reference
    exact ⟨hlists.trans hframes', hpending⟩

/-- A session with one topic. -/
def onlyCtemp : Session :=
  { topics := [{ name := "ctemp", address := mccc 0x04, codec := .milliArray }] }

/-- Its SUBSCRIBE breaks off after three characters. -/
def firstBreaks : List Act :=
  [.connect .call, .connect (.create (.ok ())), .connect .assign, .connect .startReader,
    .connect .check, .connect (.sendall (.fails 3 "timed out"))]

theorem burst_decoded_firstBreaks :
    ∃ lists d, LineDecoder.feedAll {} [bytesLit "EgQ"] = .ok (lists, d)
      ∧ lists.flatten <+: [({ action := Action.SUBSCRIBE.value, address := mccc 0x04 } : Frame)]
      ∧ d.dropped = 0 := by
  have hstream : (Machine.run step (fresh "cooler" 13143 onlyCtemp true) firstBreaks).map
      (fun c => c.client.sock) = some (some (bytesLit "EgQ")) := rfl
  obtain ⟨c, hrun, hsock⟩ := Option.map_eq_some_iff.mp hstream
  have hchunks : [bytesLit "EgQ"].flatten = bytesLit "EgQ" := List.flatten_singleton
  obtain ⟨lists, d, hall, hfirst, hdropped, -⟩ := burst_decoded hrun hsock hchunks
  exact ⟨lists, d, hall, hfirst, hdropped⟩

end SyncLifecycle

end Ddmp
