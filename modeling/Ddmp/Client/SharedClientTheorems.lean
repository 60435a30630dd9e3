import Ddmp.Client.SharedClient
import Ddmp.Client.SyncClientTheorems

/-!
# What the lock of `send` is for

`sends_linearize`: however the threads are interleaved, the connection carries what it would carry
if every `sendall` were one step, taken in the order of the lock. So lines are never mixed
(`lines_whole`).
-/

namespace Ddmp

open Lib

/-- A call that has come to its end. -/
def SendPhase.IsOver : SendPhase → Prop
  | .returned | .raised _ => True
  | _ => False

/-- What a call of `send` does after its `sendall`. -/
def SendAll.phase : SendAll → SendPhase
  | done => .returned
  | fails _ text => .raised (.connectionClosed [.lit text])

theorem SendAll.isOver_phase (outcome : SendAll) : outcome.phase.IsOver := by
  cases outcome <;> trivial

/-- The turn as one step. -/
def Turn.act (t : Turn) : Connection.Act := .send t.frame t.outcome

namespace SharedClient

/-- The bytes are those, and what the call with the lock has written of its line. -/
def Written (s : SharedClient) (stream : Bytes) : Prop :=
  match s.lock with
  | some (.sender i) => ∃ frame line k, s.calls[i]? = some ⟨frame, .writing line k⟩
      ∧ frame.encodeLine = .ok line ∧ k ≤ line.length
      ∧ s.client.sock = some (stream ++ line.take k)
  | _ => s.client.sock = some stream

/-- The turns, each as one step, lead to the connection, but for the turn that is going on. -/
structure Linear (host : String) (s : SharedClient) (x : Connection) : Prop where
  atomic : Machine.run Connection.step (Connection.opened host) (s.turns.map Turn.act) = some x
  attached : x.client.closed = false
  written : ∃ stream, x.client.sock = some stream ∧ s.Written stream
  alone : ∀ i frame line k, s.calls[i]? = some ⟨frame, .writing line k⟩ →
    s.lock = some (.sender i)
  turns : ∀ t ∈ s.turns, s.calls[t.call]? = some ⟨t.frame, t.outcome.phase⟩
  nodup : (s.turns.map Turn.call).Nodup
  returned : ∀ i frame, s.calls[i]? = some ⟨frame, .returned⟩ → ⟨i, frame, .done⟩ ∈ s.turns
  carries : (∀ t ∈ s.turns, t.outcome = .done) → Carries x.stream (s.turns.map Turn.frame)

variable {host : String} {s s' : SharedClient} {x : Connection}

theorem linear_opened (host : String) : Linear host (opened host) (Connection.opened host) where
  atomic := rfl
  attached := rfl
  written := ⟨[], rfl, rfl⟩
  alone := fun _ _ _ _ hnone => by cases hnone
  turns := fun _ hnone => absurd hnone List.not_mem_nil
  nodup := List.nodup_nil
  returned := fun _ _ hnone => by cases hnone
  carries := fun _ => carries_nil

/-! ## A call goes on -/

/-- A call after another one, or the same one, has gone on. -/
theorem getElem?_set_cases {calls : List SendCall} {i j : ℕ} {call call' : SendCall}
    (h : (calls.set i call)[j]? = some call') :
    j = i ∧ call' = call ∨ i ≠ j ∧ calls[j]? = some call' := by
  by_cases hij : i = j
  · subst hij
    by_cases hlt : i < calls.length
    · rw [List.getElem?_set_self hlt] at h
      exact .inl ⟨rfl, (Option.some.inj h).symm⟩
    · rw [List.getElem?_eq_none (by rw [List.length_set]; exact Nat.le_of_not_lt hlt)] at h
      cases h
  · rw [List.getElem?_set_ne hij] at h
    exact .inr ⟨hij, h⟩

theorem getElem?_concat_cases {calls : List SendCall} {i : ℕ} {call call' : SendCall}
    (h : (calls ++ [call])[i]? = some call') : calls[i]? = some call' ∨ call' = call := by
  by_cases hlt : i < calls.length
  · rw [List.getElem?_append_left hlt] at h
    exact .inl h
  · rw [List.getElem?_append_right (Nat.le_of_not_lt hlt)] at h
    exact .inr (List.mem_singleton.mp (List.mem_of_getElem? h))

/-- What is written does not depend on the calls that are not writing. -/
theorem Written.set {stream : Bytes} (h : s.Written stream) {i : ℕ} {frame : Frame}
    {phase : SendPhase} (hi : s.calls[i]? = some ⟨frame, phase⟩)
    (hphase : ∀ line k, phase ≠ .writing line k) (call : SendCall) :
    Written { s with calls := s.calls.set i call } stream := by
  unfold Written at h ⊢
  dsimp only
  split
  · rename_i j hlock
    rw [hlock] at h
    obtain ⟨frame', line, k, hj, hwriting⟩ := h
    have hij : i ≠ j := by
      rintro rfl
      exact hphase line k (SendCall.mk.inj (Option.some.inj (hi.symm.trans hj))).2
    exact ⟨frame', line, k, by rwa [List.getElem?_set_ne hij], hwriting⟩
  · split at h
    · rename_i hnot _ _ hlock
      exact absurd hlock (hnot _)
    · exact h

namespace Linear

/-- A call that goes on has had no turn. -/
theorem ne_of_mem_turns (h : Linear host s x) {i : ℕ} {frame : Frame} {phase : SendPhase}
    (hi : s.calls[i]? = some ⟨frame, phase⟩) (hphase : ¬ phase.IsOver) :
    ∀ t ∈ s.turns, i ≠ t.call := by
  rintro t ht rfl
  obtain ⟨-, rfl⟩ := SendCall.mk.inj (Option.some.inj (hi.symm.trans (h.turns t ht)))
  exact hphase t.outcome.isOver_phase

/-- A call goes on, and does not return. -/
theorem goOn (h : Linear host s x) {i : ℕ} {frame : Frame} {phase next : SendPhase}
    (hi : s.calls[i]? = some ⟨frame, phase⟩) (hphase : ¬ phase.IsOver) (hnext : next ≠ .returned)
    {client : SyncClient} {lock : Option LockHolder}
    (hwritten : ∃ stream, x.client.sock = some stream
      ∧ Written { s with client, lock, calls := s.calls.set i ⟨frame, next⟩ } stream)
    (halone : ∀ line k, next = .writing line k → lock = some (.sender i))
    (hothers : ∀ j frame line k, i ≠ j → s.calls[j]? = some ⟨frame, .writing line k⟩ →
      lock = some (.sender j)) :
    Linear host { s with client, lock, calls := s.calls.set i ⟨frame, next⟩ } x where
  atomic := h.atomic
  attached := h.attached
  written := hwritten
  alone := fun j frame' line k hj => by
    rcases getElem?_set_cases hj with ⟨rfl, hcall⟩ | ⟨hij, hj⟩
    · exact halone line k (SendCall.mk.inj hcall).2.symm
    · exact hothers j frame' line k hij hj
  turns := fun t ht => by
    dsimp only
    rw [List.getElem?_set_ne (h.ne_of_mem_turns hi hphase t ht)]
    exact h.turns t ht
  nodup := h.nodup
  returned := fun j frame' hj => by
    rcases getElem?_set_cases hj with ⟨rfl, hcall⟩ | ⟨-, hj⟩
    · exact absurd (SendCall.mk.inj hcall).2.symm hnext
    · exact h.returned j frame' hj
  carries := h.carries

/-- A call that does not write goes on to something else than writing. -/
theorem goOn_idle (h : Linear host s x) {i : ℕ} {frame : Frame} {phase next : SendPhase}
    (hi : s.calls[i]? = some ⟨frame, phase⟩) (hphase : ¬ phase.IsOver)
    (hidle : ∀ line k, phase ≠ .writing line k) (hnext : next ≠ .returned)
    (hnext' : ∀ line k, next ≠ .writing line k) :
    Linear host { s with calls := s.calls.set i ⟨frame, next⟩ } x := by
  obtain ⟨stream, hsock, hwritten⟩ := h.written
  exact h.goOn hi hphase hnext ⟨stream, hsock, hwritten.set hi hidle _⟩
    (fun line k hline => absurd hline (hnext' line k))
    fun j frame line k _ => h.alone j frame line k

/-- What the call with the lock has written. -/
theorem written_of_writing (h : Linear host s x) {i : ℕ} {frame : Frame} {line : Bytes} {k : ℕ}
    (hi : s.calls[i]? = some ⟨frame, .writing line k⟩) :
    frame.encodeLine = .ok line ∧ k ≤ line.length
      ∧ ∃ stream, x.client.sock = some stream ∧ s.client.sock = some (stream ++ line.take k) := by
  obtain ⟨stream, hsock, hwritten⟩ := h.written
  rw [Written, h.alone i frame line k hi] at hwritten
  obtain ⟨frame', line', k', hi', hline, hle, hstream⟩ := hwritten
  obtain ⟨rfl, hphase⟩ := SendCall.mk.inj (Option.some.inj (hi'.symm.trans hi))
  obtain ⟨rfl, rfl⟩ := SendPhase.writing.inj hphase
  exact ⟨hline, hle, stream, hsock, hstream⟩

/-- A `sendall` is over. -/
theorem turn (h : Linear host s x) {i : ℕ} {frame : Frame} {line : Bytes} {k : ℕ}
    (hi : s.calls[i]? = some ⟨frame, .writing line k⟩) {outcome : SendAll}
    (houtcome : outcome.written line = line.take k) :
    Linear host { s with
      lock := none
      calls := s.calls.set i ⟨frame, outcome.phase⟩
      turns := s.turns ++ [⟨i, frame, outcome⟩] } (x.send frame outcome) := by
  obtain ⟨hline, -, stream, hsock, hstream⟩ := h.written_of_writing hi
  have hlt : i < s.calls.length := (List.getElem?_eq_some_iff.mp hi).1
  have hover : ¬ SendPhase.IsOver (.writing line k) := fun hover => hover
  have hsent : (x.send frame outcome).client
      = { x.client with sock := some (stream ++ outcome.written line) } := by
    rw [Connection.send, SyncClient.send]
    simp only [hsock, h.attached, hline]
    cases outcome <;> rfl
  constructor
  · rw [List.map_append, Machine.run_append, h.atomic]
    rfl
  · rw [hsent]
    exact h.attached
  · refine ⟨_, by rw [hsent], ?_⟩
    rw [houtcome]
    exact hstream
  · intro j frame' line' k' hj
    rcases getElem?_set_cases hj with ⟨rfl, hcall⟩ | ⟨hij, hj⟩
    · have hphase := (SendCall.mk.inj hcall).2
      cases outcome <;> cases hphase
    · -- only one call has the lock
      have hlock := (h.alone i frame line k hi).symm.trans (h.alone j frame' line' k' hj)
      exact absurd (LockHolder.sender.inj (Option.some.inj hlock)) hij
  · intro t ht
    rcases List.mem_append.mp ht with ht | ht
    · dsimp only
      rw [List.getElem?_set_ne (h.ne_of_mem_turns hi hover t ht)]
      exact h.turns t ht
    · rw [List.mem_singleton.mp ht]
      exact List.getElem?_set_self hlt
  · rw [List.map_append, List.nodup_append]
    refine ⟨h.nodup, List.nodup_singleton i, fun a ha b hb => ?_⟩
    obtain ⟨t, ht, rfl⟩ := List.mem_map.mp ha
    rw [List.mem_singleton.mp hb]
    exact (h.ne_of_mem_turns hi hover t ht).symm
  · intro j frame' hj
    rcases getElem?_set_cases hj with ⟨rfl, hcall⟩ | ⟨-, hj⟩
    · obtain ⟨rfl, hphase⟩ := SendCall.mk.inj hcall
      cases outcome with
      | done => exact List.mem_append_right _ (List.mem_singleton.mpr rfl)
      | fails n text => cases hphase
    · exact List.mem_append_left _ (h.returned j frame' hj)
  · intro hdone
    rw [List.forall_mem_append, List.forall_mem_singleton] at hdone
    have hlast : outcome = .done := hdone.2
    have hstream : (x.send frame outcome).stream = x.stream ++ line := by
      rw [Connection.stream, Connection.stream, hsent, hsock, hlast]
      rfl
    rw [hstream, List.map_append]
    exact (h.carries hdone.1).append (carries_line hline)

theorem step (h : Linear host s x) {act : Act} (hstep : s.step act = some s') :
    ∃ x', Linear host s' x' := by
  cases act with
  | call frame =>
    obtain rfl := Option.some.inj hstep
    have hkeep {i : ℕ} {c : SendCall} (hi : s.calls[i]? = some c) :
        (s.calls ++ [{ frame : SendCall }])[i]? = some c := by
      rw [List.getElem?_append_left (List.getElem?_eq_some_iff.mp hi).1]
      exact hi
    obtain ⟨stream, hsock, hwritten⟩ := h.written
    refine ⟨x, h.atomic, h.attached, ⟨stream, hsock, ?_⟩, fun i frame' line k hi => ?_,
      fun t ht => hkeep (h.turns t ht), h.nodup, fun i frame' hi => ?_, h.carries⟩
    · unfold Written at hwritten ⊢
      dsimp only
      split
      · rename_i i hlock
        rw [hlock] at hwritten
        obtain ⟨frame', line, k, hi, hwriting⟩ := hwritten
        exact ⟨frame', line, k, hkeep hi, hwriting⟩
      · split at hwritten
        · rename_i hnot _ _ hlock
          exact absurd hlock (hnot _)
        · exact hwritten
    · rcases getElem?_concat_cases hi with hi | hcall
      · exact h.alone i frame' line k hi
      · cases hcall
    · rcases getElem?_concat_cases hi with hi | hcall
      · exact h.returned i frame' hi
      · cases hcall
  | check i =>
    rw [SharedClient.step] at hstep
    split at hstep
    · rename_i frame hi
      have hover : ¬ SendPhase.IsOver .starting := fun hover => hover
      split at hstep
      · obtain rfl := Option.some.inj hstep
        exact ⟨x, h.goOn_idle hi hover (fun _ _ h => by cases h) (fun h => by cases h)
          fun _ _ h => by cases h⟩
      · obtain rfl := Option.some.inj hstep
        exact ⟨x, h.goOn_idle hi hover (fun _ _ h => by cases h) (fun h => by cases h)
          fun _ _ h => by cases h⟩
    · cases hstep
  | acquire i =>
    rw [SharedClient.step] at hstep
    split at hstep
    · rename_i frame hi hlock
      have hover : ¬ SendPhase.IsOver .checked := fun hover => hover
      split at hstep
      · rename_i line hline
        obtain rfl := Option.some.inj hstep
        obtain ⟨stream, hsock, hwritten⟩ := h.written
        rw [Written, hlock] at hwritten
        refine ⟨x, h.goOn hi hover (fun h => by cases h) ⟨stream, hsock, ?_⟩ (fun _ _ _ => rfl)
          fun j frame' line' k' _ hj => ?_⟩
        · have hlt : i < s.calls.length := (List.getElem?_eq_some_iff.mp hi).1
          refine ⟨frame, line, 0, List.getElem?_set_self hlt, hline, Nat.zero_le _, ?_⟩
          rw [List.take_zero, List.append_nil]
          exact hwritten
        · have hother := h.alone j frame' line' k' hj
          rw [hlock] at hother
          cases hother
      · obtain rfl := Option.some.inj hstep
        exact ⟨x, h.goOn_idle hi hover (fun _ _ h => by cases h) (fun h => by cases h)
          fun _ _ h => by cases h⟩
    · cases hstep
  | write i n =>
    rw [SharedClient.step] at hstep
    split at hstep
    · rename_i frame line k hi
      rw [Option.ite_none_right_eq_some] at hstep
      obtain ⟨⟨-, hle⟩, hstep⟩ := hstep
      obtain rfl := Option.some.inj hstep
      have hover : ¬ SendPhase.IsOver (.writing line k) := fun hover => hover
      obtain ⟨hline, -, stream, hsock, hstream⟩ := h.written_of_writing hi
      have hlock := h.alone i frame line k hi
      refine ⟨x, h.goOn hi hover (fun h => by cases h) ⟨stream, hsock, ?_⟩ (fun _ _ _ => hlock)
        fun j frame' line' k' _ hj => h.alone j frame' line' k' hj⟩
      have hlt : i < s.calls.length := (List.getElem?_eq_some_iff.mp hi).1
      rw [Written]
      dsimp only
      rw [hlock]
      refine ⟨frame, line, k + n, List.getElem?_set_self hlt, hline, hle, ?_⟩
      rw [hstream, Option.map_some, List.append_assoc, ← List.take_add]
    · cases hstep
  | finish i =>
    rw [SharedClient.step] at hstep
    split at hstep
    · rename_i frame line k hi
      rw [Option.ite_none_right_eq_some] at hstep
      obtain ⟨rfl, hstep⟩ := hstep
      obtain rfl := Option.some.inj hstep
      have hwhole : SendAll.done.written line = line.take line.length := List.take_length.symm
      exact ⟨_, h.turn hi hwhole⟩
    · cases hstep
  | fail i text =>
    rw [SharedClient.step] at hstep
    split at hstep
    · rename_i frame line k hi
      rw [Option.ite_none_right_eq_some] at hstep
      obtain ⟨-, hstep⟩ := hstep
      obtain rfl := Option.some.inj hstep
      have hpart : (SendAll.fails k text).written line = line.take k := rfl
      exact ⟨_, h.turn hi hpart⟩
    · cases hstep
  | takeLock =>
    rw [SharedClient.step] at hstep
    split at hstep
    · rename_i hlock
      obtain rfl := Option.some.inj hstep
      obtain ⟨stream, hsock, hwritten⟩ := h.written
      rw [Written, hlock] at hwritten
      refine ⟨x, h.atomic, h.attached, ⟨stream, hsock, hwritten⟩, fun i frame line k hi => ?_,
        h.turns, h.nodup, h.returned, h.carries⟩
      have hother := h.alone i frame line k hi
      rw [hlock] at hother
      cases hother
    · cases hstep
  | freeLock =>
    rw [SharedClient.step] at hstep
    split at hstep
    · rename_i hlock
      obtain rfl := Option.some.inj hstep
      obtain ⟨stream, hsock, hwritten⟩ := h.written
      rw [Written, hlock] at hwritten
      refine ⟨x, h.atomic, h.attached, ⟨stream, hsock, hwritten⟩, fun i frame line k hi => ?_,
        h.turns, h.nodup, h.returned, h.carries⟩
      have hother := h.alone i frame line k hi
      rw [hlock] at hother
      cases hother
    · cases hstep
  | setClosed =>
    obtain rfl := Option.some.inj hstep
    exact ⟨x, h.atomic, h.attached, h.written, h.alone, h.turns, h.nodup, h.returned, h.carries⟩

end Linear

theorem linear_of_run {acts : List Act} (hrun : Machine.run step (opened host) acts = some s) :
    ∃ x, Linear host s x :=
  Machine.run_preserves (I := fun s => ∃ x, Linear host s x)
    (fun _ _ _ ⟨_, h⟩ hstep => h.step hstep) hrun ⟨_, linear_opened host⟩

/-! ## What the threads do together -/

/-- Call `i` is in `sendall`, and has written the first `k` bytes of its line. -/
def Writes (s : SharedClient) (i : ℕ) (frame : Frame) (line : Bytes) (k : ℕ) : Prop :=
  s.calls[i]? = some ⟨frame, .writing line k⟩

theorem Linear.stream_of_writes (h : Linear host s x) {i : ℕ} {frame : Frame} {line : Bytes} {k : ℕ}
    (hi : s.Writes i frame line k) :
    frame.encodeLine = .ok line ∧ s.stream = x.stream ++ line.take k := by
  obtain ⟨hline, -, stream, hsock, hstream⟩ := h.written_of_writing hi
  refine ⟨hline, ?_⟩
  rw [SharedClient.stream, Connection.stream, hsock, hstream]
  rfl

theorem Linear.stream_of_not_writes (h : Linear host s x)
    (hnone : ∀ i frame line k, ¬ s.Writes i frame line k) : s.stream = x.stream := by
  obtain ⟨stream, hsock, hwritten⟩ := h.written
  unfold Written at hwritten
  split at hwritten
  · obtain ⟨frame, line, k, hi, -⟩ := hwritten
    exact absurd hi (hnone _ frame line k)
  · rw [SharedClient.stream, Connection.stream, hsock, hwritten]

/-- However the threads that call `send` and those that use the lock for something else are
interleaved, and however a `sendall` is cut: no two calls write at the same time, and the
connection carries what it would carry if every call were one step of `send`, taken in the order of
the lock, and then the part of a line that is being written. A call has returned exactly if its
step is one that succeeds; it raises what its step raises. -/
theorem sends_linearize {acts : List Act}
    (hrun : Machine.run step (opened host) acts = some s) :
    (∀ {i j frame frame' line line' k k'}, s.Writes i frame line k → s.Writes j frame' line' k' →
        i = j)
      ∧ (s.turns.map Turn.call).Nodup
      ∧ (∀ t ∈ s.turns, s.calls[t.call]? = some ⟨t.frame, t.outcome.phase⟩)
      ∧ (∀ (i : ℕ) (frame : Frame), s.calls[i]? = some ⟨frame, .returned⟩ →
        ⟨i, frame, .done⟩ ∈ s.turns)
      ∧ ∃ x, Machine.run Connection.step (Connection.opened host) (s.turns.map Turn.act) = some x
        ∧ ((∀ i frame line k, ¬ s.Writes i frame line k) → s.stream = x.stream)
        ∧ ∀ i frame line k, s.Writes i frame line k →
          frame.encodeLine = .ok line ∧ s.stream = x.stream ++ line.take k := by
  obtain ⟨x, h⟩ := linear_of_run hrun
  refine ⟨fun {i j frame frame' line line' k k'} hi hj => ?_, h.nodup, h.turns, h.returned, x,
    h.atomic, fun hnone => ?_, fun i frame line k hi => ?_⟩
  · have hlock := (h.alone i frame line k hi).symm.trans (h.alone j frame' line' k' hj)
    exact LockHolder.sender.inj (Option.some.inj hlock)
  · exact h.stream_of_not_writes hnone
  · exact h.stream_of_writes hi

/-- Two threads subscribe, and the second one is in the middle of its line. -/
def twoThreads : List Act :=
  [.call { action := Action.SUBSCRIBE.value, address := mccc 0x0B },
    .call { action := Action.SUBSCRIBE.value, address := mccc 0x05 }, .check 1, .check 0,
    .acquire 0, .write 0 4, .write 0 5, .finish 0, .takeLock, .freeLock, .acquire 1, .write 1 3]

theorem sends_linearize_twoThreads :
    ∃ s x, Machine.run step (opened "cooler") twoThreads = some s
      ∧ Machine.run Connection.step (Connection.opened "cooler") (s.turns.map Turn.act) = some x
      ∧ ∃ frame line, s.Writes 1 frame line 3 ∧ s.stream = x.stream ++ line.take 3 := by
  have hcalls : (Machine.run step (opened "cooler") twoThreads).map (fun s => s.calls[1]?)
      = some (some ⟨{ action := Action.SUBSCRIBE.value, address := mccc 0x05 },
        .writing (bytesLit "EgUAABo=\r") 3⟩) := rfl
  obtain ⟨s, hrun, hs⟩ := Option.map_eq_some_iff.mp hcalls
  obtain ⟨-, -, -, -, x, hatomic, -, hwriting⟩ := sends_linearize hrun
  exact ⟨s, x, hrun, hatomic, _, _, hs, (hwriting _ _ _ _ hs).2⟩

theorem done_step (h : ∀ t ∈ s.turns, t.outcome = .done) {act : Act}
    (hact : ∀ i text, act ≠ .fail i text) (hstep : s.step act = some s') :
    ∀ t ∈ s'.turns, t.outcome = .done := by
  cases act with
  | call frame | setClosed => exact Option.some.inj hstep ▸ h
  | takeLock | freeLock =>
    rw [step] at hstep
    split at hstep
    · exact Option.some.inj hstep ▸ h
    · cases hstep
  | check i | acquire i =>
    rw [step] at hstep
    split at hstep
    · split at hstep
      · exact Option.some.inj hstep ▸ h
      · exact Option.some.inj hstep ▸ h
    · cases hstep
  | write i n =>
    rw [step] at hstep
    split at hstep
    · rw [Option.ite_none_right_eq_some] at hstep
      exact Option.some.inj hstep.2 ▸ h
    · cases hstep
  | finish i =>
    rw [step] at hstep
    split at hstep
    · rw [Option.ite_none_right_eq_some] at hstep
      rw [← Option.some.inj hstep.2]
      exact List.forall_mem_append.mpr ⟨h, List.forall_mem_singleton.mpr rfl⟩
    · cases hstep
  | fail i text => exact absurd rfl (hact i text)

/-- As long as no `sendall` fails, no line is broken or mixed with another: in whatever chunks it
reads, the cooler decodes the frames whose `sendall` is over, in the order of the lock, then at most
the one that is being written, and drops nothing. -/
theorem lines_whole {acts : List Act} (hrun : Machine.run step (opened host) acts = some s)
    (hacts : ∀ i text, .fail i text ∉ acts) {chunks : List Bytes}
    (hchunks : chunks.flatten = s.stream) :
    ∃ lists d writing, LineDecoder.feedAll {} chunks = .ok (lists, d) ∧ d.dropped = 0
      ∧ s.turns.map Turn.frame <+: lists.flatten
      ∧ lists.flatten <+: s.turns.map Turn.frame ++ writing
      ∧ (writing = [] ∨ ∃ i frame line k, s.Writes i frame line k ∧ writing = [frame]) := by
  obtain ⟨x, h⟩ := linear_of_run hrun
  have hdone : ∀ t ∈ s.turns, t.outcome = .done :=
    Machine.run_records (I := fun _ s => ∀ t ∈ s.turns, t.outcome = .done) (C := fun _ => False)
      (D := fun act => ∀ i text, act ≠ .fail i text)
      (fun _ _ _ _ h hact hstep => done_step h hact hstep) hrun
      (fun act hact i text heq => hacts i text (heq ▸ hact)) (g := True)
      fun _ hnone => absurd hnone List.not_mem_nil
  have hcarries := h.carries hdone
  obtain ⟨part, whole, writing, hstream, hpart, hwhole, hwriting⟩ : ∃ part whole writing,
      s.stream = x.stream ++ part ∧ s.stream <+: whole
      ∧ Carries whole (s.turns.map Turn.frame ++ writing)
      ∧ (writing = [] ∨ ∃ i frame line k, s.Writes i frame line k ∧ writing = [frame]) := by
    by_cases hwrites : ∃ i frame line k, s.Writes i frame line k
    · obtain ⟨i, frame, line, k, hi⟩ := hwrites
      obtain ⟨hline, hstream⟩ := h.stream_of_writes hi
      refine ⟨line.take k, x.stream ++ line, [frame], hstream, ?_,
        hcarries.append (carries_line hline), .inr ⟨i, frame, line, k, hi, rfl⟩⟩
      rw [hstream]
      exact List.prefix_append_right_inj x.stream |>.mpr (List.take_prefix k line)
    · have hstream := h.stream_of_not_writes fun i frame line k hi =>
        hwrites ⟨i, frame, line, k, hi⟩
      refine ⟨[], s.stream, [], by rw [hstream, List.append_nil], List.prefix_refl _, ?_, .inl rfl⟩
      rw [hstream, List.append_nil]
      exact hcarries
  obtain ⟨hframes, hdropped⟩ := hwhole.reference_prefix hpart
  obtain ⟨lists, hall, hlists⟩ := LineDecoder.feedAll_eq chunks {} rfl
  rw [List.nil_append, hchunks] at hall hlists
  refine ⟨lists, _, writing, hall, (Nat.zero_add _).trans hdropped, ?_, hlists ▸ hframes, hwriting⟩
  rw [hlists, hstream, frames_append, hcarries.reference.1]
  exact List.prefix_append _ _

theorem lines_whole_twoThreads :
    ∃ lists d, LineDecoder.feedAll {} [bytesLit "EgsAABo", bytesLit "=\rEgU"] = .ok (lists, d)
      ∧ d.dropped = 0
      ∧ [{ action := Action.SUBSCRIBE.value, address := mccc 0x0B }] <+: lists.flatten := by
  have hboth : (Machine.run step (opened "cooler") twoThreads).map
      (fun s => (s.stream, s.turns.map Turn.frame)) = some (bytesLit "EgsAABo=\rEgU",
        [{ action := Action.SUBSCRIBE.value, address := mccc 0x0B }]) := rfl
  obtain ⟨s, hrun, hs⟩ := Option.map_eq_some_iff.mp hboth
  obtain ⟨hstream, hturns⟩ := Prod.mk.inj hs
  have hchunks : [bytesLit "EgsAABo", bytesLit "=\rEgU"].flatten = s.stream := hstream.symm
  have hacts : ∀ i text, .fail i text ∉ twoThreads := by simp [twoThreads]
  obtain ⟨lists, d, -, hall, hdropped, hfirst, -⟩ := lines_whole hrun hacts hchunks
  exact ⟨lists, d, hall, hdropped, hturns ▸ hfirst⟩

end SharedClient

end Ddmp
