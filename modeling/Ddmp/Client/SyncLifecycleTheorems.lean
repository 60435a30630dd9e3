import Ddmp.Client.SyncLifecycle

/-!
# A `connect` that raises

When a send of the subscribe burst fails, `connect` raises and leaves the socket and the reader
thread to themselves: `socketClosed_iff` shows that the socket is closed only by somebody else, who
must have called `close`.
-/

namespace Ddmp

open Lib

/-- `connect` has assigned `_sock` and goes on. -/
def Connecting.Attached : Connecting → Prop
  | assigned | burst _ | sending _ _ => True
  | _ => False

/-- `connect` is past the check of a send. -/
def Connecting.Sending : Connecting → Prop
  | sending _ _ => True
  | _ => False

theorem Connecting.Sending.attached {connecting : Connecting} (h : connecting.Sending) :
    connecting.Attached := by
  cases connecting with
  | sending => trivial
  | _ => exact h.elim

/-- The reader thread has left its loop and is about to clean up. -/
def Reading.Leaving : Reading → Prop
  | leaving _ => True
  | _ => False

namespace SyncLifecycle

/-- The actions that close the socket: the end of `close`, and the end of the reader thread. -/
def Act.ClosesSocket : Act → Prop
  | .close .release | .read .leave => True
  | _ => False

/-- `recv` does nothing but time out. -/
def Act.TimesOut : Act → Prop
  | .read (.recv outcome) => outcome = .timeout
  | _ => True

/-! ## What one step can do -/

/-- The steps, by action. -/
inductive Moves (c : SyncLifecycle) : Act → SyncLifecycle → Prop
  | raises {act : ConnectAct} (hgoing : ∀ e, c.connecting ≠ .raised e) (e : PyErr) :
      Moves c (.connect act) { c with connecting := .raised e }
  | calls (hready : c.connecting = .ready) :
      Moves c (.connect .call) { c with connecting := .opening }
  | creates (hopening : c.connecting = .opening) :
      Moves c (.connect (.create (.ok ())))
        { c with connecting := .opened, socket := some true }
  | assigns (hopened : c.connecting = .opened) :
      Moves c (.connect .assign)
        { c with connecting := .assigned, client := { c.client with sock := some [] } }
  | starts (hassigned : c.connecting = .assigned) {next : Connecting} (hnext : ¬ next.Sending) :
      Moves c (.connect .startReader) { c with connecting := next, reading := .checking }
  | returns (hburst : c.connecting = .burst []) :
      Moves c (.connect .check) { c with connecting := .returned }
  | checks {frame : Frame} {rest : List Frame} (hburst : c.connecting = .burst (frame :: rest))
      (hopen : c.client.closed = false) :
      Moves c (.connect .check) { c with connecting := .sending frame rest }
  | sends {frame : Frame} {rest : List Frame} (hsending : c.connecting = .sending frame rest)
      (line : Bytes) :
      Moves c (.connect (.sendall .done)) { c with
        connecting := .burst rest
        client := { c.client with sock := c.client.sock.map (· ++ line) } }
  | breaks {frame : Frame} {rest : List Frame} (hsending : c.connecting = .sending frame rest)
      (written : Bytes) {n : ℕ} {text : String} :
      Moves c (.connect (.sendall (.fails n text))) { c with
        connecting := .raised (.connectionClosed [.lit text])
        client := { c.client with sock := c.client.sock.map (· ++ written) } }
  | waits (hchecking : c.reading = .checking) :
      Moves c (.read .loop) { c with reading := .receiving }
  | stops (hchecking : c.reading = .checking) (hclosed : c.client.closed = true) :
      Moves c (.read .loop) { c with reading := .leaving none }
  | timesOut (hreceiving : c.reading = .receiving) :
      Moves c (.read (.recv .timeout)) { c with reading := .checking }
  | receives (hreceiving : c.reading = .receiving) {outcome : Recv} (hdata : outcome ≠ .timeout)
      (session : Session) (reading : Reading) :
      Moves c (.read (.recv outcome)) { c with session, reading }
  | leaves {reason : Option PyErr} (hleaving : c.reading = .leaving reason) :
      Moves c (.read .leave) { c with
        reading := .over
        closeReason := reason
        client := { c.client with closed := true }
        socket := some false }
  | closesAgain (hclosed : c.client.closed = true) : Moves c (.close .check) c
  | closes (hopen : c.client.closed = false) :
      Moves c (.close .check) { c with checked := c.checked + 1 }
  | sets (hchecked : 0 < c.checked) :
      Moves c (.close .set) { c with
        checked := c.checked - 1
        releasing := c.releasing + 1
        client := { c.client with closed := true } }
  | releases (hreleasing : 0 < c.releasing) :
      Moves c (.close .release) { c with
        releasing := c.releasing - 1
        socket := if c.client.sock.isSome then some false else c.socket }

variable {c c' : SyncLifecycle} {g : Prop}

theorem moves_of_stepConnect {act : ConnectAct} (hstep : c.stepConnect act = some c') :
    c.Moves (.connect act) c' := by
  cases act with
  | call =>
    rw [stepConnect] at hstep
    split at hstep
    · rename_i hready
      split at hstep
      · exact Option.some.inj hstep ▸ .raises (by simp [hready]) _
      · exact Option.some.inj hstep ▸ .calls hready
    · exact nomatch hstep
  | create outcome =>
    unfold stepConnect at hstep
    dsimp only at hstep
    split at hstep
    · rename_i hopening
      exact Option.some.inj hstep ▸ .raises (by simp [hopening]) _
    · rename_i hopening
      exact Option.some.inj hstep ▸ .creates hopening
    · exact nomatch hstep
  | assign =>
    rw [stepConnect] at hstep
    split at hstep
    · rename_i hopened
      exact Option.some.inj hstep ▸ .assigns hopened
    · exact nomatch hstep
  | startReader =>
    rw [stepConnect] at hstep
    split at hstep
    · rename_i hassigned
      refine Option.some.inj hstep ▸ .starts hassigned ?_
      split <;> exact id
    · exact nomatch hstep
  | check =>
    rw [stepConnect] at hstep
    split at hstep
    · rename_i hburst
      exact Option.some.inj hstep ▸ .returns hburst
    · rename_i hburst
      split at hstep
      · exact Option.some.inj hstep ▸ .raises (by simp [hburst]) _
      · rename_i hconnected
        rw [Bool.or_eq_true, not_or, Bool.not_eq_true (c.client.closed)] at hconnected
        exact Option.some.inj hstep ▸ .checks hburst hconnected.2
    · exact nomatch hstep
  | sendall outcome =>
    rw [stepConnect] at hstep
    split at hstep
    · rename_i hsending
      split at hstep
      · exact Option.some.inj hstep ▸ .raises (by simp [hsending]) _
      · split at hstep
        · exact Option.some.inj hstep ▸ .sends hsending _
        · exact Option.some.inj hstep ▸ .breaks hsending _
    · exact nomatch hstep

theorem moves_of_stepRead {act : ReadAct} (hstep : c.stepRead act = some c') :
    c.Moves (.read act) c' := by
  cases act with
  | loop =>
    rw [stepRead] at hstep
    split at hstep
    · rename_i hchecking
      split at hstep
      · rename_i hclosed
        exact Option.some.inj hstep ▸ .stops hchecking hclosed
      · exact Option.some.inj hstep ▸ .waits hchecking
    · exact nomatch hstep
  | recv outcome =>
    rw [stepRead] at hstep
    split at hstep
    · rename_i hreceiving
      dsimp only at hstep
      split at hstep
      · exact Option.some.inj hstep ▸ .timesOut hreceiving
      · exact Option.some.inj hstep ▸ .receives hreceiving (by simp) c.session _
      · exact Option.some.inj hstep ▸ .receives hreceiving (by simp) c.session _
      · split at hstep
        · exact Option.some.inj hstep ▸ .receives hreceiving (by simp) _ _
        · exact Option.some.inj hstep ▸ .receives hreceiving (by simp) c.session _
    · exact nomatch hstep
  | leave =>
    rw [stepRead] at hstep
    split at hstep
    · rename_i hleaving
      exact Option.some.inj hstep ▸ .leaves hleaving
    · exact nomatch hstep

theorem moves_of_stepClose {act : CloseAct} (hstep : c.stepClose act = some c') :
    c.Moves (.close act) c' := by
  cases act with
  | check =>
    rw [stepClose, Option.some_inj] at hstep
    split at hstep
    · rename_i hclosed
      exact hstep ▸ .closesAgain hclosed
    · rename_i hopen
      exact hstep ▸ .closes (Bool.eq_false_iff.mpr hopen)
  | set =>
    rw [stepClose] at hstep
    split at hstep
    · rename_i hchecked
      exact Option.some.inj hstep ▸ .sets hchecked
    · exact nomatch hstep
  | release =>
    rw [stepClose] at hstep
    split at hstep
    · rename_i hreleasing
      exact Option.some.inj hstep ▸ .releases hreleasing
    · exact nomatch hstep

/-- Every step is one of the moves. -/
theorem moves_of_step {act : Act} (hstep : c.step act = some c') : c.Moves act c' := by
  cases act with
  | connect act => exact moves_of_stepConnect hstep
  | read act => exact moves_of_stepRead hstep
  | close act => exact moves_of_stepClose hstep

/-! ## Who closes the socket -/

/-- Up to the send that fails. `g` says whether an action that closes the socket has been
taken. -/
structure Tracked (g : Prop) (c : SyncLifecycle) : Prop where
  quiet : c.client.closed = false → c.releasing = 0 ∧ ¬ g
  released : c.socket = some false → g
  attached : c.connecting.Attached → c.client.sock.isSome
  sending : g → c.connecting.Sending → c.socket = some false

theorem tracked_fresh (host : String) (port : ℕ) (session : Session) (subscribe : Bool) :
    Tracked False (fresh host port session subscribe) where
  quiet _ := ⟨rfl, id⟩
  released h := by cases h
  attached := False.elim
  sending h := h.elim

/-- `connect` goes on without a look at the socket, the reader thread is somewhere else. -/
theorem Tracked.goOn (h : Tracked g c) {connecting : Connecting}
    (hattached : connecting.Attached → c.connecting.Attached)
    (hsending : connecting.Sending → c.connecting.Sending ∨ c.client.closed = false)
    (reading : Reading) (session : Session) :
    Tracked g { c with connecting, reading, session } where
  quiet := h.quiet
  released := h.released
  attached hnext := h.attached (hattached hnext)
  sending hg hnext := by
    rcases hsending hnext with hsending | hopen
    · exact h.sending hg hsending
    · exact absurd hg (h.quiet hopen).2

theorem Tracked.step (h : Tracked g c) {act : Act} (hstep : c.step act = some c') :
    Tracked (g ∨ act.ClosesSocket) c' := by
  have hkept (hact : ¬ act.ClosesSocket) (h' : Tracked g c') :
      Tracked (g ∨ act.ClosesSocket) c' := by
    rwa [or_iff_left hact]
  cases moves_of_step hstep with
  | raises hgoing e => exact hkept id (h.goOn False.elim False.elim _ _)
  | calls hready => exact hkept id (h.goOn False.elim False.elim _ _)
  | returns hburst => exact hkept id (h.goOn False.elim False.elim _ _)
  | creates hopening =>
    exact hkept id ⟨h.quiet, fun hsocket => (by cases hsocket), False.elim, fun _ => False.elim⟩
  | assigns hopened =>
    exact hkept id ⟨h.quiet, h.released, fun _ => rfl, fun _ => False.elim⟩
  | starts hassigned hnext =>
    have hattached : c.connecting.Attached := by rw [hassigned]; trivial
    exact hkept id (h.goOn (fun _ => hattached) (fun hsending => absurd hsending hnext) _ _)
  | checks hburst hopen =>
    have hattached : c.connecting.Attached := by rw [hburst]; trivial
    exact hkept id (h.goOn (fun _ => hattached) (fun _ => .inr hopen) _ _)
  | sends hsending line =>
    have hsock : c.client.sock.isSome := h.attached (by rw [hsending]; trivial)
    refine hkept id ⟨h.quiet, h.released, fun _ => ?_, fun _ => False.elim⟩
    rw [Option.isSome_map]
    exact hsock
  | breaks hsending written =>
    exact hkept id ⟨h.quiet, h.released, False.elim, fun _ => False.elim⟩
  | waits hchecking => exact hkept id (h.goOn id .inl _ _)
  | stops hchecking hclosed => exact hkept id (h.goOn id .inl _ _)
  | timesOut hreceiving => exact hkept id (h.goOn id .inl _ _)
  | receives hreceiving hdata session reading => exact hkept id (h.goOn id .inl _ _)
  | leaves hleaving =>
    exact ⟨fun hopen => (by cases hopen), fun _ => .inr trivial, h.attached, fun _ _ => rfl⟩
  | closesAgain hclosed => exact hkept id h
  | closes hopen => exact hkept id ⟨h.quiet, h.released, h.attached, h.sending⟩
  | sets hchecked =>
    exact hkept id ⟨fun hopen => (by cases hopen), h.released, h.attached, h.sending⟩
  | releases hreleasing =>
    refine ⟨fun hopen => ?_, fun _ => .inr trivial, h.attached, fun _ hsending => ?_⟩
    · have hnone := (h.quiet hopen).1
      omega
    · -- a client that sends has its socket in `_sock`
      exact if_pos (h.attached hsending.attached)

/-- After the send that fails. -/
structure Abandoned (g : Prop) (c : SyncLifecycle) : Prop where
  raised : ∃ e, c.connecting = .raised e
  attached : c.client.sock.isSome
  quiet : c.client.closed = false → c.releasing = 0 ∧ ¬ g
  released : c.socket = some false ↔ g

theorem sending_of_sendall {outcome : SendAll}
    (hstep : c.step (.connect (.sendall outcome)) = some c') : c.connecting.Sending := by
  change c.stepConnect (.sendall outcome) = some c' at hstep
  rw [stepConnect] at hstep
  split at hstep
  · rename_i hsending
    rw [hsending]
    trivial
  · cases hstep

/-- A send that fails ends `connect`, with the socket as it is. -/
theorem Tracked.abandoned (h : Tracked g c) {n : ℕ} {text : String}
    (hstep : c.step (.connect (.sendall (.fails n text))) = some c') : Abandoned g c' := by
  have hmoves := moves_of_step hstep
  have hsending : c.connecting.Sending := sending_of_sendall hstep
  have hquiet : c.client.closed = false → c.releasing = 0 ∧ ¬ g := h.quiet
  have hreleased : c.socket = some false ↔ g :=
    ⟨h.released, fun hg => h.sending hg hsending⟩
  have hsock : c.client.sock.isSome := h.attached hsending.attached
  cases hmoves with
  | raises hgoing e => exact ⟨⟨e, rfl⟩, hsock, hquiet, hreleased⟩
  | breaks _ written =>
    refine ⟨⟨_, rfl⟩, ?_, hquiet, hreleased⟩
    rw [Option.isSome_map]
    exact hsock

theorem Abandoned.step (h : Abandoned g c) {act : Act} (hstep : c.step act = some c') :
    Abandoned (g ∨ act.ClosesSocket) c' := by
  obtain ⟨e, hraised⟩ := h.raised
  have hkept (hact : ¬ act.ClosesSocket) (h' : Abandoned g c') :
      Abandoned (g ∨ act.ClosesSocket) c' := by
    rwa [or_iff_left hact]
  cases moves_of_step hstep with
  | raises hgoing => exact absurd hraised (hgoing e)
  | calls hother | creates hother | assigns hother | starts hother | returns hother
  | checks hother | sends hother | breaks hother => simp [hraised] at hother
  | waits | stops | timesOut | receives | closesAgain | closes =>
    exact hkept id ⟨h.raised, h.attached, h.quiet, h.released⟩
  | sets => exact hkept id ⟨h.raised, h.attached, fun hopen => (by cases hopen), h.released⟩
  | leaves =>
    exact ⟨h.raised, h.attached, fun hopen => (by cases hopen), by simp [Act.ClosesSocket]⟩
  | releases hreleasing =>
    refine ⟨h.raised, h.attached, fun hopen => ?_, ?_⟩
    · have hnone := (h.quiet hopen).1
      omega
    · simp [Act.ClosesSocket, h.attached]

/-! ## Who has called `close` -/

/-- `g` says whether a call of `close` has set `_closed`. -/
structure ClosedBy (g : Prop) (c : SyncLifecycle) : Prop where
  closed : c.client.closed = true → g
  leaving : c.reading.Leaving → g

theorem ClosedBy.step (h : ClosedBy g c) {act : Act} (hact : act.TimesOut)
    (hstep : c.step act = some c') : ClosedBy (g ∨ act = .close .set) c' := by
  suffices hclosed : (c'.client.closed = true → g ∨ act = .close .set)
      ∧ (c'.reading.Leaving → g) from ⟨hclosed.1, fun hleaving => .inl (hclosed.2 hleaving)⟩
  cases moves_of_step hstep with
  | starts | waits | timesOut => exact ⟨fun hclosed => .inl (h.closed hclosed), False.elim⟩
  | stops _ hclosed => exact ⟨fun hclosed => .inl (h.closed hclosed), fun _ => h.closed hclosed⟩
  | receives _ hdata => exact absurd hact hdata
  | leaves hleaving =>
    exact ⟨fun _ => .inl (h.leaving (by rw [hleaving]; trivial)), False.elim⟩
  | sets => exact ⟨fun _ => .inr rfl, h.leaving⟩
  | raises | calls | creates | assigns | returns | checks | sends | breaks | closesAgain | closes
  | releases => exact ⟨fun hclosed => .inl (h.closed hclosed), h.leaving⟩

/-! ## The whole run -/

/-- Only `close` sets `_closed` while the reader thread receives nothing but timeouts. -/
theorem close_of_closed {host : String} {port : ℕ} {session : Session} {subscribe : Bool}
    {acts : List Act} (hrun : Machine.run step (fresh host port session subscribe) acts = some c)
    (htimeouts : ∀ act ∈ acts, act.TimesOut) (hclosed : c.client.closed = true) :
    .close .set ∈ acts := by
  have hfresh : ClosedBy False (fresh host port session subscribe) :=
    ⟨fun h => (by cases h), False.elim⟩
  have hclosedBy : ClosedBy (False ∨ ∃ act ∈ acts, act = .close .set) c := by
    refine Machine.run_records ?_ hrun htimeouts hfresh
    exact fun _ _ _ _ h hact hstep => h.step hact hstep
  obtain ⟨act, hact, rfl⟩ := (hclosedBy.closed hclosed).resolve_left id
  exact hact

/-- Once a send has failed, `connect` has raised, and the state shows whether the socket has been
closed by somebody. -/
theorem abandoned_of_run {host : String} {port : ℕ} {session : Session} {subscribe : Bool}
    {acts : List Act} (hrun : Machine.run step (fresh host port session subscribe) acts = some c)
    {n : ℕ} {text : String} (hfails : .connect (.sendall (.fails n text)) ∈ acts) :
    Abandoned (∃ act ∈ acts, act.ClosesSocket) c := by
  obtain ⟨before, after, rfl⟩ := List.append_of_mem hfails
  rw [Machine.run_append, Option.bind_eq_some_iff] at hrun
  obtain ⟨c₁, hbefore, hrest⟩ := hrun
  obtain ⟨c₂, hbreaks, hafter⟩ := (Machine.run_cons_some step).mp hrest
  have htracked : Tracked (False ∨ ∃ act ∈ before, act.ClosesSocket) c₁ := by
    refine Machine.run_records (D := fun _ => True) ?_ hbefore (fun _ _ => trivial)
      (tracked_fresh host port session subscribe)
    exact fun _ _ _ _ h _ hstep => h.step hstep
  have habandoned : Abandoned
      ((False ∨ ∃ act ∈ before, act.ClosesSocket) ∨ ∃ act ∈ after, act.ClosesSocket) c := by
    refine Machine.run_records (D := fun _ => True) ?_ hafter (fun _ _ => trivial)
      (htracked.abandoned hbreaks)
    exact fun _ _ _ _ h _ hstep => h.step hstep
  have hsame : (∃ act ∈ before ++ .connect (.sendall (.fails n text)) :: after, act.ClosesSocket)
      ↔ (False ∨ ∃ act ∈ before, act.ClosesSocket) ∨ ∃ act ∈ after, act.ClosesSocket := by
    simp [Act.ClosesSocket, or_and_right, exists_or]
  rwa [propext hsame]

/-- `connect` with a subscribe burst that breaks off, while the reader thread receives nothing
but timeouts: it raises, and the socket is closed and `connected` false exactly if `close`, or
the reader thread at its end, has closed the socket, for which another thread must have called
`close`. -/
theorem socketClosed_iff {host : String} {port : ℕ} {session : Session} {subscribe : Bool}
    {acts : List Act} (hrun : Machine.run step (fresh host port session subscribe) acts = some c)
    {n : ℕ} {text : String} (hfails : .connect (.sendall (.fails n text)) ∈ acts)
    (htimeouts : ∀ act ∈ acts, act.TimesOut) :
    (∃ e, c.connecting = .raised e)
      ∧ (c.socket = some false ∧ c.client.connected = false ↔ ∃ act ∈ acts, act.ClosesSocket)
      ∧ ((∃ act ∈ acts, act.ClosesSocket) → .close .set ∈ acts) := by
  have habandoned := abandoned_of_run hrun hfails
  have hclosed (hcloses : ∃ act ∈ acts, act.ClosesSocket) : c.client.closed = true := by
    by_contra hopen
    exact (habandoned.quiet (Bool.eq_false_iff.mpr hopen)).2 hcloses
  refine ⟨habandoned.raised, ⟨?_, ?_⟩, ?_⟩
  · rintro ⟨hsocket, -⟩
    exact habandoned.released.mp hsocket
  · intro hcloses
    refine ⟨habandoned.released.mpr hcloses, ?_⟩
    rw [SyncClient.connected, hclosed hcloses, Bool.not_true, Bool.and_false]
  · exact fun hcloses => close_of_closed hrun htimeouts (hclosed hcloses)

/-- The calling thread of a `connect` whose first send times out. -/
def burstTimesOut : List Act :=
  [.connect .call, .connect (.create (.ok ())), .connect .assign, .connect .startReader,
    .connect .check, .connect (.sendall (.fails 0 "timed out"))]

/-- A second thread calls `close` just before. -/
theorem socketClosed_iff_closedMeanwhile :
    ∃ c, Machine.run step (fresh "cooler" 13143 {} true)
        (.close .check :: burstTimesOut ++ [.close .set, .close .release]) = some c
      ∧ c.socket = some false ∧ c.client.connected = false := by
  have hsome : (Machine.run step (fresh "cooler" 13143 {} true)
      (.close .check :: burstTimesOut ++ [.close .set, .close .release])).isSome := rfl
  obtain ⟨c, hrun⟩ := Option.isSome_iff_exists.mp hsome
  have hfails : .connect (.sendall (.fails 0 "timed out")) ∈
      .close .check :: burstTimesOut ++ [.close .set, .close .release] := by simp [burstTimesOut]
  have hreleased := socketClosed_iff hrun hfails (by simp [burstTimesOut, Act.TimesOut])
  exact ⟨c, hrun, hreleased.2.1.mpr (by simp [burstTimesOut, Act.ClosesSocket])⟩

/-- The peer stays connected but stops reading: `connect` raises, and the socket stays open. -/
theorem not_released_after_timeout :
    ∃ c, Machine.run step (fresh "cooler" 13143 {} true)
        (burstTimesOut ++ [.read .loop, .read (.recv .timeout)]) = some c
      ∧ c.connecting = .raised (.connectionClosed [.lit "timed out"])
      ∧ c.socket = some true ∧ c.client.connected = true :=
  ⟨_, rfl, rfl, rfl, rfl⟩

end SyncLifecycle

end Ddmp
