import Ddmp.Cli.Command
import Ddmp.Client.SyncBurstTheorems
import Ddmp.Session.AllowListTheorems

/-!
# What the commands write

Whatever happens, the cooler reads the first frames of the subscribe burst, then at most one SET,
and none without `--yes`. `wire_safe` says so for every state of the process; `exit_code` says what
the exit code tells about it.
-/

namespace Ddmp

open Lib

/-- A call of `send` that returns has written the line, and one that raises a part of it or
nothing. -/
theorem SyncClient.send_cases (client : SyncClient) (frame : Frame) (outcome : SendAll)
    {before : Bytes} (hsock : client.sock = some before) :
    (∃ e, (client.send frame outcome).1 = .error e
      ∧ (client.send frame outcome).2.sock = some before)
    ∨ ∃ line, frame.encodeLine = .ok line
      ∧ ((client.send frame outcome).1 = .ok ()
          ∧ (client.send frame outcome).2.sock = some (before ++ line)
        ∨ ∃ e part, (client.send frame outcome).1 = .error e ∧ part <+: line
          ∧ (client.send frame outcome).2.sock = some (before ++ part)) := by
  cases hclosed : client.closed with
  | true =>
    refine .inl ⟨.connectionClosed [.lit "not connected to ", .val (.str client.host), .lit ":",
      .val (.int client.port)], ?_⟩
    simp only [send, hsock, hclosed, and_self]
  | false =>
    cases hline : frame.encodeLine with
    | error e => exact .inl ⟨e, by simp only [send, hsock, hclosed, hline, and_self]⟩
    | ok line =>
      refine .inr ⟨line, rfl, ?_⟩
      cases outcome with
      | done => exact .inl (by simp only [send, hsock, hclosed, hline, SendAll.written, and_self])
      | fails n text =>
        have hresult : client.send frame (.fails n text) = (.error (.connectionClosed [.lit text]),
            { client with sock := some (before ++ line.take n) }) := by
          simp only [send, hsock, hclosed, hline, SendAll.written]
        rw [hresult]
        exact .inr ⟨_, line.take n, rfl, List.take_prefix n line, rfl⟩

/-- The topic that a command names. -/
def Subcommand.topicName : Subcommand → String
  | setTemp _ => "csettemp"
  | set name _ => name

theorem topic_of_name {t : Topic} {name : String} (ht : t ∈ topics) (hname : t.name = name) :
    topic (.name name) = .ok t := by
  rw [topic, topicByName_eq_some.mpr ⟨ht, hname⟩]

/-- `_write` is called for the topic that the command names. -/
theorem Subcommand.topic_of_target {subcommand : Subcommand} {name : String} {value : Value}
    (h : subcommand.target = .ok (some (name, value))) :
    ∃ t ∈ topics, topic (.name subcommand.topicName) = .ok t ∧ t.name = name := by
  cases subcommand with
  | setTemp celsius =>
    obtain ⟨rfl, -⟩ := Prod.mk.inj (Option.some.inj (Except.ok.inj h))
    have hrow : ∃ t ∈ topics, t.name = "csettemp" := by decide
    obtain ⟨t, ht, hname⟩ := hrow
    exact ⟨t, ht, topic_of_name ht hname, hname⟩
  | set topicName text =>
    obtain ⟨t, ht, hrest⟩ := Lib.Fallible.bind_eq_ok.mp h
    have hmem := mem_topics_of_topic ht nofun
    split at hrest
    · obtain ⟨hname, -⟩ := Prod.mk.inj (Option.some.inj (Except.ok.inj hrest))
      exact ⟨t, hmem, ht, hname⟩
    · exact absurd (Except.ok.inj hrest) (Option.some_ne_none _).symm

namespace WriteCommand

/-- A SET for what `_write` was called with, which `--yes` allows. -/
structure Asked (args : WriteArgs) (frame : Frame) : Prop where
  yes : args.yes = true
  built : ∃ (session : Session) (expectation : WriteExpectation),
    session.setFrame (.name args.name) args.value args.compartment = .ok (frame, expectation)

/-- The line of such a SET has been written after these bytes. -/
def Sent (before : Bytes) (w : WriteCommand) : Prop :=
  ∃ frame line, Asked w.args frame ∧ frame.encodeLine = .ok line
    ∧ w.client.sock = some (before ++ line)

/-- What `_write` has written after these bytes, by where it is. -/
def Written (before : Bytes) (w : WriteCommand) : Prop :=
  match w.main with
  | .waiting => w.client.sock = some before
  | .prepared frame | .cleared frame => w.client.sock = some before ∧ Asked w.args frame
  | .sent | .testing | .draining | .checking _ | .sleeping _ => w.Sent before
  | .returned code => code = 2 ∧ w.args.yes = false ∧ w.client.sock = some before
    ∨ code ∈ [0, 3, 4] ∧ w.Sent before
  | .raised _ => w.client.sock = some before
    ∨ ∃ frame line part, Asked w.args frame ∧ frame.encodeLine = .ok line ∧ part <+: line
      ∧ w.client.sock = some (before ++ part)

variable {w w' : WriteCommand} {before : Bytes}

theorem Written.main (h : w.Written before) {act : MainAct} (hstep : w.stepMain act = some w') :
    w'.Written before := by
  unfold Written at h
  cases act with
  | setFrame =>
    rw [stepMain] at hstep
    split at hstep
    · rename_i hmain
      rw [hmain] at h
      split at hstep
      · exact Option.some.inj hstep ▸ .inl h
      · rename_i frame expectation hset
        rw [← Option.some.inj hstep]
        unfold Written
        cases hyes : w.args.yes with
        -- with --yes the frame goes on to send, without it the command returns 2
        | true => exact ⟨h, hyes, _, _, hset⟩
        | false => exact .inl ⟨rfl, rfl, h⟩
    · cases hstep
  | clear =>
    rw [stepMain] at hstep
    split at hstep
    · rename_i frame hmain
      rw [hmain] at h
      exact Option.some.inj hstep ▸ h
    · cases hstep
  | send outcome =>
    rw [stepMain] at hstep
    split at hstep
    · rename_i frame hmain
      rw [hmain] at h
      obtain ⟨hsock, hasked⟩ := h
      have hcases := w.client.send_cases frame outcome hsock
      split at hstep
      · rename_i client hsend
        rw [hsend] at hcases
        rw [← Option.some.inj hstep]
        rcases hcases with ⟨e, hresult, -⟩ | ⟨line, hline, ⟨-, hdone⟩ | ⟨e, part, hresult, -⟩⟩
        · cases hresult
        -- the whole line is in the stream
        · exact ⟨frame, line, hasked, hline, hdone⟩
        · cases hresult
      · rename_i e client hsend
        rw [hsend] at hcases
        rw [← Option.some.inj hstep]
        rcases hcases with ⟨-, -, hsame⟩ | ⟨line, hline, ⟨hresult, -⟩ | ⟨-, part, -, hpart, hfails⟩⟩
        · exact .inl hsame
        · cases hresult
        -- a part of the line may have been written when sendall fails
        · exact .inr ⟨frame, line, part, hasked, hline, hpart, hfails⟩
    · cases hstep
  | setDeadline =>
    rw [stepMain] at hstep
    split at hstep
    · rename_i hmain
      rw [hmain] at h
      exact Option.some.inj hstep ▸ h
    · cases hstep
  | test =>
    rw [stepMain] at hstep
    split at hstep
    · rename_i hmain
      rw [hmain] at h
      rw [← Option.some.inj hstep]
      unfold Written
      dsimp only
      split_ifs
      · exact h
      · exact .inr ⟨by decide, h⟩
    · cases hstep
  | drain =>
    rw [stepMain] at hstep
    split at hstep
    · rename_i hmain
      rw [hmain] at h
      exact Option.some.inj hstep ▸ h
    · cases hstep
  | check =>
    rw [stepMain] at hstep
    split at hstep
    · rename_i hmain
      rw [hmain] at h
      exact Option.some.inj hstep ▸ h
    · rename_i e pending expectation hmain hexpectation
      rw [hmain] at h
      dsimp only at hstep
      rw [← Option.some.inj hstep]
      unfold Written
      dsimp only
      -- the verdict is final, or the next event is looked at
      cases (expectation.matches e.2).1 with
      | none => exact h
      | some verdict =>
        cases verdict with
        | true => exact .inr ⟨by decide, h⟩
        | false => exact .inr ⟨by decide, h⟩
    · cases hstep
  | wake =>
    rw [stepMain] at hstep
    split at hstep
    · rename_i hmain
      rw [hmain] at h
      split at hstep
      · exact Option.some.inj hstep ▸ h
      · cases hstep
    · cases hstep

/-- A step of the reader thread or of the clock. -/
theorem Written.goOn (h : w.Written before) (hmain : w'.main = w.main) (hargs : w'.args = w.args)
    (hsock : w'.client.sock = w.client.sock) : w'.Written before := by
  unfold Written Sent at h ⊢
  rw [hmain, hargs, hsock]
  exact h

theorem Written.step (h : w.Written before) {act : Act} (hstep : w.step act = some w') :
    w'.Written before := by
  cases act with
  | main act => exact h.main hstep
  | feed chunk =>
    rw [WriteCommand.step] at hstep
    split at hstep
    · exact Option.some.inj hstep ▸ h.goOn rfl rfl rfl
    · cases hstep
  | record =>
    rw [WriteCommand.step] at hstep
    split at hstep
    · cases hstep
    · exact Option.some.inj hstep ▸ h.goOn rfl rfl rfl
  | tick dt =>
    rw [WriteCommand.step] at hstep
    split at hstep
    · exact Option.some.inj hstep ▸ h.goOn rfl rfl rfl
    · cases hstep

/-- `_write` does not change what it was called with. -/
theorem args_step {act : Act} (hstep : w.step act = some w') : w'.args = w.args := by
  cases act with
  | main act =>
    rw [WriteCommand.step] at hstep
    cases act <;> unfold stepMain at hstep <;> dsimp only at hstep <;> split at hstep <;>
      grind
  | _ => grind [WriteCommand.step]

end WriteCommand

namespace Command

/-- What `_connect` sends. -/
def burst : List Frame := ({} : Session).subscribeFrames

variable (subcommand : Subcommand) (options : CommandOptions)

/-- The frame is a SET for what the command asks for, and the command may send it. -/
structure Sets (frame : Frame) : Prop where
  yes : options.yes = true
  built : ∃ (name : String) (value : Value) (session : Session) (expectation : WriteExpectation),
    subcommand.target = .ok (some (name, value))
      ∧ session.setFrame (.name name) value options.compartment = .ok (frame, expectation)

/-- The stream is a part of the lines of the burst and of at most one such SET. -/
def Partly (stream : Bytes) : Prop :=
  ∃ sets sent whole, (sets = [] ∨ ∃ frame, sets = [frame] ∧ Sets subcommand options frame)
    ∧ sent <+: burst ++ sets ∧ stream <+: whole ∧ Carries whole sent

/-- What an exit code tells about the stream. -/
def Outcome (code : ℕ) (sock : Option Bytes) : Prop :=
  code = 1 ∧ (∀ stream, sock = some stream → Partly subcommand options stream)
    ∨ code = 2 ∧ (sock = none ∨ options.yes = false
      ∧ ∃ stream, sock = some stream ∧ Carries stream burst)
    ∨ code ∈ [0, 3, 4] ∧ ∃ stream frame, sock = some stream ∧ Sets subcommand options frame
      ∧ Carries stream (burst ++ [frame])

/-- What has been written when the process is at this stage. -/
def Progress (c : Command) : Prop :=
  match c.stage with
  | .parsed => True
  | .connecting life _ => SyncLifecycle.BurstInv burst life
  | .writing write _ => ∃ before name value, Carries before burst ∧ write.Written before
    ∧ c.subcommand.target = .ok (some (name, value))
    ∧ write.args = ⟨name, value, c.options.compartment, c.options.yes, c.options.echoTimeout⟩
  | .exited code sock => Outcome c.subcommand c.options code sock

variable {c c' : Command} {subcommand options}

/-- A SET that `_write` was asked for is one that the command asks for. -/
theorem sets_of_asked {args : WriteArgs} {name : String} {value : Value} {frame : Frame}
    (htarget : subcommand.target = .ok (some (name, value)))
    (hargs : args = ⟨name, value, options.compartment, options.yes, options.echoTimeout⟩)
    (h : WriteCommand.Asked args frame) : Sets subcommand options frame := by
  subst hargs
  obtain ⟨hyes, session, expectation, hset⟩ := h
  exact ⟨hyes, name, value, session, expectation, htarget, hset⟩

theorem partly_of_burst {stream : Bytes} {sent : List Frame} {whole : Bytes}
    (hsent : sent <+: burst) (hstream : stream <+: whole) (hcarries : Carries whole sent) :
    Partly subcommand options stream :=
  ⟨[], sent, whole, .inl rfl, by rwa [List.append_nil], hstream, hcarries⟩

theorem partly_of_sets {before line part : Bytes} {frame : Frame} (hburst : Carries before burst)
    (hframe : Sets subcommand options frame) (hline : frame.encodeLine = .ok line)
    (hpart : part <+: line) :
    Partly subcommand options (before ++ part) :=
  ⟨[frame], burst ++ [frame], before ++ line, .inr ⟨frame, rfl, hframe⟩, List.prefix_refl _,
    (List.prefix_append_right_inj before).mpr hpart, hburst.append (carries_line hline)⟩

/-- What `_write` has written at each point. -/
theorem partly_of_written {write : WriteCommand} {before stream : Bytes} {name : String}
    {value : Value} (hburst : Carries before burst) (hwritten : write.Written before)
    (htarget : subcommand.target = .ok (some (name, value)))
    (hargs : write.args = ⟨name, value, options.compartment, options.yes, options.echoTimeout⟩)
    (hsock : write.client.sock = some stream) : Partly subcommand options stream := by
  have hnone (hsame : write.client.sock = some before) : Partly subcommand options stream := by
    obtain rfl := Option.some.inj (hsock.symm.trans hsame)
    exact partly_of_burst (List.prefix_refl burst) (List.prefix_refl stream) hburst
  -- the stages differ in nothing but whether the SET is in the stream
  have hwhole (hsent : write.Sent before) : Partly subcommand options stream := by
    obtain ⟨frame, line, hasked, hline, hsock'⟩ := hsent
    obtain rfl := Option.some.inj (hsock.symm.trans hsock')
    exact partly_of_sets hburst (sets_of_asked htarget hargs hasked) hline (List.prefix_refl line)
  unfold WriteCommand.Written at hwritten
  split at hwritten
  · exact hnone hwritten
  · exact hnone hwritten.1
  · exact hnone hwritten.1
  · exact hwhole hwritten
  · exact hwhole hwritten
  · exact hwhole hwritten
  · exact hwhole hwritten
  · exact hwhole hwritten
  · rcases hwritten with ⟨-, -, hsame⟩ | ⟨-, hsent⟩
    · exact hnone hsame
    · exact hwhole hsent
  · rcases hwritten with hsame | ⟨frame, line, part, hasked, hline, hpart, hsock'⟩
    · exact hnone hsame
    · obtain rfl := Option.some.inj (hsock.symm.trans hsock')
      exact partly_of_sets hburst (sets_of_asked htarget hargs hasked) hline hpart

/-- At every stage the stream is a part of what may be written. -/
theorem Progress.partly (h : c.Progress) {stream : Bytes} (hstream : c.stream = some stream) :
    Partly c.subcommand c.options stream := by
  unfold Progress at h
  unfold Command.stream at hstream
  split at h
  · rename_i hstage
    rw [hstage] at hstream
    exact absurd hstream (Option.some_ne_none _).symm
  · rename_i life unread hstage
    rw [hstage] at hstream
    obtain ⟨sent, whole, hsent, hpart, hcarries⟩ := h.burst.exists_prefix hstream
    exact partly_of_burst hsent hpart hcarries
  · rename_i write looping hstage
    rw [hstage] at hstream
    obtain ⟨before, name, value, hburst, hwritten, htarget, hargs⟩ := h
    exact partly_of_written hburst hwritten htarget hargs hstream
  · rename_i code sock hstage
    rw [hstage] at hstream
    rcases h with ⟨-, hpartly⟩ | ⟨-, hnone | ⟨-, stream', hsock, hcarries⟩⟩
      | ⟨-, stream', frame, hsock, hframe, hcarries⟩
    · exact hpartly stream hstream
    · exact absurd (hstream.symm.trans hnone) (Option.some_ne_none _)
    · obtain rfl := Option.some.inj (hstream.symm.trans hsock)
      exact partly_of_burst (List.prefix_refl burst) (List.prefix_refl stream) hcarries
    · obtain rfl := Option.some.inj (hstream.symm.trans hsock)
      exact ⟨[frame], burst ++ [frame], stream, .inr ⟨frame, rfl, hframe⟩, List.prefix_refl _,
        List.prefix_refl stream, hcarries⟩

/-! ## The stages -/

/-- The stages that a step can lead to. -/
inductive Moves (c : Command) : Stage → Prop
  | refuses (hstage : c.stage = .parsed) : Moves c (.exited 1 none)
  | declines (hstage : c.stage = .parsed) : Moves c (.exited 2 none)
  | connects (hstage : c.stage = .parsed) :
      Moves c (.connecting (SyncLifecycle.fresh c.options.host c.options.port {} true) [])
  | connect {life life' : SyncLifecycle} {unread : List Event} {act : SyncLifecycle.ConnectAct}
      (hstage : c.stage = .connecting life unread) (hlife : life.stepConnect act = some life') :
      Moves c (.connecting life' unread)
  | read {life life' : SyncLifecycle} {unread : List Event} {act : SyncLifecycle.ReadAct}
      (hstage : c.stage = .connecting life []) (hlife : life.stepRead act = some life') :
      Moves c (.connecting life' unread)
  | records {life : SyncLifecycle} {e : Event} {unread : List Event}
      (hstage : c.stage = .connecting life (e :: unread)) : Moves c (.connecting life unread)
  | begins {life : SyncLifecycle} {unread : List Event} {name : String} {value : Value}
      (hstage : c.stage = .connecting life unread)
      (htarget : c.subcommand.target = .ok (some (name, value)))
      (hreturned : life.connecting = .returned) (clock : ℚ) (looping : Bool) :
      Moves c (.writing (beginWrite c.options name value life unread clock) looping)
  | writes {write write' : WriteCommand} {looping : Bool} {act : WriteCommand.Act}
      (hstage : c.stage = .writing write looping) (hwrite : write.step act = some write') :
      Moves c (.writing write' looping)
  | leaves {write : WriteCommand} (hstage : c.stage = .writing write true) :
      Moves c (.writing write false)
  | closes {write : WriteCommand} (hstage : c.stage = .writing write false) :
      Moves c (.writing { write with client := { write.client with closed := true } } false)
  | fails {life : SyncLifecycle} {unread : List Event} {e : PyErr}
      (hstage : c.stage = .connecting life unread) (hraised : life.connecting = .raised e) :
      Moves c (.exited 1 life.client.sock)
  | returns {write : WriteCommand} {looping : Bool} {code : ℕ}
      (hstage : c.stage = .writing write looping) (hmain : write.main = .returned code) :
      Moves c (.exited code write.client.sock)
  | raises {write : WriteCommand} {looping : Bool} {e : PyErr}
      (hstage : c.stage = .writing write looping) (hmain : write.main = .raised e) :
      Moves c (.exited 1 write.client.sock)

/-- Only the stage of a process changes. -/
theorem moves_of_step {act : Act} (hstep : c.step act = some c') :
    ∃ stage, c' = { c with stage } ∧ c.Moves stage := by
  cases act with
  | dispatch =>
    unfold Command.step at hstep
    dsimp only at hstep
    split at hstep
    · rename_i hstage _
      exact ⟨_, (Option.some.inj hstep).symm, .refuses hstage⟩
    · rename_i hstage _
      exact ⟨_, (Option.some.inj hstep).symm, .declines hstage⟩
    · rename_i hstage _
      exact ⟨_, (Option.some.inj hstep).symm, .connects hstage⟩
    · cases hstep
  | connect act =>
    unfold Command.step at hstep
    dsimp only at hstep
    split at hstep
    · rename_i life unread hstage
      obtain ⟨life', hlife, hnext⟩ := Option.map_eq_some_iff.mp hstep
      exact ⟨_, hnext.symm, .connect hstage hlife⟩
    · cases hstep
  | read act =>
    unfold Command.step at hstep
    dsimp only at hstep
    split at hstep
    · rename_i life hstage
      obtain ⟨life', hlife, hnext⟩ := Option.map_eq_some_iff.mp hstep
      exact ⟨_, hnext.symm, .read hstage hlife⟩
    · cases hstep
  | record =>
    unfold Command.step at hstep
    dsimp only at hstep
    split at hstep
    · rename_i hstage
      exact ⟨_, (Option.some.inj hstep).symm, .records hstage⟩
    · cases hstep
  | «begin» clock =>
    unfold Command.step at hstep
    dsimp only at hstep
    split at hstep
    · rename_i hstage htarget
      split at hstep
      · rename_i hreturned
        exact ⟨_, (Option.some.inj hstep).symm, .begins hstage htarget hreturned _ _⟩
      · cases hstep
    · cases hstep
  | write act =>
    unfold Command.step at hstep
    dsimp only at hstep
    split at hstep
    · cases hstep
    · rename_i write looping act hstage _
      obtain ⟨write', hwrite, hnext⟩ := Option.map_eq_some_iff.mp hstep
      exact ⟨_, hnext.symm, .writes hstage hwrite⟩
    · cases hstep
  | leaveLoop =>
    unfold Command.step at hstep
    dsimp only at hstep
    split at hstep
    · rename_i hstage
      split at hstep
      · exact ⟨_, (Option.some.inj hstep).symm, .leaves hstage⟩
      · cases hstep
    · cases hstep
  | setClosed =>
    unfold Command.step at hstep
    dsimp only at hstep
    split at hstep
    · rename_i hstage
      exact ⟨_, (Option.some.inj hstep).symm, .closes hstage⟩
    · cases hstep
  | exit =>
    unfold Command.step at hstep
    dsimp only at hstep
    split at hstep
    · rename_i hstage
      split at hstep
      · rename_i hraised
        exact ⟨_, (Option.some.inj hstep).symm, .fails hstage hraised⟩
      · cases hstep
    · rename_i hstage
      split at hstep
      · rename_i hmain
        exact ⟨_, (Option.some.inj hstep).symm, .returns hstage hmain⟩
      · rename_i hmain
        exact ⟨_, (Option.some.inj hstep).symm, .raises hstage hmain⟩
      · cases hstep
    · cases hstep

theorem Progress.move (h : c.Progress) {stage : Stage} (hmoves : c.Moves stage) :
    Progress { c with stage } := by
  have hprogress := h
  unfold Progress at h
  cases hmoves with
  | refuses => exact .inl ⟨rfl, fun _ hsock => absurd hsock (Option.some_ne_none _).symm⟩
  | declines => exact .inr (.inl ⟨rfl, .inl rfl⟩)
  | connects => exact ⟨rfl, rfl⟩
  | connect hstage hlife =>
    rw [hstage] at h
    exact SyncLifecycle.BurstInv.connect h hlife
  | read hstage hlife =>
    rw [hstage] at h
    exact SyncLifecycle.BurstInv.read h hlife
  | records hstage =>
    rw [hstage] at h
    exact h
  | begins hstage htarget hreturned =>
    rw [hstage] at h
    have hburst := h.burst
    unfold SyncLifecycle.Burst at hburst
    rw [hreturned] at hburst
    -- connect has returned, so what is in the stream is the burst
    obtain ⟨before, hsock, hcarries⟩ := hburst
    exact ⟨before, _, _, hcarries, hsock, htarget, rfl⟩
  | writes hstage hwrite =>
    rw [hstage] at h
    obtain ⟨before, name, value, hcarries, hwritten, htarget, hargs⟩ := h
    exact ⟨before, name, value, hcarries, hwritten.step hwrite, htarget,
      (WriteCommand.args_step hwrite).trans hargs⟩
  | leaves hstage =>
    rw [hstage] at h
    exact h
  | closes hstage =>
    rw [hstage] at h
    obtain ⟨before, name, value, hcarries, hwritten, htarget, hargs⟩ := h
    exact ⟨before, name, value, hcarries, hwritten.goOn rfl rfl rfl, htarget, hargs⟩
  | @fails life unread e hstage hraised =>
    have hstream : c.stream = life.client.sock := by rw [Command.stream, hstage]
    exact .inl ⟨rfl, fun stream hsock => hprogress.partly (hstream.trans hsock)⟩
  | @returns write looping code hstage hmain =>
    rw [hstage] at h
    obtain ⟨before, name, value, hcarries, hwritten, htarget, hargs⟩ := h
    unfold WriteCommand.Written at hwritten
    rw [hmain] at hwritten
    rcases hwritten with ⟨hcode, hyes, hsock⟩ | ⟨hcode, frame, line, hasked, hline, hsock⟩
    · rw [hargs] at hyes
      exact .inr (.inl ⟨hcode, .inr ⟨hyes, before, hsock, hcarries⟩⟩)
    · exact .inr (.inr ⟨hcode, before ++ line, frame, hsock, sets_of_asked htarget hargs hasked,
        hcarries.append (carries_line hline)⟩)
  | @raises write looping e hstage hmain =>
    have hstream : c.stream = write.client.sock := by rw [Command.stream, hstage]
    exact .inl ⟨rfl, fun stream hsock => hprogress.partly (hstream.trans hsock)⟩

/-- A step changes neither the command nor its options. -/
theorem params_step {act : Act} (hstep : c.step act = some c') :
    c'.subcommand = c.subcommand ∧ c'.options = c.options := by
  obtain ⟨stage, rfl, -⟩ := moves_of_step hstep
  exact ⟨rfl, rfl⟩

/-! ## Every run -/

theorem progress_of_run {acts : List Act}
    (hrun : Machine.run step (start subcommand options) acts = some c) :
    c.Progress ∧ c.subcommand = subcommand ∧ c.options = options := by
  refine Machine.run_preserves (I := fun c => c.Progress ∧ c.subcommand = subcommand
    ∧ c.options = options) (fun s act s' h hstep => ?_) hrun ⟨trivial, rfl, rfl⟩
  obtain ⟨hprogress, hsubcommand, hoptions⟩ := h
  obtain ⟨stage, rfl, hmoves⟩ := moves_of_step hstep
  exact ⟨hprogress.move hmoves, hsubcommand, hoptions⟩

/-- The frame that a command asks for is a SET for the topic that it names, on the allow-list. -/
theorem Sets.spec {frame : Frame} (h : Sets subcommand options frame) :
    frame.action = Action.SET.value ∧ WritableAddress frame.address
      ∧ ∃ t, topic (.name subcommand.topicName) = .ok t ∧ frame.address = t.address := by
  obtain ⟨name, value, session, expectation, htarget, hset⟩ := h.built
  obtain ⟨t, ht, htopic, hname⟩ := Subcommand.topic_of_target htarget
  obtain ⟨haction, u, hresolve, -, haddress⟩ := Session.topic_of_setFrame hset
  -- set_frame looks the name up in the same table
  have hsame : u = t := by
    have hself := topic_of_name ht hname
    rw [hresolve] at hself
    exact Except.ok.inj hself
  exact ⟨haction, Session.writable_of_setFrame hset nofun, t, htopic, hsame ▸ haddress⟩

/-- Whatever the network, the cooler and the reader thread do, and wherever the process is: the
cooler decodes an initial part of the subscribe burst and at most one more frame, and drops
nothing. That frame is a SET for the writable topic that the command names; without `--yes` there
is none. -/
theorem wire_safe {acts : List Act}
    (hrun : Machine.run step (start subcommand options) acts = some c) {stream : Bytes}
    (hstream : c.stream = some stream) {chunks : List Bytes} (hchunks : chunks.flatten = stream) :
    ∃ lists d sets, LineDecoder.feedAll {} chunks = .ok (lists, d) ∧ d.dropped = 0
      ∧ lists.flatten <+: burst ++ sets ∧ sets.length ≤ 1 ∧ (options.yes = false → sets = [])
      ∧ ∀ frame ∈ sets, frame.action = Action.SET.value ∧ WritableAddress frame.address
        ∧ ∃ t, topic (.name subcommand.topicName) = .ok t ∧ frame.address = t.address := by
  obtain ⟨hprogress, rfl, rfl⟩ := progress_of_run hrun
  obtain ⟨sets, sent, whole, hsets, hsent, hpart, hcarries⟩ := hprogress.partly hstream
  obtain ⟨hframes, hdropped⟩ := hcarries.reference_prefix hpart
  obtain ⟨lists, hall, hlists⟩ := LineDecoder.feedAll_eq chunks {} rfl
  rw [List.nil_append, hchunks] at hall hlists
  refine ⟨lists, _, sets, hall, (Nat.zero_add _).trans hdropped, ?_, ?_, fun hyes => ?_,
    fun frame hframe => ?_⟩
  · rw [hlists]
    exact hframes.trans hsent
  · rcases hsets with rfl | ⟨frame, rfl, -⟩
    · exact Nat.zero_le 1
    · exact Nat.le_refl 1
  · rcases hsets with rfl | ⟨frame, rfl, hset⟩
    · rfl
    · exact absurd hset.yes (Bool.eq_false_iff.mp hyes)
  · rcases hsets with rfl | ⟨frame, rfl, hset⟩
    · exact absurd hframe List.not_mem_nil
    · obtain rfl := List.mem_singleton.mp hframe
      exact hset.spec

/-- The burst of `ddmp set coolerpow on --yes` breaks off in its first line. -/
def breaksOff : List Act :=
  [.dispatch, .connect .call, .connect (.create (.ok ())), .connect .assign,
    .connect .startReader, .connect .check, .connect (.sendall (.fails 3 "timed out")), .exit]

theorem wire_safe_breaksOff :
    ∃ lists d sets, LineDecoder.feedAll {} [bytesLit "EgI"] = .ok (lists, d) ∧ d.dropped = 0
      ∧ lists.flatten <+: burst ++ sets ∧ sets.length ≤ 1 := by
  have hstream : (Machine.run step (start (.set "coolerpow" "on") { host := "cooler", yes := true })
      breaksOff).map stream = some (some (bytesLit "EgI")) := rfl
  obtain ⟨c, hrun, hsock⟩ := Option.map_eq_some_iff.mp hstream
  have hchunks : [bytesLit "EgI"].flatten = bytesLit "EgI" := List.flatten_singleton
  obtain ⟨lists, d, sets, hall, hdropped, hframes, hone, -⟩ := wire_safe hrun hsock hchunks
  exact ⟨lists, d, sets, hall, hdropped, hframes, hone⟩

/-- What the exit code tells. At 2 the cooler has read the burst at most. At 0, 3 and 4 it has read
the whole burst and the whole SET, which `--yes` allowed; so a write that the cooler may not have
received ends with 1. -/
theorem exit_code {acts : List Act}
    (hrun : Machine.run step (start subcommand options) acts = some c) {code : ℕ}
    {sock : Option Bytes} (hexit : c.stage = .exited code sock) {chunks : List Bytes}
    (hchunks : chunks.flatten = sock.getD []) :
    code ≤ 4
      ∧ (code = 2 → ∃ lists, LineDecoder.feedAll {} chunks = .ok (lists, {})
        ∧ (lists.flatten = [] ∨ options.yes = false ∧ lists.flatten = burst))
      ∧ (code ∈ [0, 3, 4] → options.yes = true
        ∧ ∃ lists frame, LineDecoder.feedAll {} chunks = .ok (lists, {})
          ∧ lists.flatten = burst ++ [frame] ∧ frame.action = Action.SET.value
          ∧ WritableAddress frame.address
          ∧ ∃ t, topic (.name subcommand.topicName) = .ok t ∧ frame.address = t.address) := by
  obtain ⟨hprogress, rfl, rfl⟩ := progress_of_run hrun
  unfold Progress at hprogress
  rw [hexit] at hprogress
  -- an error, a command that stops before the SET, or one that has sent it
  rcases hprogress with ⟨rfl, -⟩ | ⟨rfl, hburst⟩ | ⟨hcode, stream, frame, rfl, hset, hcarries⟩
  · exact ⟨by decide, fun h => absurd h (by decide), fun h => absurd h (by decide)⟩
  · refine ⟨by decide, fun _ => ?_, fun h => absurd h (by decide)⟩
    rcases hburst with rfl | ⟨hyes, stream, rfl, hcarries⟩
    · obtain ⟨lists, hall, hlists⟩ := carries_nil.feedAll hchunks
      exact ⟨lists, hall, .inl hlists⟩
    · obtain ⟨lists, hall, hlists⟩ := hcarries.feedAll hchunks
      exact ⟨lists, hall, .inr ⟨hyes, hlists⟩⟩
  · have hle : ∀ code ∈ [0, 3, 4], code ≤ 4 ∧ code ≠ 2 := by decide
    obtain ⟨hfour, htwo⟩ := hle code hcode
    obtain ⟨lists, hall, hlists⟩ := hcarries.feedAll hchunks
    exact ⟨hfour, fun h => absurd h htwo,
      fun _ => ⟨hset.yes, lists, frame, hall, hlists, hset.spec⟩⟩

/-- `ddmp set coolerpow on --yes` sends the burst and the SET. -/
def sends : List Act :=
  let connects : List Act := [.dispatch, .connect .call, .connect (.create (.ok ())),
    .connect .assign, .connect .startReader]
  let bursts := burst.flatMap fun _ => [Act.connect .check, .connect (.sendall .done)]
  let writes : List Act := [.connect .check, .begin 0, .write (.main .setFrame),
    .write (.main .clear), .write (.main (.send .done)), .write (.main .setDeadline)]
  connects ++ bursts ++ writes

/-- The cooler publishes that it is on, and the write is confirmed. -/
def confirms : List Act :=
  [.write (.feed (bytesLit "EAsAABoBAAAA\r")), .write .record, .write (.main .test),
    .write (.main .drain), .write (.main .check), .exit]

theorem exit_code_confirmed :
    ∃ c sock lists frame, Machine.run step
        (start (.set "coolerpow" "on") { host := "cooler", yes := true }) (sends ++ confirms)
        = some c
      ∧ c.stage = .exited 0 sock
      ∧ LineDecoder.feedAll {} [sock.getD []] = .ok (lists, {})
      ∧ lists.flatten = burst ++ [frame] ∧ frame.action = Action.SET.value
      ∧ frame.address = mccc 0x0B := by
  have hexits : (Machine.run step (start (.set "coolerpow" "on") { host := "cooler", yes := true })
      (sends ++ confirms)).map (fun c => match c.stage with | .exited code _ => code | _ => 1)
      = some 0 := by decide +kernel
  obtain ⟨c, hrun, hcode⟩ := Option.map_eq_some_iff.mp hexits
  split at hcode
  · rename_i code sock hexit
    obtain rfl := hcode
    obtain ⟨-, -, hzero⟩ := exit_code hrun hexit List.flatten_singleton
    obtain ⟨-, lists, frame, hall, hframes, haction, -, t, htopic, haddress⟩ := hzero (by decide)
    -- the name stands for the row at 0B 00 00 1A
    obtain ⟨row, hrow, hpower⟩ : ∃ row, topic (.name "coolerpow") = .ok row
      ∧ row.address = mccc 0x0B := ⟨_, rfl, rfl⟩
    obtain rfl := Except.ok.inj (htopic.symm.trans hrow)
    exact ⟨c, sock, lists, frame, hrun, hexit, hall, hframes, haction, haddress.trans hpower⟩
  · cases hcode

end Command

end Ddmp
