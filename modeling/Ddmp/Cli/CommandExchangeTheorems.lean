import Ddmp.Cli.CommandExchange
import Ddmp.Cli.CommandTheorems
import Ddmp.Cli.WriteCommandTheorems
import Ddmp.Client.FakeCoolerTheorems
import Ddmp.Client.SyncLifecycleTheorems

/-!
# What an exit code says about the cooler

As long as nothing has failed, a process of `ddmp set` is one end of an `Exchange`, so that the
events it checks are answers to what it has sent. `exit_code_kept`: after 0 the cooler keeps a value
that the write accepts, after 3 it refuses the address and has kept what it had.
-/

namespace Ddmp

open Lib

theorem SyncClient.sock_send_isPrefix (client : SyncClient) (frame : Frame) (outcome : SendAll) :
    client.sock.getD [] <+: (client.send frame outcome).2.sock.getD [] := by
  cases hsock : client.sock with
  | none => exact List.nil_prefix
  | some before =>
    rcases client.send_cases frame outcome hsock with
      ⟨e, -, hsame⟩ | ⟨line, -, ⟨-, hdone⟩ | ⟨e, part, -, -, hfails⟩⟩
    · refine ⟨[], ?_⟩
      rw [hsame]
      exact List.append_nil before
    · rw [hdone]
      exact List.prefix_append before line
    · rw [hfails]
      exact List.prefix_append before part

/-! ## The cooler after one SET -/

namespace FakeCooler

variable {c : FakeCooler} {frames handled : List Frame} {frame : Frame}

/-- SUBSCRIBEs change nothing that the cooler keeps, and their answers are some of it. -/
theorem Stocked.converse_subscribes (h : c.Stocked)
    (hall : ∀ f ∈ frames, f.action = Action.SUBSCRIBE.value) :
    (c.converse frames).1.publishes = c.publishes
      ∧ ∀ answer ∈ (c.converse frames).2, c.publishes.get? answer.address = some answer := by
  induction frames using List.reverseRecOn with
  | nil => exact ⟨rfl, fun _ hanswer => absurd hanswer List.not_mem_nil⟩
  | append_singleton frames f ih =>
    obtain ⟨hfirst, hlast⟩ := List.forall_mem_append.mp hall
    obtain ⟨hkept, hanswers⟩ := ih hfirst
    have hsubscribe : f.action = Action.SUBSCRIBE.value := hlast f List.mem_cons_self
    rw [converse_concat, FakeCooler.handle, FakeCooler.reply, if_pos hsubscribe]
    dsimp only
    rw [hkept]
    refine ⟨rfl, List.forall_mem_append.mpr ⟨hanswers, fun answer hanswer => ?_⟩⟩
    have hget := Option.mem_toList.mp hanswer
    rw [(h _ answer hget).2]
    exact hget

/-- When the only SET is the last frame, the cooler keeps what it kept until it has accepted it. -/
theorem Stocked.converse_set (h : c.Stocked)
    (hall : ∀ f ∈ frames, f.action = Action.SUBSCRIBE.value)
    (hset : frame.action = Action.SET.value) (hhandled : handled <+: frames ++ [frame]) :
    ((handled = frames ++ [frame] → frame.address ∈ c.refuse)
        ∧ (c.converse handled).1.publishes = c.publishes
        ∧ ∀ answer ∈ (c.converse handled).2, answer.IsPublish →
          c.publishes.get? answer.address = some answer)
      ∨ handled = frames ++ [frame] ∧ frame.address ∉ c.refuse
        ∧ (c.converse handled).1.publishes
          = c.publishes.set frame.address (Exchange.echoOf frame) := by
  have hsubscribe : ¬ frame.action = Action.SUBSCRIBE.value := by rw [hset]; decide
  obtain ⟨hkept, hanswers⟩ := h.converse_subscribes hall
  -- the SET has been handled, or only frames of the burst have
  rcases List.prefix_concat_iff.mp hhandled with rfl | hbefore
  · rw [converse_concat, FakeCooler.handle, FakeCooler.reply, if_neg hsubscribe, if_pos hset]
    dsimp only
    rw [refuse_converse, hkept]
    by_cases hrefuse : frame.address ∈ c.refuse
    · rw [if_pos hrefuse]
      refine .inl ⟨fun _ => hrefuse, rfl, List.forall_mem_append.mpr
        ⟨fun answer hanswer _ => hanswers answer hanswer, fun answer hanswer hpublish => ?_⟩⟩
      obtain rfl : answer = Exchange.nakOf frame := List.mem_singleton.mp hanswer
      have hnak : ¬ Action.NAK.value = Action.PUBLISH.value := by decide
      exact absurd hpublish hnak
    · rw [if_neg hrefuse]
      exact .inr ⟨rfl, hrefuse, rfl⟩
  · obtain ⟨hkept, hanswers⟩ := h.converse_subscribes fun f hf => hall f (hbefore.subset hf)
    refine .inl ⟨fun heq => ?_, hkept, fun answer hanswer _ => hanswers answer hanswer⟩
    have hle := hbefore.length_le
    rw [heq, List.length_append] at hle
    exact absurd hle (Nat.not_succ_le_self _)

end FakeCooler

/-! ## What the process has to go by -/

namespace WriteCommand

/-- The SET and the expectation that `_write` gets for its arguments. -/
def Builds (args : WriteArgs) (frame : Frame) (expectation : WriteExpectation) : Prop :=
  ∃ session : Session, session.Coherent
    ∧ session.setFrame (.name args.name) args.value args.compartment = .ok (frame, expectation)

/-- `_write` waits for the answer to this SET. -/
def Expects (w : WriteCommand) (frame : Frame) : Prop :=
  ∃ expectation observed, Builds w.args frame expectation
    ∧ w.expectation = some { expectation with observed }

/-- What a code says about the stream and about the events read. -/
def Told (args : WriteArgs) (stream : Bytes) (events : List Event) (code : ℕ) : Prop :=
  code = 2 ∨ ∃ frame expectation, Builds args frame expectation
    ∧ Carries stream (Command.burst ++ [frame])
    ∧ (code = 0 → ∃ e ∈ events, (expectation.matches e).1 = some true)
    ∧ (code = 3 → ∃ e ∈ events, (expectation.matches e).1 = some false)

/-- What `_write` waits for, or has been told, by where it is. -/
def Awaits (events : List Event) (w : WriteCommand) : Prop :=
  match w.main with
  | .waiting | .raised _ => True
  | .prepared frame | .cleared frame => w.Expects frame
  | .sent | .testing | .draining | .checking _ | .sleeping _ => ∃ frame,
    Carries (w.client.sock.getD []) (Command.burst ++ [frame]) ∧ w.Expects frame
  | .returned code => Told w.args (w.client.sock.getD []) events code

/-- The events that are still to be recorded or to be checked. -/
def ahead (w : WriteCommand) : List Event :=
  w.unread ++ (w.events ++ w.main.pending?.getD []).map Prod.snd

variable {w w' : WriteCommand} {events : List Event}

/-- The verdict does not depend on what has been observed. -/
theorem matches_observed (x : WriteExpectation) (observed : Value) (e : Event) :
    ({ x with observed }.matches e).1 = (x.matches e).1 := by
  cases e with
  | nak | unhandled => rfl
  | publish address topic value raw =>
    unfold WriteExpectation.matches
    dsimp only
    split <;> rfl

theorem Told.mono {args : WriteArgs} {stream : Bytes} {code : ℕ}
    (h : Told args stream events code) (more : List Event) :
    Told args stream (events ++ more) code := by
  rcases h with hdeclined | ⟨frame, expectation, hbuilds, hcarries, hconfirmed, hrefused⟩
  · exact .inl hdeclined
  · refine .inr ⟨frame, expectation, hbuilds, hcarries, fun hcode => ?_, fun hcode => ?_⟩
    · obtain ⟨e, he, hmatches⟩ := hconfirmed hcode
      exact ⟨e, List.mem_append_left more he, hmatches⟩
    · obtain ⟨e, he, hmatches⟩ := hrefused hcode
      exact ⟨e, List.mem_append_left more he, hmatches⟩

theorem Awaits.mono (h : w.Awaits events) (more : List Event) : w.Awaits (events ++ more) := by
  unfold Awaits at h ⊢
  cases hmain : w.main with
  | returned code =>
    rw [hmain] at h
    exact Told.mono h more
  | _ =>
    rw [hmain] at h
    exact h

/-- A step of the reader thread or of the clock. -/
theorem Awaits.goOn (h : w.Awaits events) (hmain : w'.main = w.main) (hargs : w'.args = w.args)
    (hsock : w'.client.sock = w.client.sock) (hexpectation : w'.expectation = w.expectation) :
    w'.Awaits events := by
  unfold Awaits Expects at h ⊢
  rw [hmain, hargs, hsock, hexpectation]
  exact h

/-- `_write` only takes events from those that are ahead. -/
theorem ahead_main {act : MainAct} (hstep : w.stepMain act = some w') : w'.ahead ⊆ w.ahead := by
  have hkeeps {v : WriteCommand} (hunread : v.unread = w.unread)
      (hlist : v.events ++ v.main.pending?.getD [] ⊆ w.events ++ w.main.pending?.getD []) :
      v.ahead ⊆ w.ahead := by
    rw [ahead, ahead, hunread]
    exact List.append_subset.mpr ⟨List.subset_append_left _ _,
      List.Subset.trans (List.map_subset _ hlist) (List.subset_append_right _ _)⟩
  -- most steps leave nothing pending; drain and check keep what they hold
  have hnone {v : WriteCommand} (hunread : v.unread = w.unread) (hevents : v.events ⊆ w.events)
      (hpending : v.main.pending?.getD [] = []) : v.ahead ⊆ w.ahead := by
    refine hkeeps hunread ?_
    rw [hpending, List.append_nil]
    exact List.Subset.trans hevents (List.subset_append_left _ _)
  have hall := List.Subset.refl w.events
  cases act with
  | setFrame =>
    rw [stepMain] at hstep
    split at hstep
    · split at hstep
      · exact Option.some.inj hstep ▸ hnone rfl hall rfl
      · refine Option.some.inj hstep ▸ hnone rfl hall ?_
        dsimp only
        split <;> rfl
    · cases hstep
  | clear =>
    rw [stepMain] at hstep
    split at hstep
    · exact Option.some.inj hstep ▸ hnone rfl (List.nil_subset _) rfl
    · cases hstep
  | send outcome =>
    rw [stepMain] at hstep
    split at hstep
    · split at hstep
      · exact Option.some.inj hstep ▸ hnone rfl hall rfl
      · exact Option.some.inj hstep ▸ hnone rfl hall rfl
    · cases hstep
  | setDeadline =>
    rw [stepMain] at hstep
    split at hstep
    · exact Option.some.inj hstep ▸ hnone rfl hall rfl
    · cases hstep
  | test =>
    rw [stepMain] at hstep
    split at hstep
    · refine Option.some.inj hstep ▸ hnone rfl hall ?_
      dsimp only
      split <;> rfl
    · cases hstep
  | drain =>
    rw [stepMain] at hstep
    split at hstep
    · exact Option.some.inj hstep ▸ hkeeps rfl (List.subset_append_left w.events _)
    · cases hstep
  | check =>
    rw [stepMain] at hstep
    split at hstep
    · exact Option.some.inj hstep ▸ hnone rfl hall rfl
    · rename_i e pending expectation hmain _
      refine Option.some.inj hstep ▸ hkeeps rfl ?_
      rw [hmain]
      dsimp only
      refine List.append_subset.mpr ⟨List.subset_append_left _ _, ?_⟩
      split
      · exact List.nil_subset _
      · exact List.nil_subset _
      · exact List.Subset.trans (List.subset_cons_self e pending) (List.subset_append_right _ _)
    · cases hstep
  | wake =>
    rw [stepMain] at hstep
    split at hstep
    · split at hstep
      · exact Option.some.inj hstep ▸ hnone rfl hall rfl
      · cases hstep
    · cases hstep

/-- A step of `_write`. The frame that it sends goes behind the burst. -/
theorem Awaits.main (h : w.Awaits events) (hahead : w.ahead ⊆ events)
    (hcoherent : w.session.Coherent)
    (hburst : ∀ frame, w.main = .cleared frame → ∃ before, w.client.sock = some before
      ∧ Carries before Command.burst)
    {act : MainAct} (hstep : w.stepMain act = some w') : w'.Awaits events := by
  unfold Awaits at h
  cases act with
  | setFrame =>
    rw [stepMain] at hstep
    split at hstep
    · split at hstep
      · rw [← Option.some.inj hstep]
        trivial
      · rename_i frame expectation hset
        rw [← Option.some.inj hstep]
        unfold Awaits
        dsimp only
        cases w.args.yes with
        -- the expectation is the one that set_frame has just built
        | true => exact ⟨expectation, expectation.observed, ⟨w.session, hcoherent, hset⟩, rfl⟩
        | false => exact .inl rfl
    · cases hstep
  | clear =>
    rw [stepMain] at hstep
    split at hstep
    · rename_i frame hmain
      rw [hmain] at h
      exact Option.some.inj hstep ▸ h
    · cases hstep
  | send outcome =>
    rw [stepMain] at hstep
    split at hstep
    · rename_i frame hmain
      rw [hmain] at h
      obtain ⟨before, hsock, hcarries⟩ := hburst frame hmain
      have hcases := w.client.send_cases frame outcome hsock
      split at hstep
      · rename_i client hsend
        rw [hsend] at hcases
        rw [← Option.some.inj hstep]
        rcases hcases with ⟨e, hresult, -⟩ | ⟨line, hline, ⟨-, hdone⟩ | ⟨e, part, hresult, -⟩⟩
        · cases hresult
        · refine ⟨frame, ?_, h⟩
          dsimp only at hdone ⊢
          rw [hdone]
          exact hcarries.append (carries_line hline)
        · cases hresult
      · rw [← Option.some.inj hstep]
        trivial
    · cases hstep
  | setDeadline | drain =>
    rw [stepMain] at hstep
    split at hstep
    · rename_i hmain
      rw [hmain] at h
      exact Option.some.inj hstep ▸ h
    · cases hstep
  | test =>
    rw [stepMain] at hstep
    split at hstep
    · rename_i hmain
      rw [hmain] at h
      obtain ⟨frame, hcarries, expectation, observed, hbuilds, -⟩ := id h
      rw [← Option.some.inj hstep]
      unfold Awaits
      dsimp only
      split_ifs
      · exact h
      · exact .inr ⟨frame, expectation, hbuilds, hcarries, fun hcode => absurd hcode (by decide),
          fun hcode => absurd hcode (by decide)⟩
    · cases hstep
  | check =>
    rw [stepMain] at hstep
    split at hstep
    · rename_i hmain
      rw [hmain] at h
      exact Option.some.inj hstep ▸ h
    · rename_i e pending expected hmain hexpected
      rw [hmain] at h
      obtain ⟨frame, hcarries, expectation, observed, hbuilds, hexpectation⟩ := h
      obtain rfl : { expectation with observed } = expected :=
        Option.some.inj (hexpectation.symm.trans hexpected)
      -- the event that is looked at is one of those handed out
      have he : e.2 ∈ events := by
        apply hahead
        rw [ahead, hmain]
        exact List.mem_append_right _ (List.mem_map_of_mem
          (List.mem_append_right _ List.mem_cons_self))
      dsimp only at hstep
      have hverdict := matches_observed expectation observed e.2
      rw [← Option.some.inj hstep]
      unfold Awaits
      dsimp only
      rw [hverdict]
      cases hmatches : (expectation.matches e.2).1 with
      | none =>
        -- no answer: only what was observed changes
        obtain ⟨seen, hseen⟩ := { expectation with observed }.exists_observed e.2
        exact ⟨frame, hcarries, expectation, seen, hbuilds, congrArg some hseen⟩
      | some verdict =>
        cases verdict with
        | true =>
          exact .inr ⟨frame, expectation, hbuilds, hcarries, fun _ => ⟨e.2, he, hmatches⟩,
            fun hcode => absurd hcode (by decide)⟩
        | false =>
          exact .inr ⟨frame, expectation, hbuilds, hcarries, fun hcode => absurd hcode (by decide),
            fun _ => ⟨e.2, he, hmatches⟩⟩
    · cases hstep
  | wake =>
    rw [stepMain] at hstep
    split at hstep
    · rename_i hmain
      rw [hmain] at h
      split at hstep
      · exact Option.some.inj hstep ▸ h
      · cases hstep
    · cases hstep

/-- `_write` leaves the session alone. -/
theorem session_main {act : MainAct} (hstep : w.stepMain act = some w') :
    w'.session = w.session := by
  cases act <;> grind [stepMain]

/-- It writes behind what has been written. -/
theorem sock_isPrefix {act : Act} (hstep : w.step act = some w') :
    w.client.sock.getD [] <+: w'.client.sock.getD [] := by
  have hsame (hclient : w'.client = w.client) :
      w.client.sock.getD [] <+: w'.client.sock.getD [] := hclient ▸ List.prefix_refl _
  cases act with
  | main act =>
    cases act with
    | send outcome =>
      rw [step, stepMain] at hstep
      split at hstep
      · rename_i frame hmain
        have hsend := w.client.sock_send_isPrefix frame outcome
        split at hstep
        · rename_i client heq
          rw [heq] at hsend
          exact Option.some.inj hstep ▸ hsend
        · rename_i client heq
          rw [heq] at hsend
          exact Option.some.inj hstep ▸ hsend
      · cases hstep
    | _ => exact hsame (by grind [step, stepMain])
  | _ => exact hsame (by grind [step])

/-- After an exception `_write` goes on no more. -/
theorem raised_step {e : PyErr} (h : w.main = .raised e) {act : Act}
    (hstep : w.step act = some w') :
    w'.main = .raised e := by
  cases act with
  | main act => cases act <;> simp [step, stepMain, h] at hstep
  | feed chunk =>
    rw [step] at hstep
    split at hstep
    · exact Option.some.inj hstep ▸ h
    · cases hstep
  | record =>
    rw [step] at hstep
    split at hstep
    · cases hstep
    · exact Option.some.inj hstep ▸ h
  | tick dt =>
    rw [step, Option.ite_none_right_eq_some] at hstep
    exact Option.some.inj hstep.2 ▸ h

end WriteCommand

namespace Command

/-- The process has met an error: it sends nothing more, and exits with 1. -/
def Failed (c : Command) : Prop :=
  match c.stage with
  | .parsed => False
  | .connecting life _ => ∃ e, life.connecting = .raised e
  | .writing write _ => ∃ e, write.main = .raised e
  | .exited code _ => code = 1

/-- What the process has of a session that has handed out these events. -/
def Hears (session : Session) (events : List Event) (c : Command) : Prop :=
  match c.stage with
  | .parsed => session = {}
  | .connecting life unread => session = life.session ∧ unread ⊆ events
  | .writing write _ => session = write.session ∧ write.ahead ⊆ events ∧ write.Awaits events
  | .exited code sock => code = 2 ∨ ∃ name value,
    c.subcommand.target = .ok (some (name, value))
      ∧ WriteCommand.Told ⟨name, value, c.options.compartment, c.options.yes,
        c.options.echoTimeout⟩ (sock.getD []) events code

variable {c c' : Command} {session : Session} {events : List Event}

theorem Failed.step (h : c.Failed) {act : Act} (hstep : c.step act = some c') : c'.Failed := by
  obtain ⟨stage, rfl, hmoves⟩ := moves_of_step hstep
  unfold Failed at h
  cases hmoves with
  | refuses => rfl
  | declines hstage | connects hstage =>
    rw [hstage] at h
    exact h.elim
  | connect hstage hlife =>
    rw [hstage] at h
    obtain ⟨e, he⟩ := h
    -- a connect that has raised takes no further step
    cases SyncLifecycle.moves_of_stepConnect hlife <;> simp_all
  | read hstage hlife =>
    rw [hstage] at h
    cases SyncLifecycle.moves_of_stepRead hlife <;> exact h
  | records hstage =>
    rw [hstage] at h
    exact h
  | begins hstage htarget hreturned =>
    rw [hstage] at h
    obtain ⟨e, he⟩ := h
    cases hreturned.symm.trans he
  | writes hstage hwrite =>
    rw [hstage] at h
    obtain ⟨e, he⟩ := h
    exact ⟨e, WriteCommand.raised_step he hwrite⟩
  | leaves hstage | closes hstage =>
    rw [hstage] at h
    exact h
  | fails | raises => rfl
  | returns hstage hmain =>
    rw [hstage] at h
    obtain ⟨e, he⟩ := h
    cases hmain.symm.trans he

/-- A process that has not failed has written whole lines. -/
theorem Progress.exists_carries (h : c.Progress) (hok : ¬ c.Failed) :
    ∃ sent, Carries (c.stream.getD []) sent := by
  unfold Progress at h
  unfold Failed at hok
  unfold Command.stream
  cases hstage : c.stage with
  | parsed => exact ⟨[], carries_nil⟩
  | connecting life unread =>
    rw [hstage] at h hok
    have hburst := h.burst
    unfold SyncLifecycle.Burst at hburst
    show ∃ sent, Carries (life.client.sock.getD []) sent
    split at hburst
    · exact ⟨[], hburst ▸ carries_nil⟩
    · exact ⟨[], hburst ▸ carries_nil⟩
    · exact ⟨[], hburst ▸ carries_nil⟩
    · exact ⟨[], hburst ▸ carries_nil⟩
    · obtain ⟨sent, stream, -, hsock, hcarries⟩ := hburst
      exact ⟨sent, hsock ▸ hcarries⟩
    · obtain ⟨sent, stream, -, hsock, hcarries⟩ := hburst
      exact ⟨sent, hsock ▸ hcarries⟩
    · obtain ⟨stream, hsock, hcarries⟩ := hburst
      exact ⟨burst, hsock ▸ hcarries⟩
    · rename_i hraised
      exact absurd ⟨_, hraised⟩ hok
  | writing write looping =>
    rw [hstage] at h hok
    obtain ⟨before, name, value, hcarries, hwritten, -⟩ := h
    unfold WriteCommand.Written at hwritten
    show ∃ sent, Carries (write.client.sock.getD []) sent
    have hnone (hsame : write.client.sock = some before) :
        ∃ sent, Carries (write.client.sock.getD []) sent := ⟨burst, hsame ▸ hcarries⟩
    have hwhole (hsent : write.Sent before) : ∃ sent, Carries (write.client.sock.getD []) sent := by
      obtain ⟨frame, line, -, hline, hsock⟩ := hsent
      exact ⟨burst ++ [frame], hsock ▸ hcarries.append (carries_line hline)⟩
    split at hwritten
    · exact hnone hwritten
    · exact hnone hwritten.1
    · exact hnone hwritten.1
    · exact hwhole hwritten
    · exact hwhole hwritten
    · exact hwhole hwritten
    · exact hwhole hwritten
    · exact hwhole hwritten
    · exact hwritten.elim (fun hdeclined => hnone hdeclined.2.2) fun hsent => hwhole hsent.2
    · rename_i hraised
      exact absurd ⟨_, hraised⟩ hok
  | exited code sock =>
    rw [hstage] at h hok
    rcases h with ⟨hcode, -⟩ | ⟨-, hburst⟩ | ⟨-, stream, frame, rfl, -, hcarries⟩
    · exact absurd hcode hok
    · rcases hburst with rfl | ⟨-, stream, rfl, hcarries⟩
      · exact ⟨[], carries_nil⟩
      · exact ⟨burst, hcarries⟩
    · exact ⟨burst ++ [frame], hcarries⟩

/-- What has been written stays written. -/
theorem Progress.stream_isPrefix (h : c.Progress) {act : Act} (hstep : c.step act = some c') :
    c.stream.getD [] <+: c'.stream.getD [] := by
  obtain ⟨stage, rfl, hmoves⟩ := moves_of_step hstep
  have hsame {stage : Stage} (hstream : ({ c with stage } : Command).stream = c.stream) :
      c.stream.getD [] <+: ({ c with stage } : Command).stream.getD [] :=
    hstream ▸ List.prefix_refl _
  unfold Progress at h
  cases hmoves with
  | refuses hstage | declines hstage | connects hstage =>
    have hnone : c.stream = none := by rw [stream, hstage]
    rw [hnone]
    exact List.nil_prefix
  | connect hstage hlife =>
    rw [hstage] at h
    rw [stream, hstage]
    show _ <+: Option.getD (SyncLifecycle.client _).sock []
    cases SyncLifecycle.moves_of_stepConnect hlife with
    -- the new socket is empty, and there was none before
    | assigns hopened =>
      have hburst := h.burst
      unfold SyncLifecycle.Burst at hburst
      rw [hopened] at hburst
      dsimp only
      rw [hburst]
      exact List.nil_prefix
    | sends | breaks =>
      dsimp only
      cases SyncClient.sock _ with
      | none => exact List.nil_prefix
      | some written => exact List.prefix_append written _
    | _ => exact List.prefix_refl _
  | read hstage hlife =>
    refine hsame ?_
    rw [stream, stream, hstage]
    cases SyncLifecycle.moves_of_stepRead hlife <;> rfl
  | begins hstage =>
    exact hsame (by rw [stream, stream, hstage]; rfl)
  | records hstage | leaves hstage | closes hstage | fails hstage
  | returns hstage | raises hstage =>
    exact hsame (by rw [stream, stream, hstage])
  | writes hstage hwrite =>
    rw [stream, hstage]
    exact WriteCommand.sock_isPrefix hwrite

/-- A step of the reader thread that receives nothing. -/
theorem quiet_read {life life' : SyncLifecycle} {act : SyncLifecycle.ReadAct}
    (hact : CommandExchange.receives (.read act) = false) (hlife : life.stepRead act = some life') :
    life'.session = life.session ∧ received life act = [] := by
  cases act with
  | loop | leave =>
    refine ⟨?_, rfl⟩
    cases SyncLifecycle.moves_of_stepRead hlife <;> rfl
  | recv outcome =>
    rw [SyncLifecycle.stepRead] at hlife
    split at hlife
    · cases outcome with
      | timeout | fails text => exact Option.some.inj hlife ▸ ⟨rfl, rfl⟩
      | data chunk =>
        cases chunk with
        | nil => exact Option.some.inj hlife ▸ ⟨rfl, rfl⟩
        | cons b chunk => cases hact
    · cases hlife

/-- A step beside or in `_write`. -/
theorem step_write {act : WriteCommand.Act} (hstep : c.step (.write act) = some c') :
    ∃ write looping write', c.stage = .writing write looping ∧ write.step act = some write'
      ∧ c' = { c with stage := .writing write' looping } := by
  unfold Command.step at hstep
  dsimp only at hstep
  split at hstep
  · cases hstep
  · rename_i write looping hstage _
    obtain ⟨write', hwrite, hnext⟩ := Option.map_eq_some_iff.mp hstep
    exact ⟨write, looping, write', hstage, hwrite, hnext.symm⟩
  · cases hstep

/-- The steps other than those that receive bytes. -/
theorem Hears.step (h : c.Hears session events) (hcoherent : session.Coherent)
    (hprogress : c.Progress) {act : Act} (hact : CommandExchange.receives act = false)
    (hstep : c.step act = some c') : c'.Failed ∨ c'.Hears session events := by
  unfold Hears at h
  unfold Progress at hprogress
  cases act with
  | dispatch =>
    unfold Command.step at hstep
    dsimp only at hstep
    split at hstep
    · exact Option.some.inj hstep ▸ .inl rfl
    · exact Option.some.inj hstep ▸ .inr (.inl rfl)
    · rename_i hstage _
      rw [hstage] at h
      exact Option.some.inj hstep ▸ .inr ⟨h, List.nil_subset _⟩
    · cases hstep
  | connect act =>
    unfold Command.step at hstep
    dsimp only at hstep
    split at hstep
    · rename_i life unread hstage
      rw [hstage] at h
      obtain ⟨life', hlife, rfl⟩ := Option.map_eq_some_iff.mp hstep
      refine .inr ⟨h.1.trans ?_, h.2⟩
      cases SyncLifecycle.moves_of_stepConnect hlife <;> rfl
    · cases hstep
  | read act =>
    unfold Command.step at hstep
    dsimp only at hstep
    split at hstep
    · rename_i life hstage
      rw [hstage] at h
      obtain ⟨life', hlife, rfl⟩ := Option.map_eq_some_iff.mp hstep
      obtain ⟨hsession, hnone⟩ := quiet_read hact hlife
      exact .inr ⟨h.1.trans hsession.symm, hnone ▸ List.nil_subset _⟩
    · cases hstep
  | record =>
    unfold Command.step at hstep
    dsimp only at hstep
    split at hstep
    · rename_i hstage
      rw [hstage] at h
      exact Option.some.inj hstep ▸ .inr ⟨h.1, (List.cons_subset.mp h.2).2⟩
    · cases hstep
  | «begin» clock =>
    unfold Command.step at hstep
    dsimp only at hstep
    split at hstep
    · rename_i life unread name value hstage htarget
      rw [hstage] at h
      split at hstep
      · refine Option.some.inj hstep ▸ .inr ⟨h.1, ?_, trivial⟩
        have hahead : (beginWrite c.options name value life unread clock).ahead = unread :=
          List.append_nil unread
        rw [hahead]
        exact h.2
      · cases hstep
    · cases hstep
  | write act =>
    obtain ⟨write, looping, write', hstage, hwrite, rfl⟩ := step_write hstep
    rw [hstage] at h hprogress
    obtain ⟨hsession, hahead, hawaits⟩ := h
    cases act with
    | main act =>
      refine .inr ⟨hsession.trans (WriteCommand.session_main hwrite).symm,
        List.Subset.trans (WriteCommand.ahead_main hwrite) hahead,
        hawaits.main hahead (hsession ▸ hcoherent) (fun frame hmain => ?_) hwrite⟩
      obtain ⟨before, name, value, hcarries, hwritten, -⟩ := hprogress
      unfold WriteCommand.Written at hwritten
      rw [hmain] at hwritten
      exact ⟨before, hwritten.1, hcarries⟩
    | feed chunk => cases hact
    | record =>
      rw [WriteCommand.step] at hwrite
      split at hwrite
      · cases hwrite
      · rename_i e unread hunread
        refine Option.some.inj hwrite ▸ .inr ⟨hsession, ?_, hawaits.goOn rfl rfl rfl rfl⟩
        refine List.Subset.trans (fun a ha => ?_) hahead
        rw [WriteCommand.ahead, hunread]
        simp only [WriteCommand.ahead, List.mem_append, List.map_append, List.map_cons,
          List.map_nil, List.mem_singleton] at ha
        simp only [List.mem_append, List.map_append, List.mem_cons]
        tauto
    | tick dt =>
      rw [WriteCommand.step, Option.ite_none_right_eq_some] at hwrite
      exact Option.some.inj hwrite.2 ▸ .inr ⟨hsession, hahead, hawaits.goOn rfl rfl rfl rfl⟩
  | leaveLoop =>
    unfold Command.step at hstep
    dsimp only at hstep
    split at hstep
    · rename_i hstage
      rw [hstage] at h
      split at hstep
      · exact Option.some.inj hstep ▸ .inr h
      · cases hstep
    · cases hstep
  | setClosed =>
    unfold Command.step at hstep
    dsimp only at hstep
    split at hstep
    · rename_i hstage
      rw [hstage] at h
      exact Option.some.inj hstep ▸ .inr ⟨h.1, h.2.1, h.2.2.goOn rfl rfl rfl rfl⟩
    · cases hstep
  | exit =>
    unfold Command.step at hstep
    dsimp only at hstep
    split at hstep
    · split at hstep
      · exact Option.some.inj hstep ▸ .inl rfl
      · cases hstep
    · rename_i write looping hstage
      rw [hstage] at h hprogress
      split at hstep
      · rename_i code hmain
        obtain ⟨-, name, value, -, -, htarget, hargs⟩ := hprogress
        have htold := h.2.2
        unfold WriteCommand.Awaits at htold
        rw [hmain] at htold
        exact Option.some.inj hstep ▸ .inr (.inr ⟨name, value, htarget, hargs ▸ htold⟩)
      · exact Option.some.inj hstep ▸ .inl rfl
      · cases hstep
    · cases hstep

end Command

/-! ## One end of an exchange -/

namespace CommandExchange

open Exchange

variable {cooler : FakeCooler} {w w' : CommandExchange} {session : Session} {sent : List Frame}
  {events : List Event} {handled : List Frame} {up down : Bytes}

/-- The process with its connection is an end of an exchange in which the cooler has received `up`
of what it has written. -/
structure Follows (cooler : FakeCooler) (w : CommandExchange) (session : Session)
    (sent : List Frame) (events : List Event) (handled : List Frame) (up down : Bytes) : Prop where
  talks : Conversing {} cooler handled up down (w.asExchange session sent events)
  stream : up ++ w.up = w.command.stream.getD []
  progress : w.command.Progress
  hears : w.command.Hears session events

/-- It is, unless it has failed. -/
def Holds (cooler : FakeCooler) (w : CommandExchange) : Prop :=
  w.command.Failed ∨ ∃ session sent events handled up down,
    Follows cooler w session sent events handled up down

namespace Follows

/-- The session is coherent. -/
theorem coherent (h : Follows cooler w session sent events handled up down) : session.Coherent :=
  Talks.coherent ⟨handled, up, down, h.talks⟩

/-- The process goes on. -/
theorem command (h : Follows cooler w session sent events handled up down) {act : Command.Act}
    (hact : receives act = false) {c : Command} (hstep : w.command.step act = some c) :
    Holds cooler (w.wrote c) := by
  have hprogress : c.Progress := by
    obtain ⟨stage, rfl, hmoves⟩ := Command.moves_of_step hstep
    exact h.progress.move hmoves
  by_cases hok : c.Failed
  · exact .inl hok
  obtain ⟨more, hmore⟩ := h.progress.stream_isPrefix hstep
  obtain ⟨sent', hcarries⟩ := hprogress.exists_carries hok
  have hup : (w.wrote c).up = w.up ++ more := by
    rw [wrote, ← hmore, List.drop_left]
  have hstream : up ++ (w.up ++ more) = c.stream.getD [] := by
    rw [← List.append_assoc, h.stream, hmore]
  refine .inr ⟨session, sent', events, handled, up, down, ?_, ?_, hprogress, ?_⟩
  · have hwritten : Carries (up ++ (w.up ++ more)) sent' := hstream.symm ▸ hcarries
    rw [asExchange, hup]
    exact h.talks.write hwritten
  · rw [hup]
    exact hstream
  · exact (h.hears.step h.coherent h.progress hact hstep).resolve_left hok

/-- The reader thread receives some of the bytes on their way. -/
theorem read (h : Follows cooler w session sent events handled up down) {n : ℕ} (hn : 0 < n)
    (hle : n ≤ w.down.length) {c : Command}
    (hreceive : receive w.command (w.down.take n) = some c) :
    Holds cooler { w with command := c, down := w.down.drop n } := by
  obtain ⟨more, session', hfeed⟩ : ∃ more session',
      session.feed (w.down.take n) = .ok (more, session') := ⟨_, _, Session.feed_eq session _⟩
  have htalks := h.talks.read n hfeed
  obtain ⟨act, hstep, hstream, hhears⟩ : ∃ act, w.command.step act = some c
      ∧ c.stream = w.command.stream ∧ c.Hears session' (events ++ more) := by
    -- recv returns at least one byte, so the thread does not take it for the end
    obtain ⟨b, chunk, hchunk⟩ : ∃ b chunk, w.down.take n = b :: chunk := by
      apply List.ne_nil_iff_exists_cons.mp
      apply List.ne_nil_of_length_pos
      rw [List.length_take]
      omega
    rw [hchunk] at hreceive hfeed
    have hhears := h.hears
    unfold Command.Hears at hhears
    unfold receive at hreceive
    split at hreceive
    -- during connect the reader loop is that of the life cycle
    · rename_i life unread hstage
      rw [hstage] at hhears
      refine ⟨_, hreceive, ?_⟩
      obtain ⟨hsession, hunread⟩ := hhears
      subst hsession
      unfold Command.step at hreceive
      dsimp only at hreceive
      split at hreceive
      · rename_i life' hstage'
        obtain ⟨rfl, rfl⟩ := Stage.connecting.inj (hstage.symm.trans hstage')
        obtain ⟨next, hlife, rfl⟩ := Option.map_eq_some_iff.mp hreceive
        rw [SyncLifecycle.stepRead] at hlife
        split at hlife
        · dsimp only at hlife
          rw [hfeed] at hlife
          rw [← Option.some.inj hlife]
          have hreceived : Command.received life (.recv (.data (b :: chunk))) = more := by
            rw [Command.received, hfeed]
          rw [hreceived]
          refine ⟨?_, rfl, List.subset_append_right events more⟩
          rw [Command.stream, Command.stream, hstage]
        · cases hlife
      · cases hreceive
    -- beside _write it feeds the session of _write
    · rename_i write looping hstage
      rw [hstage] at hhears
      refine ⟨_, hreceive, ?_⟩
      obtain ⟨hsession, hahead, hawaits⟩ := hhears
      subst hsession
      obtain ⟨write', looping', next, hstage', hwrite, rfl⟩ := Command.step_write hreceive
      obtain ⟨rfl, rfl⟩ := Stage.writing.inj (hstage.symm.trans hstage')
      rw [WriteCommand.step] at hwrite
      split at hwrite
      · rename_i hunread hfeed'
        obtain ⟨rfl, rfl⟩ := Prod.mk.inj (Except.ok.inj (hfeed.symm.trans hfeed'))
        rw [← Option.some.inj hwrite]
        refine ⟨?_, rfl, ?_, (hawaits.goOn rfl rfl rfl rfl).mono more⟩
        · rw [Command.stream, Command.stream, hstage]
        · rw [WriteCommand.ahead, hunread, List.nil_append] at hahead
          exact List.append_subset.mpr ⟨List.subset_append_right events more,
            List.Subset.trans hahead (List.subset_append_left events more)⟩
      · cases hwrite
    · cases hreceive
  obtain ⟨stage, rfl, hmoves⟩ := Command.moves_of_step hstep
  exact .inr ⟨session', sent, events ++ more, handled, up, _, htalks, h.stream.trans
    (congrArg (Option.getD · []) hstream.symm), h.progress.move hmoves, hhears⟩

/-- The thread of `_serve` goes on. -/
theorem serve (h : Follows cooler w session sent events handled up down) {act : Exchange.Act}
    (hact : act = .answer ∨ ∃ n, act = .serve n) {y : Exchange}
    (hstep : (w.asExchange {} [] []).step act = some y) : Holds cooler (w.served y) := by
  have hx := step_cooler (x := w.asExchange {} [] []) hact session sent events
  rw [hstep, Option.map_some] at hx
  rcases hact with rfl | ⟨n, rfl⟩
  · cases htodo : w.todo with
    | nil => simp [Exchange.step, asExchange, htodo] at hstep
    | cons frame todo =>
      have hup : y.up = w.up := Exchange.up_answer hstep
      refine .inr ⟨session, sent, events, _, up, down, h.talks.answer htodo hx, ?_, h.progress,
        h.hears⟩
      show up ++ y.up = _
      rw [hup]
      exact h.stream
  · rw [Exchange.step, Option.ite_none_right_eq_some, LineDecoder.feed_eq] at hstep
    obtain ⟨⟨-, htodo, -⟩, hstep⟩ := hstep
    obtain rfl := Option.some.inj hstep
    refine .inr ⟨session, sent, events, handled, _, down,
      h.talks.serve (List.isEmpty_iff.mp htodo) n, ?_, h.progress, h.hears⟩
    show up ++ w.up.take n ++ w.up.drop n = _
    rw [List.append_assoc, List.take_append_drop]
    exact h.stream

end Follows

/-- The process or the cooler goes on. -/
theorem Holds.step (h : Holds cooler w) {act : Act} (hstep : w.step act = some w') :
    Holds cooler w' := by
  cases act with
  | command act =>
    rw [CommandExchange.step] at hstep
    split at hstep
    · cases hstep
    · rename_i hact
      obtain ⟨c, hc, rfl⟩ := Option.map_eq_some_iff.mp hstep
      rcases h with hfailed | ⟨session, sent, events, handled, up, down, h⟩
      · exact .inl (hfailed.step hc)
      · exact h.command (Bool.eq_false_iff.mpr hact) hc
  | read n =>
    rw [CommandExchange.step, Option.ite_none_right_eq_some] at hstep
    obtain ⟨⟨hn, hle⟩, hstep⟩ := hstep
    obtain ⟨c, hreceive, rfl⟩ := Option.map_eq_some_iff.mp hstep
    rcases h with hfailed | ⟨session, sent, events, handled, up, down, h⟩
    · refine .inl ?_
      unfold receive at hreceive
      split at hreceive
      · exact hfailed.step hreceive
      · exact hfailed.step hreceive
      · cases hreceive
    · exact h.read hn hle hreceive
  | serve n =>
    obtain ⟨y, hy, rfl⟩ := Option.map_eq_some_iff.mp hstep
    rcases h with hfailed | ⟨session, sent, events, handled, up, down, h⟩
    · exact .inl hfailed
    · exact h.serve (.inr ⟨n, rfl⟩) hy
  | answer =>
    obtain ⟨y, hy, rfl⟩ := Option.map_eq_some_iff.mp hstep
    rcases h with hfailed | ⟨session, sent, events, handled, up, down, h⟩
    · exact .inl hfailed
    · exact h.serve (.inl rfl) hy

theorem holds_of_run {recorded : List Bytes} {refuse : List Address}
    (hcooler : FakeCooler.create recorded refuse = .ok cooler) {subcommand : Subcommand}
    {options : CommandOptions} {acts : List Act}
    (hrun : Machine.run step (opened subcommand options cooler) acts = some w) :
    Holds cooler w :=
  Machine.run_preserves (fun _ _ _ h hstep => Holds.step h hstep) hrun
    (.inr ⟨{}, [], [], [], [], [], ⟨rfl, carries_nil, decodes_nil, rfl, rfl,
      FakeCooler.stocked_create hcooler, carries_nil, ⟨{}, decodes_nil, rfl⟩, rfl⟩, rfl, trivial,
      rfl⟩)

/-- The arguments of the process stay as they are. -/
theorem params_step {act : Act} (hstep : w.step act = some w') :
    w'.command.subcommand = w.command.subcommand ∧ w'.command.options = w.command.options := by
  cases act with
  | command act =>
    rw [CommandExchange.step] at hstep
    split at hstep
    · cases hstep
    · obtain ⟨c, hc, rfl⟩ := Option.map_eq_some_iff.mp hstep
      exact Command.params_step hc
  | read n =>
    rw [CommandExchange.step, Option.ite_none_right_eq_some] at hstep
    obtain ⟨c, hreceive, rfl⟩ := Option.map_eq_some_iff.mp hstep.2
    unfold receive at hreceive
    split at hreceive
    · exact Command.params_step hreceive
    · exact Command.params_step hreceive
    · cases hreceive
  | serve n | answer =>
    obtain ⟨y, hy, rfl⟩ := Option.map_eq_some_iff.mp hstep
    exact ⟨rfl, rfl⟩

theorem params_of_run {subcommand : Subcommand} {options : CommandOptions} {acts : List Act}
    (hrun : Machine.run step (opened subcommand options cooler) acts = some w) :
    w.command.subcommand = subcommand ∧ w.command.options = options :=
  Machine.run_preserves
    (I := fun w => w.command.subcommand = subcommand ∧ w.command.options = options)
    (fun _ _ _ h hstep => ⟨(params_step hstep).1.trans h.1, (params_step hstep).2.trans h.2⟩) hrun
    ⟨rfl, rfl⟩

theorem mem_burst {f : Frame} (hf : f ∈ Command.burst) : f.action = Action.SUBSCRIBE.value := by
  obtain ⟨t, -, rfl⟩ := List.mem_map.mp hf
  rfl

namespace Follows

/-- What the process has written are the frames sent. -/
theorem sent_eq (h : Follows cooler w session sent events handled up down) {frames : List Frame}
    (hcarries : Carries (w.command.stream.getD []) frames) : sent = frames := by
  have hsent : Carries (up ++ w.up) sent := h.talks.sent
  rw [h.stream] at hsent
  exact hsent.reference.1.symm.trans hcarries.reference.1

/-- An event is that of an answer. -/
theorem exists_answer (h : Follows cooler w session sent events handled up down) {e : Event}
    (he : e ∈ events) : ∃ answer ∈ (cooler.converse handled).2, eventOf answer = e := by
  have hevents : events = (reference down).frames.map eventOf := h.talks.events
  rw [hevents] at he
  obtain ⟨answer, hanswer, rfl⟩ := List.mem_map.mp he
  exact ⟨answer, h.talks.read_isPrefix.subset hanswer, rfl⟩

end Follows

/-- What a code says about the cooler. After 2 it keeps what it kept. After 0, 3 and 4 the burst and
one SET have been written, and the cooler has taken over the SET once it has handled everything
written, if it does not refuse it; after 0 it keeps a value that the write accepts; and after 3 it
refuses the address, and keeps what it kept. -/
theorem exit_code_kept {recorded : List Bytes} {refuse : List Address}
    (hcooler : FakeCooler.create recorded refuse = .ok cooler) {subcommand : Subcommand}
    {options : CommandOptions} {acts : List Act}
    (hrun : Machine.run step (opened subcommand options cooler) acts = some w) {code : ℕ}
    {sock : Option Bytes} (hexit : w.command.stage = .exited code sock) :
    (code = 2 → w.cooler.publishes = cooler.publishes)
      ∧ (code ∈ [0, 3, 4] → ∃ name value,
        ∃ (session : Session) (frame : Frame) (expectation : WriteExpectation),
        subcommand.target = .ok (some (name, value))
        ∧ session.setFrame (.name name) value options.compartment = .ok (frame, expectation)
        ∧ Carries (sock.getD []) (Command.burst ++ [frame])
        ∧ (code = 0 → ∃ kept, w.cooler.publishes.get? frame.address = some kept
          ∧ (expectation.matches (eventOf kept)).1 = some true)
        ∧ (code = 3 →
          (∀ raw ∈ recorded, ∀ frame, Frame.decode raw = .ok frame → frame.IsPublish) →
          frame.address ∈ refuse ∧ w.cooler.publishes = cooler.publishes)
        ∧ (w.up = [] → w.todo = [] → w.cooler.publishes =
          if frame.address ∈ refuse then cooler.publishes
          else cooler.publishes.set frame.address (echoOf frame))) := by
  have hstocked := FakeCooler.stocked_create hcooler
  have hrefuses := FakeCooler.refuse_create hcooler
  obtain ⟨rfl, rfl⟩ := params_of_run hrun
  rcases holds_of_run hcooler hrun with hfailed | ⟨session, sent, events, handled, up, down, h⟩
  · unfold Command.Failed at hfailed
    rw [hexit] at hfailed
    obtain rfl := hfailed
    exact ⟨fun hcode => absurd hcode (by decide), fun hcode => absurd hcode (by decide)⟩
  have hkept : w.cooler = (cooler.converse handled).1 := h.talks.state
  have hstream : w.command.stream = sock := by rw [Command.stream, hexit]
  have hsent {frames : List Frame} (hcarries : Carries (sock.getD []) frames) : sent = frames :=
    h.sent_eq (hstream.symm ▸ hcarries)
  have hprogress := h.progress
  have hhears := h.hears
  unfold Command.Progress at hprogress
  unfold Command.Hears at hhears
  rw [hexit] at hprogress hhears
  constructor
  · rintro rfl
    -- after 2 the cooler has been sent subscriptions at most
    have hburst : sent ⊆ Command.burst := by
      rcases hprogress with ⟨hcode, -⟩ | ⟨-, rfl | ⟨-, stream, rfl, hcarries⟩⟩ | ⟨hcode, -⟩
      · exact absurd hcode (by decide)
      · rw [hsent carries_nil]
        exact List.nil_subset _
      · rw [hsent hcarries]
        exact List.Subset.refl _
      · exact absurd hcode (by decide)
    rw [hkept]
    exact (hstocked.converse_subscribes fun f hf =>
      mem_burst (hburst (h.talks.handled_isPrefix.subset hf))).1
  · intro hcode
    have htwo : ∀ code ∈ [0, 3, 4], code ≠ 2 := by decide
    obtain ⟨name, value, htarget, htold⟩ := hhears.resolve_left (htwo code hcode)
    obtain ⟨frame, expectation, ⟨s, hcoherent, hset⟩, hcarries, hconfirmed, hrefused⟩ :=
      htold.resolve_left (htwo code hcode)
    have href : TopicRef.Registered (.name name) := trivial
    obtain ⟨-, haction, haddr, hecho⟩ := echo_of_setFrame hcoherent href hset
    have hall := hsent hcarries
    have hcases := hstocked.converse_set (fun f hf => mem_burst hf) haction
      (hall ▸ h.talks.handled_isPrefix)
    rw [hrefuses, ← hkept] at hcases
    refine ⟨name, value, s, frame, expectation, htarget, hset, hcarries, fun hzero => ?_,
      fun hthree hrec => ?_, fun hup htodo => ?_⟩
    · -- the event that confirms is of an answer to the burst, or the echo has taken its place
      obtain ⟨e, he, hmatches⟩ := hconfirmed hzero
      obtain ⟨answer, hanswer, rfl⟩ := h.exists_answer he
      rcases expectation.answer_of_matches hmatches with
        ⟨-, topic, value, raw, hpublish, -⟩ | ⟨hfalse, -⟩
      · obtain ⟨hispublish, haddress⟩ := eventOf_eq_publish hpublish
        rcases hcases with ⟨-, hsame, hanswers⟩ | ⟨-, -, hechoed⟩
        · refine ⟨answer, ?_, hmatches⟩
          rw [hsame, haddr, ← haddress]
          exact hanswers answer hanswer hispublish
        · refine ⟨echoOf frame, ?_, hecho expectation.observed⟩
          rw [hechoed, Dict.get?_set, if_pos rfl]
      · cases hfalse
    · -- only a cooler that refuses the address answers with a NAK
      obtain ⟨e, he, hmatches⟩ := hrefused hthree
      obtain ⟨answer, hanswer, rfl⟩ := h.exists_answer he
      rcases expectation.answer_of_matches hmatches with ⟨hfalse, -⟩ | ⟨-, raw, hnak⟩
      · cases hfalse
      · obtain ⟨hnot, haddress⟩ := eventOf_eq_nak hnak
        have hrefuse : frame.address ∈ refuse := by
          rw [haddr, ← haddress, ← hrefuses]
          exact ((FakeCooler.publishing_create hcooler hrec).converse_answers handled answer
            hanswer).resolve_left hnot
        rcases hcases with ⟨-, hsame, -⟩ | ⟨-, hnotin, -⟩
        · exact ⟨hrefuse, hsame⟩
        · exact absurd hrefuse hnotin
    -- the cooler has handled all frames that were written
    · have hhandled : handled = Command.burst ++ [frame] :=
        (h.talks.sent_eq hup htodo).symm.trans hall
      rcases hcases with ⟨hrefuse, hsame, -⟩ | ⟨-, hnotin, hechoed⟩
      · rw [if_pos (hrefuse hhandled), hsame]
      · rw [if_neg hnotin, hechoed]

/-- The command sends the burst and the SET. Then the cooler answers, and the reader thread receives
both publishes at once. -/
def switchOn : List Act :=
  let answers : List Act := .serve 220 :: List.replicate (Command.burst.length + 1) .answer
  let checks : List Command.Act := [.write .record, .write .record, .write (.main .test),
    .write (.main .drain), .write (.main .check), .exit]
  Command.sends.map .command ++ answers ++ .read 26 :: checks.map .command

theorem exit_code_kept_switchOn :
    ∃ w sock name value, ∃ (session : Session) (frame : Frame) (expectation : WriteExpectation),
      Machine.run step
          (opened (.set "coolerpow" "on") { host := "cooler", yes := true } poweredOn) switchOn
        = some w
      ∧ w.command.stage = .exited 0 sock
      ∧ session.setFrame (.name name) value none = .ok (frame, expectation)
      ∧ Carries (sock.getD []) (Command.burst ++ [frame])
      ∧ ∃ kept, w.cooler.publishes.get? frame.address = some kept
        ∧ (expectation.matches (eventOf kept)).1 = some true := by
  have hexits : (Machine.run step
      (opened (.set "coolerpow" "on") { host := "cooler", yes := true } poweredOn) switchOn).map
      (fun w => match w.command.stage with | .exited code _ => code | _ => 1) = some 0 := by
    decide +kernel
  obtain ⟨w, hrun, hcode⟩ := Option.map_eq_some_iff.mp hexits
  split at hcode
  · rename_i code sock hexit
    obtain rfl := hcode
    obtain ⟨-, hkept⟩ := exit_code_kept create_poweredOn hrun hexit
    obtain ⟨name, value, session, frame, expectation, -, hset, hcarries, hzero, -⟩ :=
      hkept (by decide)
    exact ⟨w, sock, name, value, session, frame, expectation, hrun, hexit, hset, hcarries,
      hzero rfl⟩
  · cases hcode

end CommandExchange

end Ddmp
