import Ddmp.Client.AsyncClientTheorems

/-!
# Refused writes

A NAK carries an address and nothing that tells which SET it answers. `_resolve` hands it to
every pending write for that address, so one NAK can fail several writes.
`rejected_le_naks` gives the runs in which no NAK fails more than one.
-/

namespace Ddmp

open Lib

/-- The event is a NAK. -/
def Event.isNak : Event → Bool
  | .nak .. => true
  | _ => false

/-- Only a NAK for the address of the topic is a refusal. -/
theorem WriteExpectation.nak_of_matches {e : WriteExpectation} {event : Event}
    (h : (e.matches event).1 = some false) : ∃ raw, event = .nak e.topic.address raw := by
  rcases e.answer_of_matches h with ⟨hfalse, -⟩ | ⟨-, hnak⟩
  · cases hfalse
  · exact hnak

namespace SetCall

/-- The call has ended with `WriteRejected`. -/
def isRejected (call : SetCall) : Bool :=
  match call.phase with
  | .raised e => e.isRejection
  | _ => false

/-- The future holds a `WriteRejected`. -/
def isRefused (call : SetCall) : Bool :=
  match call.future with
  | .exception e => e.isRejection
  | _ => false

@[simp] theorem isRefused_wait (call : SetCall) : call.wait.isRefused = call.isRefused := rfl

@[simp] theorem isRefused_finish (outcome : Except PyErr Value) (call : SetCall) :
    (call.finish outcome).isRefused = call.isRefused := rfl

@[simp] theorem isRefused_interrupt (reason : Interrupt) (call : SetCall) :
    (call.interrupt reason).isRefused = call.isRefused := by
  unfold interrupt isRefused
  cases call.future <;> rfl

@[simp] theorem isRefused_lose (call : SetCall) : call.lose.isRefused = call.isRefused := by
  cases h : call.future.done with
  | true => rw [lose_of_done h]
  | false =>
    rw [lose_of_not_done h]
    unfold isRefused
    rw [Future.eq_pending h]
    rfl

/-- Only a NAK for its address makes an event refuse a write, and only a pending one. -/
theorem isRefused_resolve {event : Event} {call : SetCall} (hbefore : call.isRefused = false)
    (hafter : (call.resolve event).isRefused = true) :
    call.future.done = false
      ∧ ∃ raw, event = .nak call.expectation.topic.address raw := by
  cases hdone : call.future.done with
  | true =>
    rw [resolve_of_done hdone, hbefore] at hafter
    exact absurd hafter Bool.false_ne_true
  | false =>
    refine ⟨rfl, ?_⟩
    have hne : ¬ call.future.done = true := Bool.eq_false_iff.mp hdone
    rw [resolve, if_neg hne] at hafter
    cases hm : call.expectation.matches event with
    | mk verdict expectation =>
      rw [hm] at hafter
      cases verdict with
      | none => exact absurd (hbefore.symm.trans hafter) Bool.false_ne_true
      | some verdict =>
        cases verdict with
        | true =>
          dsimp only at hafter
          rw [setResult, if_neg hne] at hafter
          exact absurd hafter Bool.false_ne_true
        | false => exact WriteExpectation.nak_of_matches (congrArg Prod.fst hm)

/-- A call that ends with `WriteRejected` has got it as the outcome. -/
theorem isRejected_finish {outcome : Except PyErr Value} {call : SetCall}
    (h : (call.finish outcome).isRejected = true) :
    ∃ e, outcome = .error e ∧ e.isRejection = true := by
  cases outcome with
  | ok value => exact nomatch h
  | error e =>
    cases e with
    | writeRejected msg => exact ⟨_, rfl, rfl⟩
    | _ => exact nomatch h

end SetCall

namespace AsyncClient

/-- Entry `i` waits for an answer from the address. -/
def Awaits (c : AsyncClient) (address : Address) (i : ℕ) : Prop :=
  ∃ call, c.calls.slots[i]? = some call ∧ call.future.done = false
    ∧ call.expectation.topic.address = address

/-- A NAK is processed while at most one entry waits for an answer from its address; and
`drain` raises no `WriteRejected`, which is not an exception of `asyncio`. -/
structure RefusesOne (c : AsyncClient) (act : Act) : Prop where
  one : ∀ address raw rest, act = .reader .handle → c.reader = .running (.nak address raw :: rest) →
    ∀ i ∈ c.calls.live, ∀ j ∈ c.calls.live, c.Awaits address i → c.Awaits address j → i = j
  drain : ∀ i e, act = .call i (.drainFails e) → e.isRejection = false

/-- The rejected calls have a refused future, and there are no more of these than NAKs. -/
structure RefusalInv (c : AsyncClient) : Prop where
  nodup : c.calls.live.Nodup
  rejected : ∀ call ∈ c.calls.slots, call.isRejected = true → call.isRefused = true
  count : c.calls.slots.countP SetCall.isRefused ≤ c.log.countP Event.isNak

namespace RefusalInv

variable {c : AsyncClient}

/-- One event refuses at most one write, if it is a NAK, and none otherwise. -/
theorem count_handle (h : c.RefusalInv) {event : Event} {rest : List Event}
    (hreader : c.reader = .running (event :: rest))
    (hone : c.RefusesOne (.reader .handle)) :
    (c.handle event rest).calls.slots.countP SetCall.isRefused
      ≤ (c.handle event rest).log.countP Event.isNak := by
  have hlog : (c.handle event rest).log.countP Event.isNak
      = c.log.countP Event.isNak + [event].countP Event.isNak := List.countP_append
  have hcount := h.count
  -- an entry that turns is waiting for the address of the NAK
  have hturns : ∀ i, Registry.Turns SetCall.isRefused (SetCall.resolve event) c.calls.slots i →
      ∃ address raw, event = .nak address raw ∧ c.Awaits address i := by
    rintro i ⟨call, hi, hbefore, hafter⟩
    obtain ⟨hdone, raw, hevent⟩ := SetCall.isRefused_resolve hbefore hafter
    exact ⟨_, raw, hevent, call, hi, hdone, rfl⟩
  rw [hlog]
  cases event with
  | nak address raw =>
    -- two that turn would both be waiting for it
    have hle := Registry.countP_each_le_succ h.nodup (p := SetCall.isRefused)
      (f := SetCall.resolve (.nak address raw)) fun i hi j hj hi' hj' => by
        obtain ⟨a, _, heq, hai⟩ := hturns i hi'
        obtain ⟨b, _, heq', haj⟩ := hturns j hj'
        obtain ⟨rfl, -⟩ := Event.nak.inj heq
        obtain ⟨rfl, -⟩ := Event.nak.inj heq'
        exact hone.one address raw rest rfl hreader i hi j hj hai haj
    exact Nat.le_trans hle (Nat.add_le_add_right hcount 1)
  | publish address topic value raw =>
    refine Nat.le_trans (Registry.countP_each_le h.nodup fun i _ hi' => ?_) hcount
    obtain ⟨_, _, heq, -⟩ := hturns i hi'
    exact nomatch heq
  | unhandled frame =>
    refine Nat.le_trans (Registry.countP_each_le h.nodup fun i _ hi' => ?_) hcount
    obtain ⟨_, _, heq, -⟩ := hturns i hi'
    exact nomatch heq

theorem handle (h : c.RefusalInv) {event : Event} {rest : List Event}
    (hreader : c.reader = .running (event :: rest))
    (hone : c.RefusesOne (.reader .handle)) : (c.handle event rest).RefusalInv where
  nodup := h.nodup
  rejected := by
    intro call hcall hrejected
    obtain ⟨a, ha, rfl | rfl⟩ := Registry.mem_each h.nodup hcall
    · exact h.rejected call ha hrejected
    · have hphase : (a.resolve event).isRejected = a.isRejected := by
        rw [SetCall.isRejected, SetCall.phase_resolve, SetCall.isRejected]
      have hrefused := h.rejected a ha (hphase ▸ hrejected)
      -- a refused write is settled, so the event leaves it alone
      have hdone : a.future.done = true := by
        cases hf : a.future with
        | pending =>
          rw [SetCall.isRefused, hf] at hrefused
          exact nomatch hrefused
        | result | exception | cancelled => rfl
      rw [SetCall.resolve_of_done hdone]
      exact hrefused
  count := h.count_handle hreader hone

theorem endReading (h : c.RefusalInv) (error : Option PyErr) : (c.endReading error).RefusalInv where
  nodup := h.nodup
  rejected := by
    intro call hcall hrejected
    obtain ⟨a, ha, rfl | rfl⟩ := Registry.mem_each h.nodup hcall
    · exact h.rejected call ha hrejected
    · rw [SetCall.isRefused_lose]
      refine h.rejected a ha ?_
      rwa [SetCall.isRejected, SetCall.phase_lose] at hrejected
  count := by
    refine Nat.le_trans (Registry.countP_each_le h.nodup ?_) h.count
    rintro i - ⟨a, -, hbefore, hafter⟩
    rw [SetCall.isRefused_lose, hbefore] at hafter
    exact nomatch hafter

/-- A change of one slot that does not touch its future. -/
theorem modify (h : c.RefusalInv) {i : ℕ} {f : SetCall → SetCall}
    (hf : ∀ a, (f a).isRefused = a.isRefused)
    (hrejected : ∀ a, c.calls.slots[i]? = some a → (f a).isRejected = true → a.isRefused = true) :
    (∀ call ∈ c.calls.slots.modify i f, call.isRejected = true → call.isRefused = true)
      ∧ (c.calls.slots.modify i f).countP SetCall.isRefused ≤ c.log.countP Event.isNak := by
  constructor
  · refine Registry.forall_mem_modify h.rejected fun a ha hrej => ?_
    rw [hf]
    exact hrejected a ha hrej
  · refine Nat.le_trans (Registry.countP_modify_le ?_) h.count
    rintro ⟨a, -, hbefore, hafter⟩
    rw [hf, hbefore] at hafter
    exact nomatch hafter

theorem update (h : c.RefusalInv) {i : ℕ} {f : SetCall → SetCall}
    (hf : ∀ a, (f a).isRefused = a.isRefused) (hphase : ∀ a, (f a).isRejected = false) :
    RefusalInv { c with calls := c.calls.update i f } := by
  have hboth := h.modify (i := i) hf fun a _ hrej => (nomatch (hphase a).symm.trans hrej)
  exact ⟨h.nodup, hboth.1, hboth.2⟩

theorem leave (h : c.RefusalInv) {i : ℕ} {outcome : Except PyErr Value}
    (hrejected : ∀ a e, c.calls.slots[i]? = some a → outcome = .error e → e.isRejection = true →
      a.isRefused = true) : (c.leave i outcome).RefusalInv := by
  have hboth := h.modify (i := i) (SetCall.isRefused_finish outcome) fun a ha hrej => by
    obtain ⟨e, he, hrejection⟩ := SetCall.isRejected_finish hrej
    exact hrejected a e ha he hrejection
  exact ⟨h.nodup.sublist List.eraseP_sublist, hboth.1, hboth.2⟩

theorem addEntry (h : c.RefusalInv) (hlive : c.calls.slots.length ∉ c.calls.live)
    (expectation : WriteExpectation) (timeout : Value) :
    (c.addEntry expectation timeout).RefusalInv where
  nodup := List.nodup_append.mpr ⟨h.nodup, List.pairwise_singleton _ _, fun i hi j hj hij =>
    hlive (List.mem_singleton.mp hj ▸ hij ▸ hi)⟩
  rejected := Registry.forall_mem_add h.rejected fun hrej => (nomatch hrej)
  count := by
    have hnew : (c.addEntry expectation timeout).calls.slots.countP SetCall.isRefused
        = c.calls.slots.countP SetCall.isRefused := by
      show (c.calls.slots ++ [_]).countP _ = _
      rw [List.countP_append]
      rfl
    rw [hnew]
    exact h.count

end RefusalInv

variable {c c' : AsyncClient}

theorem step_refusalInv (hinv : c.Inv) (h : c.RefusalInv) {act : Act} (hone : c.RefusesOne act)
    (hstep : c.step act = some c') : c'.RefusalInv := by
  have hlive : c.calls.slots.length ∉ c.calls.live := fun hmem =>
    Nat.lt_irrefl _ (hinv.pending.lt_length hmem)
  cases moves_of_step hstep with
  | handles hreader => exact h.handle hreader hone
  | ends hreader error =>
    have hend := h.endReading error
    exact ⟨hend.nodup, hend.rejected, hend.count⟩
  | withdraws expectation he =>
    refine (h.addEntry hlive expectation _).leave fun a e _ heq hrejection => ?_
    rw [← Except.error.inj heq, he] at hrejection
    exact nomatch hrejection
  | @sends _ _ _ timeout _ expectation line =>
    have hadd := h.addEntry hlive expectation timeout
    exact ⟨hadd.nodup, hadd.rejected, hadd.count⟩
  | waits => exact h.update SetCall.isRefused_wait fun _ => rfl
  | interrupts _ _ reason => exact h.update (SetCall.isRefused_interrupt reason) fun _ => rfl
  | @leaves i call act outcome hi _ hrejected =>
    have hleave : (c.leave i outcome).RefusalInv := by
      -- a call raises the refusal that its future holds, as drain raises none
      refine h.leave fun a e ha heq hrejection => ?_
      obtain rfl := Option.some.inj (hi.symm.trans ha)
      rcases hrejected e heq hrejection with hfuture | rfl
      · rw [SetCall.isRefused, hfuture]
        exact hrejection
      · exact nomatch (hone.drain i e rfl).symm.trans hrejection
    exact ⟨hleave.nodup, hleave.rejected, hleave.count⟩
  | begins | reads | neverRuns | sendRaises | writes | loses | raises | closesAgain | closes
  | releases | closeReturns | closeRaises | iterates => exact ⟨h.nodup, h.rejected, h.count⟩

theorem refusalInv_fresh (session : Session) : RefusalInv { session } where
  nodup := List.nodup_nil
  rejected := fun _ hcall => absurd hcall List.not_mem_nil
  count := Nat.le_refl 0

/-- In a run in which every NAK meets at most one write that waits for its address, no more
calls of `set` have ended with `WriteRejected` than NAKs have been processed; and a call that
raises at once does not raise it. -/
theorem rejected_le_naks {session : Session} {acts : List Act}
    (hrun : Machine.run step { session } acts = some c)
    (hone : Machine.Along step RefusesOne { session } acts) :
    c.calls.slots.countP SetCall.isRejected ≤ c.log.countP Event.isNak
      ∧ ∀ ref value compartment timeout e c',
        c.set ref value compartment timeout = (.error e, c') → e.isRejection = false := by
  have hinv : c.Inv ∧ c.RefusalInv := Machine.run_preserves_along
    (I := fun c => c.Inv ∧ c.RefusalInv)
    (fun _ _ _ h hsafe hstep => ⟨step_inv h.1 hstep, step_refusalInv h.1 h.2 hsafe hstep⟩) hrun hone
    ⟨inv_fresh session, refusalInv_fresh session⟩
  constructor
  · refine Nat.le_trans (List.countP_mono_left ?_) hinv.2.count
    exact fun call hcall => hinv.2.rejected call hcall
  · intro ref value compartment timeout e c' hset
    rcases c.set_cases ref value compartment timeout with
      ⟨e', he, heq⟩ | ⟨_, ⟨e', he, heq⟩ | ⟨_, _, heq⟩⟩
    · obtain ⟨h, -⟩ := Prod.mk.inj (heq.symm.trans hset)
      exact Except.error.inj h ▸ he
    · obtain ⟨h, -⟩ := Prod.mk.inj (heq.symm.trans hset)
      exact Except.error.inj h ▸ he
    · obtain ⟨h, -⟩ := Prod.mk.inj (heq.symm.trans hset)
      exact nomatch h

/-! ### Refusals of a write to the cooler's power -/

/-- A call that switches the cooler on. -/
def powerCall (phase : Phase) (future : Future) : SetCall where
  expectation := WriteExpectation.coolerOn
  timeout := .int 10
  addedAt := 0
  future := future
  phase := phase

/-- The cooler refuses a write to `coolerpow`. -/
def refusal : Event := .nak (mccc 0x0B) []

/-- The `WriteRejected` of such a write. -/
def rejection : PyErr :=
  .writeRejected [.lit "cooler refused ", .val (.str "coolerpow"), .lit " (NAK)"]

/-- The client with some calls, and what the reader task has left to handle. -/
def powering (calls : Registry SetCall) (rest : List Event) : AsyncClient where
  reader := .running rest
  written := calls.slots.flatMap fun _ => bytesLit "EQsAABoBAAAA\r"
  calls := calls

/-- The client once the refusal has been handled. -/
def afterRefusal (calls : Registry SetCall) : AsyncClient :=
  { powering calls [] with events := [some refusal], log := [refusal] }

theorem step_set_powerCall (calls : List SetCall) (live : List ℕ) :
    step (powering { slots := calls, live } [])
        (.set (.name "coolerpow") (.bool true) none (.int 10))
      = some (powering { slots := calls ++ [powerCall .sending .pending],
                         live := live ++ [calls.length] } []) := by
  have hset := set_of_fresh (c := powering { slots := calls, live } []) rfl rfl (.int 10)
  refine (congrArg (fun result => some result.2) hset).trans ?_
  simp only [powering, List.flatMap_append]
  rfl

/-- The addresses to which the pending writes go. -/
def addresses (c : AsyncClient) : List (Option Address) :=
  c.calls.live.map fun i => c.calls.slots[i]?.map fun call => call.expectation.topic.address

/-- Writes to different addresses never share a NAK. -/
theorem refusesOne_of_nodup (hnodup : c.addresses.Nodup) {act : Act}
    (hact : ∀ i e, act ≠ .call i (.drainFails e)) : c.RefusesOne act where
  one := by
    rintro address _ _ _ _ i hi j hj ⟨a, ha, -, haddr⟩ ⟨b, hb, -, hbddr⟩
    refine List.inj_on_of_nodup_map hnodup hi hj ?_
    rw [ha, hb, Option.map_some, Option.map_some, haddr, hbddr]
  drain := fun i e h => absurd h (hact i e)

/-- The cooler refuses two writes that are pending at the same time. -/
def twoRefused : List Act :=
  [.reader .begin, .set (.name "coolerpow") (.bool true) none (.int 10),
    .set (.name "icepow") (.bool true) none (.int 10), .call 0 .drained, .call 1 .drained,
    .reader (.read (bytesLit "BREAABo=\r")), .reader .handle, .call 1 .resume,
    .reader (.read (bytesLit "BQsAABo=\r")), .reader .handle, .call 0 .resume]

theorem rejected_le_naks_twoRefused :
    ∃ c, Machine.run step {} twoRefused = some c
      ∧ c.calls.slots.map SetCall.isRejected = [true, true] ∧ c.log.countP Event.isNak = 2
      ∧ c.calls.slots.countP SetCall.isRejected ≤ 2 := by
  have hends : (Machine.run step {} twoRefused).map (fun c =>
      (c.calls.slots.map SetCall.isRejected, c.log.countP Event.isNak)) = some ([true, true], 2) :=
    rfl
  -- while both are pending, they are for different addresses
  have haddresses : (Machine.history step {} twoRefused).map (fun p => p.1.addresses)
      = [[], [], [some (mccc 0x0B)], [some (mccc 0x0B), some (mccc 0x11)],
        [some (mccc 0x0B), some (mccc 0x11)], [some (mccc 0x0B), some (mccc 0x11)],
        [some (mccc 0x0B), some (mccc 0x11)], [some (mccc 0x0B), some (mccc 0x11)],
        [some (mccc 0x0B)], [some (mccc 0x0B)], [some (mccc 0x0B)]] := rfl
  have hnodup : ∀ l ∈ (Machine.history step {} twoRefused).map (fun p => p.1.addresses),
      l.Nodup := by
    rw [haddresses]
    decide
  obtain ⟨c, hrun, hc⟩ := Option.map_eq_some_iff.mp hends
  obtain ⟨hrejected, hnaks⟩ := Prod.mk.inj hc
  have hone : Machine.Along step RefusesOne {} twoRefused := by
    refine Machine.along_iff_history.mpr fun p hp => ?_
    refine refusesOne_of_nodup (hnodup _ (List.mem_map_of_mem hp)) fun i e h => ?_
    have hmem := Machine.mem_of_mem_history hp
    rw [h] at hmem
    simp [twoRefused] at hmem
  exact ⟨c, hrun, hrejected, hnaks, hnaks ▸ (rejected_le_naks hrun hone).1⟩

/-- Two writes are pending when the NAK comes that answers the first: both are rejected. -/
theorem two_rejected_by_one_nak :
    ∃ c, Machine.run step {} [.reader .begin,
          .set (.name "coolerpow") (.bool true) none (.int 10),
          .set (.name "coolerpow") (.bool true) none (.int 10), .call 0 .drained, .call 1 .drained,
          .reader (.read (bytesLit "BQsAABo=\r")), .reader .handle, .call 0 .resume,
          .call 1 .resume] = some c
      ∧ c.calls.slots.countP SetCall.isRejected = 2 ∧ c.log.countP Event.isNak = 1 := by
  refine ⟨afterRefusal { slots := List.replicate 2 (powerCall (.raised rejection)
    (.exception rejection)), live := [] }, ?_, rfl, rfl⟩
  refine (Machine.run_cons_some step).mpr ⟨powering {} [], rfl, ?_⟩
  refine (Machine.run_cons_some step).mpr ⟨_, step_set_powerCall [] [], ?_⟩
  exact (Machine.run_cons_some step).mpr
    ⟨_, step_set_powerCall [powerCall .sending .pending] [0], rfl⟩

end AsyncClient

end Ddmp
