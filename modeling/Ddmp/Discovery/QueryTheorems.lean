import Ddmp.Discovery.Query
import Ddmp.Discovery.AdvertisementTheorems
import Ddmp.Discovery.BrowseTheorems
import Ddmp.Discovery.FollowUpTheorems
import Ddmp.Discovery.Written
import Ddmp.Lib.Pacing
import Mathlib.Tactic.Linarith

/-!
# What a browse asks, and when it ends

`Moves` lists what one step of `query_mdns` can do. From it come three facts about every run: how
often it sends (`sent_le_five`), what it asks (`asked_once`), and what it returns, and when
(`returned_services`). The queries that come back to it make no difference
(`collect_without_queries`).
-/

namespace Ddmp

open Lib BigEndian Fallible

namespace MdnsQuery

variable {lower : List Char → List Char} {s s' : MdnsQuery}

/-! ## One step -/

/-- The steps. -/
inductive Moves (lower : List Char → List Char) (s : MdnsQuery) : Act → MdnsQuery → Prop
  | fails {act : Act} (hphase : s.phase = .opening ∨ s.phase = .ready) (e : PyErr) :
      Moves lower s act { s with phase := .raised e }
  | prepares (hphase : s.phase = .opening) {unicast : Bool} {query : Bytes}
      (hquery : buildQuery s.service unicast [] = .ok query) :
      Moves lower s (.setup (.ok unicast)) { s with
        unicast, query, deadline := s.clock + s.timeout, opened := s.clock, phase := .ready }
  | begins (hphase : s.phase = .ready) :
      Moves lower s (.first (.ok ())) { s with phase := .testing }
  | goesOn (hphase : s.phase = .testing) (htime : s.clock < s.deadline) :
      Moves lower s .test { s with phase := .looking }
  | ends (hphase : s.phase = .testing) (htime : s.deadline ≤ s.clock) :
      Moves lower s .test { s with phase := .returned (s.collector.services lower) }
  | looks (hphase : s.phase = .looking) : Moves lower s .look { s with phase := .asking s.clock }
  | asks {now : ℚ} (hphase : s.phase = .asking now) (hdue : s.nextSend ≤ now)
      (hne : s.followups lower ≠ []) {message : Bytes}
      (hmessage : buildQuery serviceType s.unicast (s.followups lower) = .ok message) :
      Moves lower s .ask { s.send now (s.followups lower) message with
        asked := s.asked ∪ (s.followups lower).toFinset
        nextSend := now + pause s.timeout
        phase := .receiving }
  | cannotAsk {now : ℚ} (hphase : s.phase = .asking now) (e : PyErr) :
      Moves lower s .ask
        { s with asked := s.asked ∪ (s.followups lower).toFinset, phase := .raised e }
  | browses {now : ℚ} (hphase : s.phase = .asking now) (hdue : s.nextSend ≤ now)
      (hnobody : s.collector.instances = ∅) :
      Moves lower s .ask
        { s.send now [] s.query with nextSend := now + pause s.timeout, phase := .receiving }
  | waits {now : ℚ} (hphase : s.phase = .asking now) {nextSend : ℚ}
      (hnext : s.nextSend ≤ nextSend) :
      Moves lower s .ask { s with nextSend, phase := .receiving }
  | timesOut (hphase : s.phase = .receiving) :
      Moves lower s (.recv .timeout) { s with phase := .testing }
  | breaks (hphase : s.phase = .receiving) :
      Moves lower s (.recv .osError) { s with phase := .returned (s.collector.services lower) }
  | takes (hphase : s.phase = .receiving) {data : Bytes} {host : String} {port : ℕ}
      {collector : MdnsCollector} (hadd : s.collector.add lower data = (.ok (), collector)) :
      Moves lower s (.recv (.datagram data host port)) { s with
        collector
        received := s.received ++ [(s.clock, data)]
        deadline := if collector.instances ≠ ∅ ∧ collector.missing lower = []
          then min s.deadline (s.clock + 3 / 10) else s.deadline
        phase := .testing }
  | cannotTake (hphase : s.phase = .receiving) {data : Bytes} {host : String} {port : ℕ}
      {collector : MdnsCollector} {e : PyErr}
      (hadd : s.collector.add lower data = (.error e, collector)) :
      Moves lower s (.recv (.datagram data host port)) { s with
        collector, received := s.received ++ [(s.clock, data)], phase := .raised e }
  | ticks {dt : ℚ} (hdt : 0 ≤ dt) : Moves lower s (.tick dt) { s with clock := s.clock + dt }

theorem pause_pos (timeout : ℚ) : 0 < pause timeout :=
  lt_of_lt_of_le (by norm_num) (le_max_left (2 / 5) (timeout / 4))

theorem moves_of_ask {now : ℚ} (hphase : s.phase = .asking now) :
    Moves lower s .ask (s.ask lower now) := by
  unfold ask
  by_cases hdue : s.nextSend ≤ now
  · rw [if_pos hdue]
    by_cases hne : s.followups lower ≠ []
    · rw [if_pos hne]
      dsimp only
      split
      · exact .cannotAsk hphase _
      · rename_i hmessage
        exact .asks hphase hdue hne hmessage
    · rw [if_neg hne]
      by_cases hnobody : s.collector.instances = ∅
      · rw [if_pos hnobody]
        exact .browses hphase hdue hnobody
      · rw [if_neg hnobody]
        refine .waits hphase ?_
        have := pause_pos s.timeout
        linarith
  · rw [if_neg hdue]
    exact .waits hphase (le_refl s.nextSend)

/-- Every step is one of these. -/
theorem moves_of_step {act : Act} (hstep : s.step lower act = some s') : Moves lower s act s' := by
  cases act with
  | setup outcome =>
    unfold step at hstep
    dsimp only at hstep
    split at hstep
    · rename_i hphase
      exact Option.some.inj hstep ▸ .fails (.inl hphase) _
    · rename_i hphase
      rw [← Option.some.inj hstep, prepare]
      split
      · exact .fails (.inl hphase) _
      · rename_i hquery
        exact .prepares hphase hquery
    · cases hstep
  | first outcome =>
    unfold step at hstep
    dsimp only at hstep
    split at hstep
    · rename_i hphase
      exact Option.some.inj hstep ▸ .fails (.inr hphase) _
    · rename_i hphase
      exact Option.some.inj hstep ▸ .begins hphase
    · cases hstep
  | test =>
    unfold step at hstep
    dsimp only at hstep
    split at hstep
    · rename_i hphase
      rw [← Option.some.inj hstep]
      split
      · rename_i htime
        exact .goesOn hphase htime
      · rename_i htime
        exact .ends hphase (not_lt.mp htime)
    · cases hstep
  | look =>
    unfold step at hstep
    dsimp only at hstep
    split at hstep
    · rename_i hphase
      exact Option.some.inj hstep ▸ .looks hphase
    · cases hstep
  | ask =>
    unfold step at hstep
    dsimp only at hstep
    split at hstep
    · rename_i hphase
      exact Option.some.inj hstep ▸ moves_of_ask hphase
    · cases hstep
  | recv outcome =>
    unfold step at hstep
    dsimp only at hstep
    split at hstep
    · rename_i hphase
      exact Option.some.inj hstep ▸ .timesOut hphase
    · rename_i hphase
      exact Option.some.inj hstep ▸ .breaks hphase
    · rename_i hphase
      rw [← Option.some.inj hstep, take]
      split
      · rename_i hadd
        exact .cannotTake hphase hadd
      · rename_i hadd
        exact .takes hphase hadd
    · cases hstep
  | tick dt =>
    unfold step at hstep
    dsimp only at hstep
    split at hstep
    · rename_i hdt
      exact Option.some.inj hstep ▸ .ticks hdt
    · cases hstep

/-! ## A browse that resolves a cooler -/

/-- A pass up to `recvfrom`. -/
def upToRecv : List Act := [.test, .look, .ask]

/-- A quarter of a second in which nothing arrives, and the next pass. -/
def quietPass : List Act := [.tick (1 / 4), .recv .timeout] ++ upToRecv

/-- The records of a cooler arrive after 0.1 s, in one datagram. -/
def answered (records : List Draft) : List Act :=
  [.tick (1 / 10), .recv (.datagram (written records) "10.66.40.129" 5353)] ++ upToRecv

open ServiceDescription in
/-- A browse of two seconds. The PTR record of the cooler, its SRV and TXT records and its address
come one after another, each when it has been asked for; the second query is sent 0.02 s after the
clock was read. -/
def resolvingBrowse : List Act :=
  [.setup (.ok false), .first (.ok ())] ++ upToRecv
    ++ answered [⟨cooler.service.raws, 12, wire cooler.instanceName.raws⟩]
    ++ quietPass
    ++ [.tick (1 / 4), .recv .timeout, .test, .look, .tick (1 / 50), .ask]
    ++ answered [
      ⟨cooler.instanceName.raws, 33, [0, 0, 0, 0] ++ u16Bytes 13143 ++ wire cooler.host.raws⟩,
      ⟨cooler.instanceName.raws, 16, labelBytes (bytesLit "sku=1")⟩]
    ++ quietPass ++ quietPass
    ++ answered [⟨cooler.host.raws, 1, [10, 66, 40, 129]⟩]
    ++ quietPass ++ [.tick (1 / 4), .recv .timeout, .test]

/-! ## How often it sends -/

/-- The deadline has been set, and the browse is going on. -/
def IsOpen (s : MdnsQuery) : Prop :=
  match s.phase with
  | .ready | .testing | .looking | .asking _ | .receiving => True
  | .opening | .returned _ | .raised _ => False

theorem isOpen_of_phase {phase : Querying} (h : s.phase = phase)
    (hopen : IsOpen { s with phase }) : s.IsOpen := by
  rw [IsOpen, h]
  exact hopen

theorem IsOpen.not_raised (hopen : s.IsOpen) (e : PyErr) : s.phase ≠ .raised e := by
  intro hraised
  rw [IsOpen, hraised] at hopen
  exact hopen

/-- What holds of the times of a browse in every state. -/
structure Timed (s : MdnsQuery) : Prop where
  /-- While the browse is going on, it has not been opened later, and does not end later. -/
  times : s.IsOpen → s.opened ≤ s.clock ∧ s.deadline ≤ s.opened + s.timeout
  unsent : s.phase = .opening → s.sent = []
  spaced : Spaced (pause s.timeout) (s.sent.map SentQuery.now)
  since : ∀ q ∈ s.sent, s.opened ≤ q.now ∧ q.now ≤ q.time ∧ q.time ≤ s.clock
  inOrder : s.sent.IsChain fun p q => p.time ≤ q.now
  before : ∀ q ∈ s.sent.dropLast, q.time < s.opened + s.timeout
  next : ∀ q ∈ s.sent.getLast?, q.now + pause s.timeout ≤ s.nextSend
  /-- In a pass, the last query was sent in a pass before. -/
  passing : (s.phase = .looking ∨ ∃ now, s.phase = .asking now) →
    ∀ q ∈ s.sent, q.time < s.opened + s.timeout
  looked : ∀ now, s.phase = .asking now →
    s.opened ≤ now ∧ now ≤ s.clock ∧ ∀ q ∈ s.sent, q.time ≤ now

/-- A query is sent in a pass. -/
theorem Timed.send (h : s.Timed) {now : ℚ} (hphase : s.phase = .asking now)
    (hdue : s.nextSend ≤ now) (questions : List Question) (message : Bytes)
    (asked : Finset Question) :
    Timed { s.send now questions message with
      asked, nextSend := now + pause s.timeout, phase := .receiving } where
  times := fun _ => h.times (isOpen_of_phase hphase trivial)
  unsent := nofun
  spaced := by
    show Spaced _ ((s.sent ++ [_]).map SentQuery.now)
    rw [List.map_append]
    refine h.spaced.concat fun t ht => ?_
    rw [List.getLast?_map] at ht
    obtain ⟨q, hq, rfl⟩ := Option.map_eq_some_iff.mp ht
    exact (h.next q hq).trans hdue
  since := by
    intro q hq
    rcases List.mem_append.mp hq with hq | hq
    · exact h.since q hq
    · obtain ⟨hopened, hclock, -⟩ := h.looked now hphase
      rw [List.mem_singleton.mp hq]
      exact ⟨hopened, hclock, le_refl s.clock⟩
  inOrder := by
    refine List.isChain_append.mpr ⟨h.inOrder, .singleton _, fun p hp q hq => ?_⟩
    obtain rfl := Option.some.inj hq
    exact (h.looked now hphase).2.2 p (List.mem_of_getLast? hp)
  before := by
    intro q hq
    have hq : q ∈ (s.sent ++ [_]).dropLast := hq
    rw [List.dropLast_concat] at hq
    exact h.passing (.inr ⟨now, hphase⟩) q hq
  next := by
    intro q hq
    have hq : q ∈ (s.sent ++ [_]).getLast? := hq
    rw [List.getLast?_concat] at hq
    rw [← Option.some.inj hq]
    exact le_refl (now + pause s.timeout)
  passing := by simp
  looked := nofun

/-- A browse goes on without a query. -/
theorem Timed.goOn (h : s.Timed) (hopen : s.IsOpen) {phase : Querying} {nextSend : ℚ}
    (hphase : phase = .testing ∨ phase = .receiving) (hnext : s.nextSend ≤ nextSend) :
    Timed { s with nextSend, phase } where
  times := fun _ => h.times hopen
  unsent := by rcases hphase with rfl | rfl <;> nofun
  spaced := h.spaced
  since := h.since
  inOrder := h.inOrder
  before := h.before
  next := fun q hq => (h.next q hq).trans hnext
  passing := by rcases hphase with rfl | rfl <;> simp
  looked := by rcases hphase with rfl | rfl <;> nofun

theorem Timed.step (h : s.Timed) {act : Act} (hstep : s.step lower act = some s') : s'.Timed := by
  cases moves_of_step hstep with
  | fails | ends | cannotAsk | breaks | cannotTake =>
    -- the browse is over
    exact ⟨False.elim, nofun, h.spaced, h.since, h.inOrder, h.before, h.next, by simp, nofun⟩
  | prepares hphase hquery =>
    have hsent := h.unsent hphase
    exact ⟨fun _ => ⟨le_refl _, le_refl _⟩, nofun, h.spaced, by simp [hsent], h.inOrder,
      by simp [hsent], h.next, by simp, nofun⟩
  | begins hphase | timesOut hphase =>
    exact h.goOn (isOpen_of_phase hphase trivial) (.inl rfl) (le_refl _)
  | goesOn hphase htime =>
    have htimes := h.times (isOpen_of_phase hphase trivial)
    refine ⟨fun _ => htimes, nofun, h.spaced, h.since, h.inOrder, h.before, h.next, ?_, nofun⟩
    intro _ q hq
    calc q.time ≤ s.clock := (h.since q hq).2.2
      _ < s.deadline := htime
      _ ≤ s.opened + s.timeout := htimes.2
  | looks hphase =>
    have htimes := h.times (isOpen_of_phase hphase trivial)
    refine ⟨fun _ => htimes, nofun, h.spaced, h.since, h.inOrder, h.before, h.next,
      fun _ => h.passing (.inl hphase), fun now hnow => ?_⟩
    -- every query was sent before the clock is read again
    obtain rfl := Querying.asking.inj hnow
    exact ⟨htimes.1, le_refl s.clock, fun q hq => (h.since q hq).2.2⟩
  | asks hphase hdue => exact h.send hphase hdue _ _ _
  | browses hphase hdue => exact h.send hphase hdue _ _ _
  | waits hphase hnext => exact h.goOn (isOpen_of_phase hphase trivial) (.inr rfl) hnext
  | takes hphase hadd =>
    -- the deadline only ever comes nearer
    obtain ⟨hopened, hdeadline⟩ := h.times (isOpen_of_phase hphase trivial)
    refine ⟨fun _ => ⟨hopened, ?_⟩, nofun, h.spaced, h.since, h.inOrder, h.before, h.next, by simp,
      nofun⟩
    dsimp only
    split
    · exact (min_le_left _ _).trans hdeadline
    · exact hdeadline
  | ticks hdt =>
    refine ⟨fun hopen => ?_, h.unsent, h.spaced, fun q hq => ?_, h.inOrder, h.before, h.next,
      h.passing, fun now hnow => ?_⟩
    · obtain ⟨hopened, hdeadline⟩ := h.times hopen
      exact ⟨by dsimp only; linarith, hdeadline⟩
    · obtain ⟨hsince, hnow, hclock⟩ := h.since q hq
      exact ⟨hsince, hnow, by dsimp only; linarith⟩
    · obtain ⟨hopened, hclock, hsent⟩ := h.looked now hnow
      exact ⟨hopened, by dsimp only; linarith, hsent⟩

theorem timed_start (service : List Char) (timeout clock : ℚ) :
    (start lower service timeout clock).Timed where
  times := False.elim
  unsent := fun _ => rfl
  spaced := .nil
  since := nofun
  inOrder := .nil
  before := nofun
  next := nofun
  passing := by simp [start]
  looked := nofun

/-- A step changes neither the service nor the timeout. -/
theorem step_params {act : Act} (hstep : s.step lower act = some s') :
    s'.service = s.service ∧ s'.timeout = s.timeout := by
  cases moves_of_step hstep <;> exact ⟨rfl, rfl⟩

/-- Whatever is received and however long anything takes, the loop of a browse sends at most five
queries, so that it sends six in all. The readings of the clock on which it sends are at least
0.4 s and a quarter of the timeout apart; each query is sent when the clock has been read for it,
and before the clock is read for the next one; and all but the last are sent before the timeout is
over. -/
theorem sent_le_five {service : List Char} {timeout clock : ℚ} {acts : List Act}
    (hrun : Machine.run (step lower) (start lower service timeout clock) acts = some s) :
    Spaced (max (2 / 5) (timeout / 4)) (s.sent.map SentQuery.now)
      ∧ (s.sent.IsChain fun p q => p.time ≤ q.now)
      ∧ (∀ q ∈ s.sent, s.opened ≤ q.now ∧ q.now ≤ q.time)
      ∧ (∀ q ∈ s.sent.dropLast, q.time < s.opened + timeout)
      ∧ s.sent.length ≤ 5 := by
  have htimed : s.Timed :=
    Machine.run_preserves (fun _ _ _ h hstep => h.step hstep) hrun (timed_start _ _ _)
  have htimeout : s.timeout = timeout :=
    Machine.run_preserves (I := fun s => s.timeout = timeout)
      (fun _ _ _ h hstep => (step_params hstep).2.trans h) hrun rfl
  have hspaced := htimed.spaced
  have hbefore := htimed.before
  rw [htimeout] at hspaced hbefore
  refine ⟨hspaced, htimed.inOrder, fun q hq => ?_, hbefore, ?_⟩
  · obtain ⟨hopened, hnow, -⟩ := htimed.since q hq
    exact ⟨hopened, hnow⟩
  by_contra hmany
  have hlength : 6 ≤ (s.sent.map SentQuery.now).length := by
    rw [List.length_map]
    omega
  -- six queries would take four pauses, and these are longer than the timeout
  have hsince : ∀ a ∈ s.sent.map SentQuery.now, s.opened ≤ a :=
    List.forall_mem_map.mpr fun q hq => (htimed.since q hq).1
  have huntil : ∀ a ∈ (s.sent.map SentQuery.now).dropLast, a < s.opened + timeout := by
    rw [← List.map_dropLast]
    refine List.forall_mem_map.mpr fun q hq => ?_
    exact (htimed.since q (List.mem_of_mem_dropLast hq)).2.1.trans_lt (hbefore q hq)
  have hlt := hspaced.add_nsmul_lt hsince huntil (by omega)
  have hfour : 4 • pause timeout ≤ ((s.sent.map SentQuery.now).length - 2) • pause timeout :=
    nsmul_le_nsmul_left (pause_pos timeout).le (by omega)
  have hquarter : timeout / 4 ≤ pause timeout := le_max_right _ _
  have hsum : 4 • pause timeout = 4 * pause timeout := nsmul_eq_mul 4 _
  change s.opened + (_ - 2) • pause timeout < _ at hlt
  linarith

theorem sent_le_five_resolvingBrowse :
    ∃ s, Machine.run (step strLower) (start strLower serviceType 2 0) resolvingBrowse = some s
      ∧ s.sent.map (fun q => (q.now, q.time)) = [(0, 0), (3 / 5, 31 / 50), (61 / 50, 61 / 50)]
      ∧ Spaced (max (2 / 5) (2 / 4)) (s.sent.map SentQuery.now)
      ∧ (s.sent.IsChain fun p q => p.time ≤ q.now)
      ∧ ∀ q ∈ s.sent.dropLast, q.time < s.opened + 2 := by
  have hsent : (Machine.run (step strLower) (start strLower serviceType 2 0) resolvingBrowse).map
      (fun s => s.sent.map fun q => (q.now, q.time))
      = some [(0, 0), (3 / 5, 31 / 50), (61 / 50, 61 / 50)] := by decide +kernel
  obtain ⟨s, hrun, hsent⟩ := Option.map_eq_some_iff.mp hsent
  obtain ⟨hspaced, hchain, -, hbefore, -⟩ := sent_le_five hrun
  exact ⟨s, hrun, hsent, hspaced, hchain, hbefore⟩

/-! ## What it asks -/

/-- What the collector of a browse knows after its first `n` datagrams. -/
def knownAfter (lower : List Char → List Char) (service : List Char) (received : List (ℚ × Bytes))
    (n : ℕ) : MdnsCollector :=
  MdnsCollector.browsed lower service ((received.take n).map Prod.snd)

/-- Later datagrams do not change what was known. -/
theorem knownAfter_append {service : List Char} {received more : List (ℚ × Bytes)} {n : ℕ}
    (h : n ≤ received.length) :
    knownAfter lower service (received ++ more) n = knownAfter lower service received n := by
  rw [knownAfter, List.take_append_of_le_length h, knownAfter]

theorem knownAfter_length {service : List Char} {received : List (ℚ × Bytes)} :
    knownAfter lower service received received.length
      = MdnsCollector.browsed lower service (received.map Prod.snd) := by
  rw [knownAfter, List.take_length]

/-- A query asks what is called for when it is sent: it browses if no instance is known, or else
it has those of the missing questions that no earlier query had. -/
structure Called (lower : List Char → List Char) (service : List Char) (unicast : Bool)
    (received : List (ℚ × Bytes)) (earlier : List SentQuery) (q : SentQuery) : Prop where
  after : q.after ≤ received.length
  browses : q.questions = [] → (knownAfter lower service received q.after).instances = ∅
    ∧ buildQuery service unicast [] = .ok q.message
  asks : q.questions ≠ [] →
    q.questions = ((knownAfter lower service received q.after).missing lower).filter
        (· ∉ earlier.flatMap SentQuery.questions)
      ∧ buildQuery serviceType unicast q.questions = .ok q.message

theorem Called.append {service : List Char} {unicast : Bool} {received : List (ℚ × Bytes)}
    {earlier : List SentQuery} {q : SentQuery}
    (h : Called lower service unicast received earlier q) (more : List (ℚ × Bytes)) :
    Called lower service unicast (received ++ more) earlier q where
  after := by
    have := h.after
    rw [List.length_append]
    omega
  browses := by
    rw [knownAfter_append h.after]
    exact h.browses
  asks := by
    rw [knownAfter_append h.after]
    exact h.asks

/-- What holds of the queries of a browse in every state. -/
structure Asking (lower : List Char → List Char) (s : MdnsQuery) : Prop where
  collector : s.collector = knownAfter lower s.service s.received s.received.length
  taken : (∀ e, s.phase ≠ .raised e) →
    (MdnsCollector.collect lower (.fresh lower s.service) (s.received.map Prod.snd)).1 = .ok ()
  unsent : s.phase = .opening → s.sent = []
  query : s.IsOpen → buildQuery s.service s.unicast [] = .ok s.query
  /-- When a query cannot be built, its questions count as asked, but the browse is over. -/
  asked : (∀ e, s.phase ≠ .raised e) →
    ∀ question, question ∈ s.asked ↔ question ∈ s.sent.flatMap SentQuery.questions
  sent : ∀ i q, s.sent[i]? = some q →
    Called lower s.service s.unicast s.received (s.sent.take i) q

/-- One more query, behind those that were called for. -/
theorem Asking.sent_concat (h : s.Asking lower) {q : SentQuery}
    (hq : Called lower s.service s.unicast s.received s.sent q) (i : ℕ) (q' : SentQuery)
    (hi : (s.sent ++ [q])[i]? = some q') :
    Called lower s.service s.unicast s.received ((s.sent ++ [q]).take i) q' := by
  rcases Nat.lt_trichotomy i s.sent.length with hlt | rfl | hgt
  · rw [List.getElem?_append_left hlt] at hi
    rw [List.take_append_of_le_length hlt.le]
    exact h.sent i q' hi
  · rw [List.getElem?_concat_length] at hi
    obtain rfl := Option.some.inj hi
    rw [List.take_left]
    exact hq
  · have hnone : (s.sent ++ [q])[i]? = none :=
      List.getElem?_eq_none (by rw [List.length_append]; exact hgt)
    rw [hnone] at hi
    cases hi

/-- A datagram that is taken is the last one the collector has been given. -/
theorem Asking.collect_concat (h : s.Asking lower) (hphase : s.phase = .receiving) (data : Bytes) :
    MdnsCollector.collect lower (.fresh lower s.service)
        ((s.received ++ [(s.clock, data)]).map Prod.snd) = s.collector.add lower data := by
  have hcollector := h.collector
  rw [knownAfter_length] at hcollector
  have hlast : [(s.clock, data)].map Prod.snd = [data] := rfl
  rw [List.map_append, MdnsCollector.collect, forEach_append_ok (h.taken (by simp [hphase])),
    hlast, forEach_singleton, hcollector]
  rfl

/-- A query that is sent in a pass is called for. -/
theorem Asking.send (h : s.Asking lower) {now : ℚ} (hphase : s.phase = .asking now)
    {questions : List Question} {message : Bytes} {asked : Finset Question} {nextSend : ℚ}
    (hcalled : Called lower s.service s.unicast s.received s.sent
      ⟨questions, message, now, s.clock, s.received.length⟩)
    (hasked : ∀ question, question ∈ asked ↔ question ∈ s.asked ∨ question ∈ questions) :
    Asking lower { s.send now questions message with asked, nextSend, phase := .receiving } where
  collector := h.collector
  taken := fun _ => h.taken (by simp [hphase])
  unsent := nofun
  query := fun _ => h.query (isOpen_of_phase hphase trivial)
  asked := by
    intro _ question
    show question ∈ asked ↔ question ∈ (s.sent ++ [_]).flatMap SentQuery.questions
    rw [hasked, h.asked (by simp [hphase])]
    simp
  sent := h.sent_concat hcalled

/-- A browse goes on, or returns, without a query or a datagram. -/
theorem Asking.goOn (h : s.Asking lower) (hopen : s.IsOpen) {phase : Querying} {nextSend : ℚ}
    (hphase : phase ≠ .opening) : Asking lower { s with nextSend, phase } where
  collector := h.collector
  taken := fun _ => h.taken hopen.not_raised
  unsent := fun hopening => absurd hopening hphase
  query := fun _ => h.query hopen
  asked := fun _ => h.asked hopen.not_raised
  sent := h.sent

/-- Whatever counts as asked when a browse raises. -/
theorem Asking.raise (h : s.Asking lower) (asked : Finset Question) (e : PyErr) :
    Asking lower { s with asked, phase := .raised e } where
  collector := h.collector
  taken := fun hne => absurd rfl (hne e)
  unsent := nofun
  query := False.elim
  asked := fun hne => absurd rfl (hne e)
  sent := h.sent

theorem Asking.step (h : s.Asking lower) {act : Act} (hstep : s.step lower act = some s') :
    s'.Asking lower := by
  cases moves_of_step hstep with
  | fails | cannotAsk => exact h.raise _ _
  | prepares hphase hquery =>
    have hsent := h.unsent hphase
    have hasked := h.asked (by simp [hphase])
    exact ⟨h.collector, fun _ => h.taken (by simp [hphase]), nofun, fun _ => hquery,
      fun _ => hasked, by simp [hsent]⟩
  | begins hphase | goesOn hphase | looks hphase | ends hphase | waits hphase | timesOut hphase
  | breaks hphase => exact h.goOn (isOpen_of_phase hphase trivial) nofun
  | asks hphase hdue hne hmessage =>
    refine h.send hphase ⟨le_refl _, fun hnil => absurd hnil hne, fun _ => ⟨?_, hmessage⟩⟩ ?_
    · dsimp only
      rw [← h.collector, followups]
      refine List.filter_congr fun question _ => ?_
      -- the set of the source holds the questions of the queries sent
      rw [decide_eq_decide, not_iff_not]
      exact h.asked (by simp [hphase]) question
    · simp
  | browses hphase hdue hnobody =>
    refine h.send hphase ⟨le_refl _, fun _ => ⟨?_, ?_⟩, fun hne => absurd rfl hne⟩
      fun _ => (or_iff_left List.not_mem_nil).symm
    · rw [← h.collector]
      exact hnobody
    · exact h.query (isOpen_of_phase hphase trivial)
  | takes hphase hadd =>
    have hcollect := (h.collect_concat hphase _).trans hadd
    refine ⟨?_, fun _ => congrArg Prod.fst hcollect, nofun,
      fun _ => h.query (isOpen_of_phase hphase trivial), fun _ => h.asked (by simp [hphase]),
      fun i q hq => (h.sent i q hq).append _⟩
    exact (knownAfter_length.trans (congrArg Prod.snd hcollect)).symm
  | cannotTake hphase hadd =>
    have hcollect := (h.collect_concat hphase _).trans hadd
    refine ⟨?_, fun hne => absurd rfl (hne _), nofun, by simp [IsOpen],
      fun hne => absurd rfl (hne _), fun i q hq => (h.sent i q hq).append _⟩
    exact (knownAfter_length.trans (congrArg Prod.snd hcollect)).symm
  | ticks => exact ⟨h.collector, h.taken, h.unsent, h.query, h.asked, h.sent⟩

theorem asking_start (service : List Char) (timeout clock : ℚ) :
    (start lower service timeout clock).Asking lower where
  collector := rfl
  taken := fun _ => rfl
  unsent := fun _ => rfl
  query := by simp [IsOpen, start]
  asked := fun _ question => by simp [start]
  sent := nofun

theorem asking_of_run {service : List Char} {timeout clock : ℚ} {acts : List Act}
    (hrun : Machine.run (step lower) (start lower service timeout clock) acts = some s) :
    s.Asking lower ∧ s.service = service :=
  ⟨Machine.run_preserves (fun _ _ _ h hstep => h.step hstep) hrun (asking_start _ _ _),
    Machine.run_preserves (I := fun s => s.service = service)
      (fun _ _ _ h hstep => (step_params hstep).1.trans h) hrun rfl⟩

/-- In every run, a query of the loop browses only if no instance is known yet; any other query
has exactly those of the questions missing at that moment that were not asked before. So no
question is asked in two queries. -/
theorem asked_once {service : List Char} {timeout clock : ℚ} {acts : List Act}
    (hrun : Machine.run (step lower) (start lower service timeout clock) acts = some s) :
    (∀ i q, s.sent[i]? = some q →
        Called lower service s.unicast s.received (s.sent.take i) q)
      ∧ s.sent.Pairwise fun p q => p.questions.Disjoint q.questions := by
  obtain ⟨hasking, rfl⟩ := asking_of_run hrun
  refine ⟨hasking.sent, List.pairwise_iff_getElem.mpr fun i j hi hj hij question hp hq => ?_⟩
  have hcalled := hasking.sent j s.sent[j] (List.getElem?_eq_getElem hj)
  rw [(hcalled.asks (List.ne_nil_of_mem hq)).1, List.mem_filter, decide_eq_true_eq] at hq
  refine hq.2 (List.mem_flatMap.mpr ⟨s.sent[i], ?_, hp⟩)
  exact List.mem_take_iff_getElem.mpr ⟨i, by omega, rfl⟩

theorem asked_once_resolvingBrowse :
    ∃ s, Machine.run (step strLower) (start strLower serviceType 2 0) resolvingBrowse = some s
      ∧ s.sent.map SentQuery.questions = [[],
        [("CFX5._ddmp._tcp.local".toList, 33), ("CFX5._ddmp._tcp.local".toList, 16)],
        [("MC1.local".toList, 1)]]
      ∧ (∀ i q, s.sent[i]? = some q →
        Called strLower serviceType s.unicast s.received (s.sent.take i) q)
      ∧ s.sent.Pairwise fun p q => p.questions.Disjoint q.questions := by
  have hsent : (Machine.run (step strLower) (start strLower serviceType 2 0) resolvingBrowse).map
      (fun s => s.sent.map SentQuery.questions)
      = some [[], [("CFX5._ddmp._tcp.local".toList, 33), ("CFX5._ddmp._tcp.local".toList, 16)],
        [("MC1.local".toList, 1)]] := by decide +kernel
  obtain ⟨s, hrun, hsent⟩ := Option.map_eq_some_iff.mp hsent
  exact ⟨s, hrun, hsent, asked_once hrun⟩

/-! ## When it ends -/

/-- A moment at which a datagram was taken that left nothing to ask for. -/
def ResolvedAt (lower : List Char → List Char) (service : List Char)
    (received : List (ℚ × Bytes)) (time : ℚ) : Prop :=
  ∃ n data, received[n]? = some (time, data)
    ∧ (knownAfter lower service received (n + 1)).StopsEarly lower

/-- The moments from which on a browse has no more to wait for: the end of its timeout, and 0.3 s
after each moment at which everything was resolved. -/
def ends (lower : List Char → List Char) (s : MdnsQuery) : Set ℚ :=
  insert (s.opened + s.timeout)
    ((· + 3 / 10) '' {time | ResolvedAt lower s.service s.received time})

theorem not_resolvedAt_nil {service : List Char} {time : ℚ} :
    ¬ ResolvedAt lower service [] time := fun ⟨_, _, h, _⟩ => nomatch h

theorem resolvedAt_concat {service : List Char} {received : List (ℚ × Bytes)} {data : Bytes}
    {clock time : ℚ} : ResolvedAt lower service (received ++ [(clock, data)]) time
      ↔ ResolvedAt lower service received time
        ∨ time = clock ∧ (MdnsCollector.browsed lower service
            ((received ++ [(clock, data)]).map Prod.snd)).StopsEarly lower := by
  rw [← knownAfter_length, List.length_append, List.length_singleton]
  constructor
  · rintro ⟨n, d, hn, hstops⟩
    rcases Nat.lt_trichotomy n received.length with hlt | rfl | hgt
    · rw [List.getElem?_append_left hlt] at hn
      rw [knownAfter_append hlt] at hstops
      exact .inl ⟨n, d, hn, hstops⟩
    · rw [List.getElem?_concat_length] at hn
      exact .inr ⟨congrArg Prod.fst (Option.some.inj hn).symm, hstops⟩
    · have hnone : (received ++ [(clock, data)])[n]? = none :=
        List.getElem?_eq_none (by rw [List.length_append]; exact hgt)
      rw [hnone] at hn
      cases hn
  · rintro (⟨n, d, hn, hstops⟩ | ⟨rfl, hstops⟩)
    · have hlt := (List.getElem?_eq_some_iff.mp hn).1
      refine ⟨n, d, ?_, ?_⟩
      · rw [List.getElem?_append_left hlt]
        exact hn
      · rw [knownAfter_append hlt]
        exact hstops
    · exact ⟨received.length, data, List.getElem?_concat_length, hstops⟩

/-- A datagram that resolves everything brings the end nearer, to 0.3 s from now. -/
theorem isLeast_ends_take {data : Bytes} {collector : MdnsCollector}
    (h : IsLeast (s.ends lower) s.deadline)
    (hcollector : collector = MdnsCollector.browsed lower s.service
      ((s.received ++ [(s.clock, data)]).map Prod.snd)) :
    IsLeast (insert (s.opened + s.timeout) ((· + 3 / 10) ''
        {time | ResolvedAt lower s.service (s.received ++ [(s.clock, data)]) time}))
      (if collector.instances ≠ ∅ ∧ collector.missing lower = []
        then min s.deadline (s.clock + 3 / 10) else s.deadline) := by
  simp only [resolvedAt_concat, ← hcollector]
  split
  · rename_i hstops
    have hset : {time | ResolvedAt lower s.service s.received time
          ∨ time = s.clock ∧ collector.StopsEarly lower}
        = {time | ResolvedAt lower s.service s.received time} ∪ {s.clock} := by
      ext time
      exact or_congr_right (and_iff_left hstops)
    rw [hset, Set.image_union, Set.image_singleton, ← Set.insert_union]
    exact h.union isLeast_singleton
  · rename_i hstops
    have hset : {time | ResolvedAt lower s.service s.received time
          ∨ time = s.clock ∧ collector.StopsEarly lower}
        = {time | ResolvedAt lower s.service s.received time} := by
      ext time
      exact or_iff_left fun hor => hstops hor.2
    rw [hset]
    exact h

/-- What holds of the end of a browse in every state. -/
structure Ending (lower : List Char → List Char) (s : MdnsQuery) : Prop where
  unreceived : s.phase = .opening ∨ s.phase = .ready → s.received = []
  deadline : s.phase ≠ .opening → (∀ e, s.phase ≠ .raised e) →
    IsLeast (s.ends lower) s.deadline

theorem Ending.step (h : s.Ending lower) (hasking : s.Asking lower) {act : Act}
    (hstep : s.step lower act = some s') : s'.Ending lower := by
  cases moves_of_step hstep with
  | fails | cannotAsk | cannotTake => exact ⟨by simp, fun _ hne => absurd rfl (hne _)⟩
  | prepares hphase hquery =>
    have hreceived := h.unreceived (.inl hphase)
    refine ⟨fun _ => hreceived, fun _ _ => ?_⟩
    have hnone : {time | ResolvedAt lower s.service s.received time} = ∅ := by
      rw [hreceived]
      exact Set.eq_empty_of_forall_notMem fun _ => not_resolvedAt_nil
    show IsLeast (insert (s.clock + s.timeout) ((· + 3 / 10) '' _)) (s.clock + s.timeout)
    rw [hnone, Set.image_empty, insert_empty_eq]
    exact isLeast_singleton
  | begins hphase | goesOn hphase | looks hphase | ends hphase | asks hphase | browses hphase
  | waits hphase | timesOut hphase | breaks hphase =>
    exact ⟨by simp, fun _ _ => h.deadline (by simp [hphase]) (by simp [hphase])⟩
  | takes hphase hadd =>
    have hcollect := congrArg Prod.snd ((hasking.collect_concat hphase _).trans hadd)
    exact ⟨by simp, fun _ _ => isLeast_ends_take
      (h.deadline (by simp [hphase]) (by simp [hphase])) hcollect.symm⟩
  | ticks => exact ⟨h.unreceived, h.deadline⟩

/-- What a browse has returned, and why: an error of the socket is among the actions `g` records,
or its deadline is over. -/
structure Result (lower : List Char → List Char) (g : Prop) (s : MdnsQuery) : Prop where
  asking : s.Asking lower
  ending : s.Ending lower
  returned : ∀ services, s.phase = .returned services →
    services = s.collector.services lower ∧ (g ∨ s.deadline ≤ s.clock)

theorem Result.step {g : Prop} (h : s.Result lower g) {act : Act}
    (hstep : s.step lower act = some s') : s'.Result lower (g ∨ act = .recv .osError) := by
  refine ⟨h.asking.step hstep, h.ending.step h.asking hstep, ?_⟩
  cases moves_of_step hstep with
  | ends hphase htime =>
    intro services hservices
    exact ⟨(Querying.returned.inj hservices).symm, .inr htime⟩
  | breaks hphase =>
    intro services hservices
    exact ⟨(Querying.returned.inj hservices).symm, .inl (.inr rfl)⟩
  | ticks hdt =>
    intro services hservices
    obtain ⟨hresult, hg | htime⟩ := h.returned services hservices
    · exact ⟨hresult, .inl (.inl hg)⟩
    · exact ⟨hresult, .inr (htime.trans (le_add_of_nonneg_right hdt))⟩
  | _ => exact fun _ hservices => nomatch hservices

/-- What a browse returns are the services that its datagrams, taken one after another, leave in
a collector. Its deadline is the earliest moment at which it has no more to wait for: the end of
the timeout, or 0.3 s after a datagram that left nothing to ask for; and it returns before its
deadline only when the socket has failed. -/
theorem returned_services {service : List Char} {timeout clock : ℚ} {acts : List Act}
    (hrun : Machine.run (step lower) (start lower service timeout clock) acts = some s)
    {services : List MdnsService} (hreturned : s.phase = .returned services) :
    (MdnsCollector.collect lower (.fresh lower service) (s.received.map Prod.snd)).1 = .ok ()
      ∧ services = (MdnsCollector.browsed lower service (s.received.map Prod.snd)).services lower
      ∧ IsLeast (s.ends lower) s.deadline
      ∧ (Act.recv .osError ∈ acts ∨ s.deadline ≤ s.clock) := by
  have hstart : (start lower service timeout clock).Result lower False :=
    ⟨asking_start _ _ _, ⟨fun _ => rfl, fun hne => absurd rfl hne⟩, nofun⟩
  have hresult := Machine.run_records (I := Result lower) (C := (· = .recv .osError))
    (D := fun _ => True) (fun _ _ _ _ h _ hstep => h.step hstep) hrun (fun _ _ => trivial) hstart
  obtain ⟨-, rfl⟩ := asking_of_run hrun
  obtain ⟨hservices, hwhy⟩ := hresult.returned services hreturned
  rw [hresult.asking.collector, knownAfter_length] at hservices
  refine ⟨hresult.asking.taken (by simp [hreturned]), hservices,
    hresult.ending.deadline (by simp [hreturned]) (by simp [hreturned]), ?_⟩
  simpa using hwhy

/-- The services that have been returned. -/
def returned? (s : MdnsQuery) : Option (List MdnsService) :=
  match s.phase with
  | .returned services => some services
  | _ => none

theorem exists_of_isSome_returned? (h : s.returned?.isSome = true) :
    ∃ services, s.phase = .returned services := by
  rw [returned?] at h
  split at h
  · exact ⟨_, ‹_›⟩
  · cases h

/-- The browse ends early, 0.3 s after the last record. -/
theorem returned_services_resolvingBrowse :
    ∃ s services, Machine.run (step strLower) (start strLower serviceType 2 0) resolvingBrowse
        = some s
      ∧ s.phase = .returned services ∧ s.received.map Prod.fst = [1 / 10, 18 / 25, 33 / 25]
      ∧ s.deadline = 33 / 25 + 3 / 10
      ∧ services = (MdnsCollector.browsed strLower serviceType
          (s.received.map Prod.snd)).services strLower
      ∧ IsLeast (s.ends strLower) s.deadline
      ∧ (Act.recv .osError ∈ resolvingBrowse ∨ s.deadline ≤ s.clock) := by
  have hends : (Machine.run (step strLower) (start strLower serviceType 2 0) resolvingBrowse).map
      (fun s => (s.returned?.isSome, s.received.map Prod.fst, s.deadline))
      = some (true, [1 / 10, 18 / 25, 33 / 25], 33 / 25 + 3 / 10) := by decide +kernel
  obtain ⟨s, hrun, hs⟩ := Option.map_eq_some_iff.mp hends
  simp only [Prod.mk.injEq] at hs
  obtain ⟨hreturned, hreceived, hdeadline⟩ := hs
  obtain ⟨services, hphase⟩ := exists_of_isSome_returned? hreturned
  obtain ⟨-, hservices, hleast, hwhy⟩ := returned_services hrun hphase
  exact ⟨s, services, hrun, hphase, hreceived, hdeadline, hservices, hleast, hwhy⟩

end MdnsQuery

/-! ## Queries among the datagrams -/

/-- A message whose header counts no records has none, whatever its questions are. -/
theorem records_eq_nil {data : Bytes} (han : u16At data 6 = some 0) (hns : u16At data 8 = some 0)
    (har : u16At data 10 = some 0) : records data = [] := by
  rw [records, parseResponse]
  split
  · rename_i found heq
    split at heq
    · exact (Except.ok.inj heq).symm
    · obtain ⟨qd, -, heq⟩ := bind_eq_ok.mp heq
      simp only [unpackBE, han, hns, har, orRaise, ok_bind] at heq
      cases hskip : skipQuestions data qd 12 with
      | error e =>
        rw [hskip] at heq
        dsimp only at heq
        split at heq
        · exact (Except.ok.inj heq).symm
        · cases heq
      | ok offset =>
        rw [hskip] at heq
        exact (Except.ok.inj heq).symm
  · rfl

theorem records_of_buildQuery {service : List Char} {unicast : Bool} {questions : List Question}
    {message : Bytes} (h : buildQuery service unicast questions = .ok message) :
    records message = [] := by
  obtain ⟨qs, hne, hbuilt⟩ : ∃ qs, qs ≠ [] ∧ buildQuery service unicast qs = .ok message := by
    by_cases hnil : questions = []
    · subst hnil
      exact ⟨[(service, 12)], List.cons_ne_nil _ _, h⟩
    · exact ⟨questions, hnil, h⟩
  obtain ⟨-, -, rfl⟩ := (buildQuery_eq_ok_iff hne).mp hbuilt
  exact records_eq_nil rfl rfl rfl

namespace MdnsCollector

variable {lower : List Char → List Char}

theorem add_of_buildQuery {service : List Char} {unicast : Bool} {questions : List Question}
    {message : Bytes} (h : buildQuery service unicast questions = .ok message)
    (c : MdnsCollector) : c.add lower message = (.ok (), c) := by
  rw [add_eq, records_of_buildQuery h]
  rfl

/-- The queries among the datagrams, those of the browse itself, which multicast brings back, and
those of others, make no difference, wherever they come and however many they are. -/
theorem collect_without_queries (c : MdnsCollector) (datagrams : List Bytes) (keep : Bytes → Bool)
    (hqueries : ∀ data ∈ datagrams, keep data = false →
      ∃ service unicast questions, buildQuery service unicast questions = .ok data) :
    c.collect lower datagrams = c.collect lower (datagrams.filter keep) := by
  induction datagrams generalizing c with
  | nil => rfl
  | cons data datagrams ih =>
    rw [List.forall_mem_cons] at hqueries
    cases hkeep : keep data with
    | true =>
      rw [List.filter_cons_of_pos hkeep, collect, collect]
      cases hadd : (c.add lower data).1 with
      | ok u =>
        rw [forEach_cons_ok hadd, forEach_cons_ok hadd]
        exact ih _ hqueries.2
      | error e => rw [forEach_cons_error hadd, forEach_cons_error hadd]
    | false =>
      obtain ⟨service, unicast, questions, hbuilt⟩ := hqueries.1 hkeep
      have hadd : c.add lower data = (.ok (), c) := add_of_buildQuery hbuilt c
      have hok : (c.add lower data).1 = .ok () := congrArg Prod.fst hadd
      rw [List.filter_cons_of_neg (by rw [hkeep]; exact Bool.false_ne_true), collect,
        forEach_cons_ok hok, hadd]
      exact ih c hqueries.2

/-- A query about one name. -/
def queryOf (name : List Bytes) (rtype : ℕ) : Bytes :=
  [0, 0, 0, 0, 0, 1, 0, 0, 0, 0, 0, 0] ++ wire name ++ u16Bytes rtype ++ [0, 1]

open ServiceDescription in
/-- The browse query comes back before the PTR record of a cooler, and a query about its instance
behind it. -/
theorem collect_without_queries_looped :
    (fresh strLower serviceType).collect strLower [queryOf cooler.service.raws 12,
        written [⟨cooler.service.raws, 12, wire cooler.instanceName.raws⟩],
        queryOf cooler.instanceName.raws 33]
      = (fresh strLower serviceType).collect strLower
        [written [⟨cooler.service.raws, 12, wire cooler.instanceName.raws⟩]] := by
  -- responses have the first bit of their flags
  have hkeep : [queryOf cooler.service.raws 12,
      written [⟨cooler.service.raws, 12, wire cooler.instanceName.raws⟩],
      queryOf cooler.instanceName.raws 33].filter (fun data => data[2]? = some 0x84)
      = [written [⟨cooler.service.raws, 12, wire cooler.instanceName.raws⟩]] := by decide +kernel
  refine (collect_without_queries _ _ _ fun data hdata hquery => ?_).trans (by rw [hkeep])
  simp only [List.mem_cons, List.not_mem_nil, or_false] at hdata
  rcases hdata with rfl | rfl | rfl
  · exact ⟨serviceType, false, [], rfl⟩
  · cases hquery
  · exact ⟨serviceType, false, [(cooler.instanceName.text, 33)], rfl⟩

end MdnsCollector

end Ddmp
