import Ddmp.Discovery.Collector
import Ddmp.Discovery.Probe
import Ddmp.Lib.Machine

/-!
# One browse

`query_mdns`: a loop that asks, takes datagrams and looks at the clock. What the socket does is
part of the actions, and the clock moves by itself between any two of them.
-/

namespace Ddmp

open Lib

/-- A query that a pass of the loop has handed to `sendto`, with the questions given to
`build_query`: none for the query that browses. Three fields are not in the source: the reading
`now` of the clock in that pass, the time of the `sendto`, and the number of datagrams taken
before. -/
structure SentQuery where
  questions : List Question
  message : Bytes
  now : ℚ
  time : ℚ
  after : ℕ

/-- Where `query_mdns` is; `asking` has the reading `now` of the clock. -/
inductive Querying
  | opening
  | ready
  | testing
  | looking
  | asking (now : ℚ)
  | receiving
  | returned (services : List MdnsService)
  | raised (e : PyErr)

/-- `query_mdns`. Three fields are not in the source: the time `opened` at which the deadline was
set, the queries `sent` by the loop, and the datagrams `received` with the times at which they
were taken. -/
structure MdnsQuery where
  service : List Char
  timeout : ℚ
  collector : MdnsCollector
  unicast : Bool := false
  query : Bytes := []
  asked : Finset Question := ∅
  deadline : ℚ := 0
  nextSend : ℚ := 0
  phase : Querying := .opening
  clock : ℚ
  opened : ℚ := 0
  sent : List SentQuery := []
  received : List (ℚ × Bytes) := []

namespace MdnsQuery

/-- What happens in a browse, in the order of the source. -/
inductive Act
  /-- The socket is set up. Without port 5353 it asks for unicast replies. -/
  | setup (outcome : Except String Bool)
  /-- The first `sendto`. -/
  | first (outcome : Except String Unit)
  | test
  /-- `now = time.monotonic()`. -/
  | look
  | ask
  /-- `recvfrom`, and what is done with the datagram up to the reading of the clock behind it. -/
  | recv (outcome : Received)
  | tick (dt : ℚ)

/-- `max(0.4, timeout / 4)`. -/
def pause (timeout : ℚ) : ℚ := max (2 / 5) (timeout / 4)

/-- `sock.sendto(message, …)`. -/
def send (s : MdnsQuery) (now : ℚ) (questions : List Question) (message : Bytes) : MdnsQuery :=
  { s with sent := s.sent ++ [⟨questions, message, now, s.clock, s.received.length⟩] }

/-- The socket is there: the query is built and the deadline set. -/
def prepare (s : MdnsQuery) (unicast : Bool) : MdnsQuery :=
  match buildQuery s.service unicast [] with
  | .error e => { s with phase := .raised e }
  | .ok query => { s with
      unicast
      query
      deadline := s.clock + s.timeout
      opened := s.clock
      phase := .ready }

variable (lower : List Char → List Char)

/-- The questions that are missing and have not been asked. -/
def followups (s : MdnsQuery) : List Question :=
  (s.collector.missing lower).filter fun q => q ∉ s.asked

/-- The resolve stage of a pass. An `OSError` of its `sendto` is suppressed. -/
def ask (s : MdnsQuery) (now : ℚ) : MdnsQuery :=
  if s.nextSend ≤ now then
    let followups := s.followups lower
    let nextSend := now + pause s.timeout
    if followups ≠ [] then
      let s := { s with asked := s.asked ∪ followups.toFinset }
      match buildQuery serviceType s.unicast followups with
      | .error e => { s with phase := .raised e }
      | .ok message => { s.send now followups message with nextSend, phase := .receiving }
    -- nobody has answered yet: browse again
    else if s.collector.instances = ∅ then
      { s.send now [] s.query with nextSend, phase := .receiving }
    else { s with nextSend, phase := .receiving }
  else { s with phase := .receiving }

/-- A datagram is taken; once everything is resolved, 0.3 s are left for stragglers. -/
def take (s : MdnsQuery) (data : Bytes) : MdnsQuery :=
  let received := s.received ++ [(s.clock, data)]
  match s.collector.add lower data with
  | (.error e, collector) => { s with collector, received, phase := .raised e }
  | (.ok (), collector) => { s with
      collector
      received
      deadline := if collector.instances ≠ ∅ ∧ collector.missing lower = []
        then min s.deadline (s.clock + 3 / 10) else s.deadline
      phase := .testing }

/-- One action; `none` when it is not possible. -/
def step (s : MdnsQuery) : Act → Option MdnsQuery
  | .setup outcome =>
    match s.phase, outcome with
    | .opening, .error text => some { s with phase := .raised (.osError text) }
    | .opening, .ok unicast => some (s.prepare unicast)
    | _, _ => none
  | .first outcome =>
    match s.phase, outcome with
    | .ready, .error text => some { s with phase := .raised (.osError text) }
    | .ready, .ok () => some { s with phase := .testing }
    | _, _ => none
  | .test =>
    match s.phase with
    | .testing => some { s with phase :=
        if s.clock < s.deadline then .looking else .returned (s.collector.services lower) }
    | _ => none
  | .look =>
    match s.phase with
    | .looking => some { s with phase := .asking s.clock }
    | _ => none
  | .ask =>
    match s.phase with
    | .asking now => some (s.ask lower now)
    | _ => none
  | .recv outcome =>
    match s.phase, outcome with
    | .receiving, .timeout => some { s with phase := .testing }
    | .receiving, .osError => some { s with phase := .returned (s.collector.services lower) }
    | .receiving, .datagram data _ _ => some (s.take lower data)
    | _, _ => none
  | .tick dt => if 0 ≤ dt then some { s with clock := s.clock + dt } else none

/-- `query_mdns` when it is called. -/
def start (service : List Char) (timeout clock : ℚ) : MdnsQuery :=
  { service, timeout, collector := .fresh lower service, clock }

end MdnsQuery

end Ddmp
