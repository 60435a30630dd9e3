import Ddmp.Discovery.AddTheorems

/-!
# What a browse knows

A collector that starts fresh knows the facts of the records it has been through, in their order,
and nothing else. `browsed_eq` says so for every list of datagrams, also when the last call of
`add` raised, and the lemmas after it read the four tables off the facts.
-/

namespace Ddmp

open Lib Fallible

/-- The records of some datagrams, each with its datagram. -/
def pairsOf (datagrams : List Bytes) : List (Bytes × Record) :=
  datagrams.flatMap fun data => (records data).map (data, ·)

/-! ## Entries of the tables -/

namespace Fact

/-- The instance that a PTR record names. -/
def inst? : Fact → Option (List Char)
  | .ptr inst => some inst
  | _ => none

/-- What an SRV record assigns. -/
def srvEntry? : Fact → Option (List Char × ℕ × List Char)
  | .srv name port target => some (name, port, target)
  | _ => none

/-- What a TXT record assigns. -/
def txtEntry? : Fact → Option (List Char × Dict (List Char) (List Char))
  | .txt name items => some (name, items)
  | _ => none

/-- The address that an A record gives a host. -/
def addressOf? (host : List Char) : Fact → Option String
  | .address host' text => if host' = host then some text else none
  | _ => none

end Fact

namespace MdnsCollector

variable {lower : List Char → List Char} {service : List Char} {datagrams : List Bytes}
variable {data : Bytes} {c : MdnsCollector} {record : Record}

/-- The collector after learning some facts in order. -/
def noteAll (c : MdnsCollector) (facts : List Fact) : MdnsCollector := facts.foldl note c

/-- The collector after a browse, also when the last call of `add` has raised. -/
def browsed (lower : List Char → List Char) (service : List Char) (datagrams : List Bytes) :
    MdnsCollector :=
  (collect lower (fresh lower service) datagrams).2

/-- The records that a browse gets through: all of them, or those before the one that makes `add`
raise. -/
def taken (lower : List Char → List Char) (service : List Char) (datagrams : List Bytes) :
    List (Bytes × Record) :=
  completed (fun c p => learnStep lower p.1 c p.2) (fresh lower service) (pairsOf datagrams)

/-- What these records teach. -/
def facts (lower : List Char → List Char) (service : List Char) (datagrams : List Bytes) :
    List Fact :=
  (taken lower service datagrams).filterMap fun p =>
    p.2.fact? lower (lower (stripDots service)) p.1

/-! ## The loop over all records -/

theorem collect_eq (c : MdnsCollector) (datagrams : List Bytes) : c.collect lower datagrams
    = forEach (fun c p => learnStep lower p.1 c p.2) c (pairsOf datagrams) := by
  rw [collect, pairsOf, ← forEach_pairs]
  congr 1
  funext c data
  exact c.add_eq data

theorem learnStep_snd_of_ok (h : (learnStep lower data c record).1 = .ok ()) :
    (learnStep lower data c record).2 = (record.fact? lower c.service data).elim c c.note := by
  obtain ⟨c', hc'⟩ := learnStep_ok_iff.mp h
  rw [learnStep, hc']
  exact learn_eq hc'

theorem learnStep_snd_of_error {e : PyErr} (h : (learnStep lower data c record).1 = .error e) :
    (learnStep lower data c record).2 = c := by
  unfold learnStep at h ⊢
  split at h
  · cases h
  · rfl

/-- What a browse knows is what its records have taught it. -/
theorem browsed_eq (lower : List Char → List Char) (service : List Char)
    (datagrams : List Bytes) : browsed lower service datagrams
      = (fresh lower service).noteAll (facts lower service datagrams) := by
  have hnotes (l : List (Bytes × Record)) (c : MdnsCollector) :
      l.foldl (fun c p => (p.2.fact? lower (lower (stripDots service)) p.1).elim c c.note) c
        = c.noteAll (l.filterMap fun p => p.2.fact? lower (lower (stripDots service)) p.1) := by
    induction l generalizing c with
    | nil => rfl
    | cons p l ih =>
      rw [List.foldl_cons, List.filterMap_cons]
      cases p.2.fact? lower (lower (stripDots service)) p.1 with
      | none => exact ih c
      | some fact => exact ih (c.note fact)
  rw [browsed, collect_eq, facts, taken, ← hnotes]
  refine forEach_snd (I := fun c : MdnsCollector => c.service = lower (stripDots service))
    (fun c p hc => ?_) (fun c p hc hok => ?_) (fun c p e herror => ?_) rfl
  · exact service_learnStep.trans hc
  · rw [learnStep_snd_of_ok hok, hc]
  · exact learnStep_snd_of_error herror

/-- When no call of `add` raises, every record of every datagram has been taken. -/
theorem taken_eq (h : (collect lower (fresh lower service) datagrams).1 = .ok ()) :
    taken lower service datagrams = pairsOf datagrams := by
  rw [collect_eq] at h
  exact completed_eq h

/-- What is taken are records of the datagrams. -/
theorem mem_taken {p : Bytes × Record} (h : p ∈ taken lower service datagrams) :
    p.1 ∈ datagrams ∧ p.2 ∈ records p.1 := by
  have hp := (completed_isPrefix _ _ _).subset h
  obtain ⟨data, hdata, hp⟩ := List.mem_flatMap.mp hp
  obtain ⟨record, hrecord, rfl⟩ := List.mem_map.mp hp
  exact ⟨hdata, hrecord⟩

theorem mem_facts_iff {fact : Fact} : fact ∈ facts lower service datagrams
    ↔ ∃ p ∈ taken lower service datagrams,
      p.2.fact? lower (lower (stripDots service)) p.1 = some fact :=
  List.mem_filterMap

/-! ## The tables -/

variable {facts : List Fact}

theorem mem_instances_noteAll {inst : List Char} :
    inst ∈ (c.noteAll facts).instances
      ↔ inst ∈ c.instances ∨ inst ∈ facts.filterMap Fact.inst? := by
  induction facts generalizing c with
  | nil => simp [noteAll]
  | cons fact facts ih =>
    rw [noteAll, List.foldl_cons, ← noteAll, ih]
    cases fact with
    | ptr inst' =>
      have hinsert : inst ∈ (c.note (.ptr inst')).instances ↔ inst = inst' ∨ inst ∈ c.instances :=
        Finset.mem_insert
      have hsome : Fact.inst? (.ptr inst') = some inst' := rfl
      rw [hinsert, List.filterMap_cons_some hsome, List.mem_cons]
      tauto
    | srv | txt | address => exact Iff.rfl

theorem srv_noteAll : (c.noteAll facts).srv = c.srv.replay (facts.filterMap Fact.srvEntry?) := by
  induction facts generalizing c with
  | nil => rfl
  | cons fact facts ih =>
    rw [noteAll, List.foldl_cons, ← noteAll, ih]
    cases fact <;> rfl

/-- An SRV record that is known was learned. -/
theorem srv_mem_facts {name target : List Char} {port : ℕ}
    (h : (browsed lower service datagrams).srv.get? name = some (port, target)) :
    .srv name port target ∈ MdnsCollector.facts lower service datagrams := by
  have hempty : (fresh lower service).srv.get? name = none := rfl
  rw [browsed_eq, srv_noteAll, Dict.get?_replay, hempty, Option.or_none] at h
  obtain ⟨entry, hentry, heq⟩ := List.mem_map.mp (List.mem_of_getLast? h)
  obtain ⟨hlog, hname⟩ := List.mem_filter.mp hentry
  obtain ⟨fact, hfact, hsome⟩ := List.mem_filterMap.mp hlog
  cases fact with
  | srv name' port' target' =>
    obtain rfl := Option.some.inj hsome
    obtain rfl : name' = name := of_decide_eq_true hname
    cases heq
    exact hfact
  | ptr | txt | address => cases hsome

theorem ptr_mem_facts {inst : List Char}
    (h : inst ∈ (browsed lower service datagrams).instances) :
    .ptr inst ∈ MdnsCollector.facts lower service datagrams := by
  rw [browsed_eq, mem_instances_noteAll] at h
  obtain ⟨fact, hfact, hsome⟩ := List.mem_filterMap.mp
    (h.resolve_left fun hnone => absurd hnone (Finset.notMem_empty inst))
  cases fact with
  | ptr inst' =>
    obtain rfl := Option.some.inj hsome
    exact hfact
  | srv | txt | address => cases hsome

theorem txt_noteAll : (c.noteAll facts).txt = c.txt.replay (facts.filterMap Fact.txtEntry?) := by
  induction facts generalizing c with
  | nil => rfl
  | cons fact facts ih =>
    rw [noteAll, List.foldl_cons, ← noteAll, ih]
    cases fact <;> rfl

theorem addresses_noteAll {host : List Char} :
    ((c.noteAll facts).addresses.get? host).getD []
      = (c.addresses.get? host).getD [] ++ facts.filterMap (Fact.addressOf? host) := by
  induction facts generalizing c with
  | nil => exact (List.append_nil _).symm
  | cons fact facts ih =>
    rw [noteAll, List.foldl_cons, ← noteAll, ih]
    cases fact with
    | address host' address =>
      have hget : ((c.note (.address host' address)).addresses.get? host).getD []
          = if host' = host then (c.addresses.get? host).getD [] ++ [address]
            else (c.addresses.get? host).getD [] := by
        show ((c.addresses.set host' _).get? host).getD [] = _
        rw [Dict.get?_set]
        split
        · rename_i hhost
          rw [hhost, Option.getD_some]
        · rfl
      rw [hget]
      by_cases hhost : host' = host
      · have hsome : Fact.addressOf? host (.address host' address) = some address := if_pos hhost
        rw [if_pos hhost, List.filterMap_cons_some hsome, List.append_assoc,
          List.singleton_append]
      · have hnone : Fact.addressOf? host (.address host' address) = none := if_neg hhost
        rw [if_neg hhost, List.filterMap_cons_none hnone]
    | ptr | srv | txt => rfl

end MdnsCollector

end Ddmp
