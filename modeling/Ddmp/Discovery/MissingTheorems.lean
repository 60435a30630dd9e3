import Ddmp.Discovery.BrowseTheorems

/-!
# What is listed and what is asked for

`services` and `missing` walk the same tables, each in its own way. `missing_services` says that
after any browse they agree on what is known.
-/

namespace Ddmp

open Lib Fallible

namespace MdnsCollector

variable {lower : List Char → List Char} {c : MdnsCollector} {inst : List Char}

/-! ## Names in a table -/

/-- A table has a key that is the name when case is ignored. -/
def HasName {ν : Type} (lower : List Char → List Char) (table : Dict (List Char) ν)
    (name : List Char) : Prop :=
  ∃ key ∈ table.keys, lower key = lower name

instance {ν : Type} (table : Dict (List Char) ν) (name : List Char) :
    Decidable (HasName lower table name) :=
  inferInstanceAs (Decidable (∃ key ∈ table.keys, lower key = lower name))

/-- Whatever is tried first, a lookup finds a name exactly when the table has it. -/
theorem isSome_lookup_iff {ν : Type} {table : Dict (List Char) ν} {name : List Char} :
    (lookup lower table name).isSome ↔ HasName lower table name := by
  constructor
  · intro h
    obtain ⟨value, hvalue⟩ := Option.isSome_iff_exists.mp h
    obtain ⟨key, hlower, hget⟩ := get?_of_lookup hvalue
    exact ⟨key, Dict.isSome_get?_iff.mp (Option.isSome_of_eq_some hget), hlower⟩
  · rintro ⟨key, hkey, hlower⟩
    unfold lookup
    split
    · rfl
    · obtain ⟨entry, hentry, rfl⟩ := List.mem_map.mp hkey
      rw [Option.isSome_map, List.find?_isSome]
      exact ⟨entry, hentry, decide_eq_true hlower⟩

theorem lookup_eq_none_iff {ν : Type} {table : Dict (List Char) ν} {name : List Char} :
    lookup lower table name = none ↔ ¬ HasName lower table name := by
  rw [← isSome_lookup_iff, Option.not_isSome_iff_eq_none]

/-! ## The entry of an instance -/

theorem instanceName_service? {s : MdnsService} (h : c.service? lower inst = some s) :
    s.instanceName = inst := by
  obtain ⟨_, -, rfl⟩ := Option.map_eq_some_iff.mp h
  rfl

theorem mem_services_iff {s : MdnsService} :
    s ∈ c.services lower ↔ s.instanceName ∈ c.instances
      ∧ c.service? lower s.instanceName = some s := by
  rw [services, List.mem_filterMap]
  constructor
  · rintro ⟨inst, hinst, hs⟩
    obtain rfl := instanceName_service? hs
    exact ⟨mem_sorted.mp hinst, hs⟩
  · rintro ⟨hinst, hs⟩
    exact ⟨_, mem_sorted.mpr hinst, hs⟩

/-- The instance is one of those that `services` lists. -/
def Listed (lower : List Char → List Char) (c : MdnsCollector) (inst : List Char) : Prop :=
  ∃ s ∈ c.services lower, s.instanceName = inst

theorem listed_iff : c.Listed lower inst ↔ inst ∈ c.instances ∧ HasName lower c.srv inst := by
  have hsome : (∃ s, c.service? lower inst = some s) ↔ HasName lower c.srv inst := by
    rw [← isSome_lookup_iff, ← Option.isSome_iff_exists, service?, Option.isSome_map]
  rw [← hsome, Listed]
  constructor
  · rintro ⟨s, hs, rfl⟩
    obtain ⟨hinst, hs⟩ := mem_services_iff.mp hs
    exact ⟨hinst, s, hs⟩
  · rintro ⟨hinst, s, hs⟩
    obtain rfl := instanceName_service? hs
    exact ⟨s, mem_services_iff.mpr ⟨hinst, hs⟩, rfl⟩

/-- The instances that are listed, in ascending order. -/
theorem map_instanceName_services : (c.services lower).map MdnsService.instanceName
    = c.instances.sort.filter fun inst => HasName lower c.srv inst := by
  rw [services, sorted_eq_sort, List.map_filterMap, ← List.filterMap_eq_filter]
  apply List.filterMap_congr
  intro inst _
  by_cases h : HasName lower c.srv inst
  · obtain ⟨service, hservice⟩ := Option.isSome_iff_exists.mp (isSome_lookup_iff.mpr h)
    rw [service?, hservice, Option.guard, decide_eq_true h]
    rfl
  · rw [service?, lookup_eq_none_iff.mpr h, Option.guard, decide_eq_false h]
    rfl

/-! ## The questions about an instance -/

theorem mem_missing_iff {question : Question} :
    question ∈ c.missing lower ↔ ∃ inst ∈ c.instances, question ∈ c.questions lower inst := by
  rw [missing, List.mem_flatMap]
  exact exists_congr fun inst => and_congr_left' mem_sorted

theorem addresses_eq_nil_iff {l : List String} : (Dict.fromKeys l).keys = [] ↔ l = [] := by
  simp only [List.eq_nil_iff_forall_not_mem, Dict.mem_keys_fromKeys]

/-- The questions about an instance, one type at a time. -/
theorem mem_questions_iff {question : Question} : question ∈ c.questions lower inst
    ↔ question = (inst, 33) ∧ ¬ HasName lower c.srv inst
      ∨ question = (inst, 16) ∧ (HasName lower c.srv inst → ¬ HasName lower c.txt inst)
      ∨ ∃ s, c.service? lower inst = some s ∧ s.addresses = [] ∧ question = (s.hostname, 1) := by
  cases hsrv : lookup lower c.srv inst with
  | none =>
    have hnot := lookup_eq_none_iff.mp hsrv
    simp [questions, service?, hsrv, hnot]
  | some service =>
    obtain ⟨port, target⟩ := service
    have hname : HasName lower c.srv inst :=
      isSome_lookup_iff.mp (Option.isSome_of_eq_some hsrv)
    have htxt : (lookup lower c.txt inst).isNone = true ↔ ¬ HasName lower c.txt inst := by
      rw [Option.isNone_iff_eq_none, lookup_eq_none_iff]
    simp only [questions, service?, hsrv, hname, htxt, List.mem_append, Option.map_some,
      Option.some_inj, exists_eq_left', addresses_eq_nil_iff, not_true_eq_false, and_false,
      false_or, forall_const]
    split <;> split <;> simp_all

/-! ## The questions about all instances -/

theorem srv_mem_missing_iff :
    (inst, 33) ∈ c.missing lower ↔ inst ∈ c.instances ∧ ¬ HasName lower c.srv inst := by
  simp only [mem_missing_iff, mem_questions_iff, Prod.mk.injEq]
  constructor
  · rintro ⟨inst', hinst, ⟨⟨rfl, -⟩, hsrv⟩ | ⟨⟨-, htype⟩, -⟩ | ⟨_, -, -, -, htype⟩⟩
    · exact ⟨hinst, hsrv⟩
    · cases htype
    · cases htype
  · rintro ⟨hinst, hsrv⟩
    exact ⟨inst, hinst, .inl ⟨⟨rfl, trivial⟩, hsrv⟩⟩

theorem txt_mem_missing_iff : (inst, 16) ∈ c.missing lower
    ↔ inst ∈ c.instances ∧ (HasName lower c.srv inst → ¬ HasName lower c.txt inst) := by
  simp only [mem_missing_iff, mem_questions_iff, Prod.mk.injEq]
  constructor
  · rintro ⟨inst', hinst, ⟨⟨-, htype⟩, -⟩ | ⟨⟨rfl, -⟩, htxt⟩ | ⟨_, -, -, -, htype⟩⟩
    · cases htype
    · exact ⟨hinst, htxt⟩
    · cases htype
  · rintro ⟨hinst, htxt⟩
    exact ⟨inst, hinst, .inr (.inl ⟨⟨rfl, trivial⟩, htxt⟩)⟩

theorem address_mem_missing_iff {host : List Char} :
    (host, 1) ∈ c.missing lower ↔ ∃ s ∈ c.services lower, s.hostname = host ∧ s.addresses = [] := by
  simp only [mem_missing_iff, mem_questions_iff, Prod.mk.injEq]
  constructor
  · rintro ⟨inst', hinst, ⟨⟨-, htype⟩, -⟩ | ⟨⟨-, htype⟩, -⟩ | ⟨s, hs, hnone, rfl, -⟩⟩
    · cases htype
    · cases htype
    · obtain rfl := instanceName_service? hs
      exact ⟨s, mem_services_iff.mpr ⟨hinst, hs⟩, rfl, hnone⟩
  · rintro ⟨s, hs, rfl, hnone⟩
    obtain ⟨hinst, hs⟩ := mem_services_iff.mp hs
    exact ⟨_, hinst, .inr (.inr ⟨s, hs, hnone, rfl, trivial⟩)⟩

/-- Nothing is missing when every instance is listed with an address and has TXT data. -/
theorem missing_eq_nil_iff : c.missing lower = [] ↔ ∀ inst ∈ c.instances,
    ∃ s ∈ c.services lower, s.instanceName = inst ∧ s.addresses ≠ []
      ∧ HasName lower c.txt inst := by
  constructor
  · intro hnil inst hinst
    have hnot (question : Question) : question ∉ c.missing lower :=
      hnil ▸ List.not_mem_nil
    have hsrv : HasName lower c.srv inst := by
      by_contra h
      exact hnot _ (srv_mem_missing_iff.mpr ⟨hinst, h⟩)
    have htxt : HasName lower c.txt inst := by
      by_contra h
      exact hnot _ (txt_mem_missing_iff.mpr ⟨hinst, fun _ => h⟩)
    obtain ⟨s, hs, rfl⟩ := listed_iff.mpr ⟨hinst, hsrv⟩
    exact ⟨s, hs, rfl, fun h => hnot _ (address_mem_missing_iff.mpr ⟨s, hs, rfl, h⟩), htxt⟩
  · intro hall
    rw [List.eq_nil_iff_forall_not_mem]
    intro question hquestion
    obtain ⟨inst, hinst, hquestion⟩ := mem_missing_iff.mp hquestion
    obtain ⟨s, hs, rfl, haddresses, htxt⟩ := hall inst hinst
    have hsrv := (listed_iff.mp ⟨s, hs, rfl⟩).2
    rcases mem_questions_iff.mp hquestion with ⟨-, h⟩ | ⟨-, h⟩ | ⟨s', hs', hnone, -⟩
    · exact h hsrv
    · exact h hsrv htxt
    · rw [(mem_services_iff.mp hs).2, Option.some_inj] at hs'
      exact haddresses (hs' ▸ hnone)

/-! ## Records that were received -/

/-- A TXT record of an instance is among those received. -/
def TxtReceived (lower : List Char → List Char) (received : List (Bytes × Record))
    (inst : List Char) : Prop :=
  ∃ p ∈ received, p.2.rtype = 16 ∧ lower p.2.name = lower inst

/-- TXT data is known under a name when a TXT record of the name was received. -/
theorem hasName_txt_iff {service : List Char} {datagrams : List Bytes} :
    HasName lower (browsed lower service datagrams).txt inst
      ↔ TxtReceived lower (taken lower service datagrams) inst := by
  rw [browsed_eq, HasName, txt_noteAll]
  simp only [Dict.mem_keys_replay, List.mem_map, List.mem_filterMap, facts]
  constructor
  · rintro ⟨key, hkey | ⟨entry, ⟨fact, ⟨p, hp, hfact⟩, hentry⟩, rfl⟩, hlower⟩
    · cases hkey
    · rcases Record.fact?_cases hfact with
        ⟨_, _, rfl, -⟩ | ⟨_, _, _, rfl, -⟩ | ⟨rfl, htype⟩ | ⟨rfl, -⟩
      · cases hentry
      · cases hentry
      · obtain rfl := Option.some.inj hentry
        exact ⟨p, hp, htype, hlower⟩
      · cases hentry
  · rintro ⟨p, hp, htype, hlower⟩
    have hfact : p.2.fact? lower (lower (stripDots service)) p.1
        = some (.txt p.2.name (parseTxt p.2.rdata)) := by
      rw [Record.fact?, if_neg (by omega), if_neg (by omega), if_pos htype]
    exact ⟨p.2.name, .inr ⟨_, ⟨_, ⟨p, hp, hfact⟩, rfl⟩, rfl⟩, hlower⟩

/-- Every instance is listed with an address, and a TXT record of it was received. -/
def AllResolved (lower : List Char → List Char) (received : List (Bytes × Record))
    (c : MdnsCollector) : Prop :=
  ∀ inst ∈ c.instances, ∃ s ∈ c.services lower, s.instanceName = inst ∧ s.addresses ≠ []
    ∧ TxtReceived lower received inst

/-- After any browse `services` lists the instances with an SRV record, in ascending order, and
`missing` asks for the SRV record of the others, for the TXT record of those that have not both,
and for the addresses of the listed hosts without any. So it is empty, as `query_mdns` wants it
before it stops early, when every instance is listed with an address and has TXT data. -/
theorem missing_services (lower : List Char → List Char) (service : List Char)
    (datagrams : List Bytes) :
    ((browsed lower service datagrams).services lower).map MdnsService.instanceName
        = (browsed lower service datagrams).instances.sort.filter
          (fun inst => HasName lower (browsed lower service datagrams).srv inst)
      ∧ (∀ inst, (inst, 33) ∈ (browsed lower service datagrams).missing lower
        ↔ inst ∈ (browsed lower service datagrams).instances
          ∧ ¬ (browsed lower service datagrams).Listed lower inst)
      ∧ (∀ inst ∈ (browsed lower service datagrams).instances,
        (inst, 16) ∉ (browsed lower service datagrams).missing lower
        ↔ (browsed lower service datagrams).Listed lower inst
          ∧ TxtReceived lower (taken lower service datagrams) inst)
      ∧ (∀ host, (host, 1) ∈ (browsed lower service datagrams).missing lower
        ↔ ∃ s ∈ (browsed lower service datagrams).services lower,
          s.hostname = host ∧ s.addresses = [])
      ∧ ((browsed lower service datagrams).missing lower = []
        ↔ AllResolved lower (taken lower service datagrams) (browsed lower service datagrams))
      ∧ ((browsed lower service datagrams).StopsEarly lower
        ↔ (browsed lower service datagrams).instances ≠ ∅
          ∧ AllResolved lower (taken lower service datagrams)
            (browsed lower service datagrams)) := by
  have hresolved : (browsed lower service datagrams).missing lower = []
      ↔ AllResolved lower (taken lower service datagrams) (browsed lower service datagrams) := by
    simp only [missing_eq_nil_iff, hasName_txt_iff, AllResolved]
  refine ⟨map_instanceName_services, fun inst => ?_, fun inst hinst => ?_,
    fun host => address_mem_missing_iff, hresolved, and_congr_right' hresolved⟩
  · rw [srv_mem_missing_iff, listed_iff]
    tauto
  · rw [txt_mem_missing_iff, listed_iff, ← hasName_txt_iff]
    tauto

end MdnsCollector

end Ddmp
