import Ddmp.Discovery.MissingTheorems
import Ddmp.Discovery.Written

/-!
# Several responders

A browse hears all the responders of a network, their datagrams in any order and some of them more
than once. `services_apart` says that it makes of each of them what it would make of it alone, and
`services_resent` that a responder may send the last of its datagrams again.
-/

namespace Ddmp

open Lib Fallible

/-- What the datagram teaches in a browse for `service`. -/
def taught (lower : List Char → List Char) (service : List Char) (data : Bytes) : List Fact :=
  (records data).filterMap fun record => record.fact? lower (lower (stripDots service)) data

/-- The second fact is looked up for what the first one says: the service of an instance, or the
addresses of its host. -/
def Fact.Uses (lower : List Char → List Char) : Fact → Fact → Prop
  | .ptr inst, .ptr inst' => inst = inst'
  | .ptr inst, .srv name _ _ => lower name = lower inst
  | .ptr inst, .txt name _ => lower name = lower inst
  | .srv _ _ target, .address host _ => host = lower target
  | _, _ => False

instance (lower : List Char → List Char) : (fact fact' : Fact) → Decidable (fact.Uses lower fact')
  | .ptr inst, .ptr inst' => inferInstanceAs (Decidable (inst = inst'))
  | .ptr inst, .srv name _ _ | .ptr inst, .txt name _ =>
    inferInstanceAs (Decidable (lower name = lower inst))
  | .srv _ _ target, .address host _ => inferInstanceAs (Decidable (host = lower target))
  | .ptr _, .address _ _ | .srv _ _ _, .ptr _ | .srv _ _ _, .srv _ _ _ | .srv _ _ _, .txt _ _
  | .txt _ _, _ | .address _ _, _ => inferInstanceAs (Decidable False)

/-- No fact of the datagrams that `keep` picks is looked up for one of the others, and none of the
others for one of these. -/
def Apart (lower : List Char → List Char) (service : List Char) (datagrams : List Bytes)
    (keep : Bytes → Bool) : Prop :=
  ∀ data ∈ datagrams, ∀ data' ∈ datagrams, keep data ≠ keep data' →
    ∀ fact ∈ taught lower service data, ∀ fact' ∈ taught lower service data',
      ¬ fact.Uses lower fact'

instance (lower : List Char → List Char) (service : List Char) (datagrams : List Bytes)
    (keep : Bytes → Bool) : Decidable (Apart lower service datagrams keep) :=
  inferInstanceAs (Decidable (∀ data ∈ datagrams, ∀ data' ∈ datagrams, keep data ≠ keep data' →
    ∀ fact ∈ taught lower service data, ∀ fact' ∈ taught lower service data',
      ¬ fact.Uses lower fact'))

theorem Apart.not {lower : List Char → List Char} {service : List Char} {datagrams : List Bytes}
    {keep : Bytes → Bool} (h : Apart lower service datagrams keep) :
    Apart lower service datagrams fun data => !keep data := by
  intro data hdata data' hdata' hkeep
  exact h data hdata data' hdata' fun heq => hkeep (congrArg Bool.not heq)

namespace MdnsCollector

variable {lower : List Char → List Char} {service : List Char} {datagrams : List Bytes}
variable {inst : List Char} {c c' : MdnsCollector}

/-- The two collectors know the same about an instance. -/
structure Agrees (lower : List Char → List Char) (inst : List Char) (c c' : MdnsCollector) :
    Prop where
  srv : lookup lower c.srv inst = lookup lower c'.srv inst
  txt : lookup lower c.txt inst = lookup lower c'.txt inst
  addresses : ∀ port target, lookup lower c.srv inst = some (port, target) →
    (Dict.fromKeys ((c.addresses.get? (lower target)).getD [])).keys
      = (Dict.fromKeys ((c'.addresses.get? (lower target)).getD [])).keys

theorem Agrees.symm (h : Agrees lower inst c c') : Agrees lower inst c' c :=
  ⟨h.srv.symm, h.txt.symm, fun port target hsrv => (h.addresses port target (h.srv ▸ hsrv)).symm⟩

theorem Agrees.trans {d : MdnsCollector} (h : Agrees lower inst c c')
    (h' : Agrees lower inst c' d) : Agrees lower inst c d :=
  ⟨h.srv.trans h'.srv, h.txt.trans h'.txt, fun port target hsrv =>
    (h.addresses port target hsrv).trans (h'.addresses port target (h.srv ▸ hsrv))⟩

theorem Agrees.service? (h : Agrees lower inst c c') :
    c.service? lower inst = c'.service? lower inst := by
  rw [MdnsCollector.service?, MdnsCollector.service?, ← h.srv, h.txt]
  cases hsrv : lookup lower c.srv inst with
  | none => rfl
  | some found =>
    have haddresses := h.addresses found.1 found.2 hsrv
    simp only [Option.map_some, haddresses]

theorem Agrees.questions (h : Agrees lower inst c c') :
    c.questions lower inst = c'.questions lower inst := by
  rw [MdnsCollector.questions, MdnsCollector.questions, ← h.srv, h.txt]
  cases hsrv : lookup lower c.srv inst with
  | none => rfl
  | some found =>
    have haddresses := h.addresses found.1 found.2 hsrv
    have hnil : (c.addresses.get? (lower found.2)).getD [] = []
        ↔ (c'.addresses.get? (lower found.2)).getD [] = [] := by
      rw [← addresses_eq_nil_iff, haddresses, addresses_eq_nil_iff]
    simp only [hnil]

theorem lookup_congr {ν : Type} {table table' : Dict (List Char) ν}
    (hget : ∀ name, lower name = lower inst → table.get? name = table'.get? name)
    (hfirst : table.keys.find? (fun name => lower name = lower inst)
      = table'.keys.find? fun name => lower name = lower inst) :
    lookup lower table inst = lookup lower table' inst := by
  rw [lookup, lookup, hget inst rfl]
  have hsecond : (table.entries.find? fun entry => lower entry.1 = lower inst).map Prod.snd
      = (table'.entries.find? fun entry => lower entry.1 = lower inst).map Prod.snd := by
    rw [Dict.map_snd_find?_entries table fun name => lower name = lower inst,
      Dict.map_snd_find?_entries table' fun name => lower name = lower inst, hfirst]
    cases hfind : table'.keys.find? fun name => lower name = lower inst with
    | none => rfl
    | some first =>
      have hlower := List.find?_some hfind
      exact hget first (of_decide_eq_true hlower)
  rw [hsecond]

/-! ## Logs -/

theorem lookup_replay_suffix {ν : Type} {log log' : List (List Char × ν)} (h : log' <:+ log) :
    lookup lower (Dict.empty.replay (log ++ log')) inst
      = lookup lower (Dict.empty.replay log) inst :=
  lookup_congr (fun name _ => Dict.get?_replay_suffix h _ name)
    (Dict.find?_keys_replay_append h.subset _ _)

theorem lookup_replay_filter {ν : Type} {log log' : List (List Char × ν)}
    (h : (log.filter fun e => lower e.1 = lower inst)
      = log'.filter fun e => lower e.1 = lower inst) :
    lookup lower (Dict.empty.replay log) inst = lookup lower (Dict.empty.replay log') inst := by
  refine lookup_congr (fun name hname => ?_) ?_
  · have hlike : decide (lower name = lower inst) = true := decide_eq_true hname
    rw [← Dict.get?_replay_filter log (p := fun name => lower name = lower inst) hlike, h,
      Dict.get?_replay_filter log' (p := fun name => lower name = lower inst) hlike]
  · rw [← Dict.find?_keys_replay_filter log fun name => lower name = lower inst, h,
      Dict.find?_keys_replay_filter log' fun name => lower name = lower inst]

/-! ## The facts of datagrams -/

/-- What a collector knows after these datagrams, when `add` has raised for none of them. -/
def heard (lower : List Char → List Char) (service : List Char) (datagrams : List Bytes) :
    MdnsCollector :=
  (fresh lower service).noteAll (datagrams.flatMap (taught lower service))

theorem browsed_eq_heard (h : (collect lower (fresh lower service) datagrams).1 = .ok ()) :
    browsed lower service datagrams = heard lower service datagrams := by
  rw [browsed_eq, heard, facts, taken_eq h, pairsOf, List.filterMap_flatMap]
  congr 2
  funext data
  rw [List.filterMap_map]
  rfl

theorem srv_heard : (heard lower service datagrams).srv
    = Dict.empty.replay ((datagrams.flatMap (taught lower service)).filterMap Fact.srvEntry?) :=
  srv_noteAll

theorem txt_heard : (heard lower service datagrams).txt
    = Dict.empty.replay ((datagrams.flatMap (taught lower service)).filterMap Fact.txtEntry?) :=
  txt_noteAll

theorem addresses_heard {host : List Char} :
    ((heard lower service datagrams).addresses.get? host).getD []
      = (datagrams.flatMap (taught lower service)).filterMap (Fact.addressOf? host) :=
  addresses_noteAll

theorem mem_instances_heard : inst ∈ (heard lower service datagrams).instances
    ↔ ∃ data ∈ datagrams, .ptr inst ∈ taught lower service data := by
  rw [heard, mem_instances_noteAll]
  constructor
  · intro h
    obtain ⟨fact, hfact, hinst⟩ := List.mem_filterMap.mp
      (h.resolve_left fun hnone => absurd hnone (Finset.notMem_empty inst))
    cases fact with
    | ptr inst' =>
      obtain rfl := Option.some.inj hinst
      exact List.mem_flatMap.mp hfact
    | srv | txt | address => cases hinst
  · intro h
    exact .inr (List.mem_filterMap.mpr ⟨_, List.mem_flatMap.mpr h, rfl⟩)

/-- Datagrams with none of the facts that are asked for make no difference. -/
theorem filterMap_taught {α : Type} {f : Fact → Option α} {keep : Bytes → Bool}
    (h : ∀ data ∈ datagrams, keep data = false → ∀ fact ∈ taught lower service data,
      f fact = none) :
    (datagrams.flatMap (taught lower service)).filterMap f
      = ((datagrams.filter keep).flatMap (taught lower service)).filterMap f := by
  induction datagrams with
  | nil => rfl
  | cons data datagrams ih =>
    rw [List.forall_mem_cons] at h
    rw [List.flatMap_cons, List.filterMap_append, ih h.2]
    cases hkeep : keep data with
    | true =>
      rw [List.filter_cons_of_pos hkeep, List.flatMap_cons, List.filterMap_append]
    | false =>
      rw [List.filter_cons_of_neg (by rw [hkeep]; exact Bool.false_ne_true),
        List.filterMap_eq_nil_iff.mpr (h.1 hkeep), List.nil_append]

/-! ## One responder among others -/

variable {keep : Bytes → Bool}

/-- The SRV record that is found for an instance is in one of the datagrams. -/
theorem srv_mem_taught {port : ℕ} {target : List Char}
    (h : lookup lower (heard lower service datagrams).srv inst = some (port, target)) :
    ∃ data ∈ datagrams, ∃ name, lower name = lower inst
      ∧ .srv name port target ∈ taught lower service data := by
  obtain ⟨name, hname, hget⟩ := get?_of_lookup h
  rw [srv_heard, Dict.get?_replay, Dict.get?_empty, Option.or_none] at hget
  obtain ⟨entry, hentry, heq⟩ := List.mem_map.mp (List.mem_of_getLast? hget)
  obtain ⟨hlog, hkey⟩ := List.mem_filter.mp hentry
  obtain ⟨fact, hfact, hsome⟩ := List.mem_filterMap.mp hlog
  cases fact with
  | srv name' port' target' =>
    obtain rfl := Option.some.inj hsome
    obtain rfl : name' = name := of_decide_eq_true hkey
    cases heq
    obtain ⟨data, hdata, hfact⟩ := List.mem_flatMap.mp hfact
    exact ⟨data, hdata, name', hname, hfact⟩
  | ptr | txt | address => cases hsome

/-- What is known about an instance is what the datagrams on its side say. -/
theorem agrees_filter (hapart : Apart lower service datagrams keep)
    (hinst : inst ∈ (heard lower service (datagrams.filter keep)).instances) :
    Agrees lower inst (heard lower service datagrams)
      (heard lower service (datagrams.filter keep)) := by
  obtain ⟨data₀, hdata₀, hptr⟩ := mem_instances_heard.mp hinst
  obtain ⟨hmem₀, hkeep₀⟩ := List.mem_filter.mp hdata₀
  have hother {data : Bytes} (hdata : data ∈ datagrams) (hkeep : keep data = false) {fact : Fact}
      (hfact : fact ∈ taught lower service data) : ¬ Fact.Uses lower (.ptr inst) fact :=
    hapart data₀ hmem₀ data hdata (by rw [hkeep₀, hkeep]; exact Bool.false_ne_true.symm)
      _ hptr _ hfact
  refine ⟨?_, ?_, fun port target hsrv => ?_⟩
  · rw [srv_heard, srv_heard]
    apply lookup_replay_filter
    rw [List.filter_filterMap, List.filter_filterMap]
    refine filterMap_taught fun data hdata hkeep fact hfact => ?_
    cases fact with
    | srv name port target =>
      have hname : ¬ lower name = lower inst := hother hdata hkeep hfact
      exact Option.filter_some_neg (decide_eq_false hname)
    | ptr | txt | address => rfl
  · rw [txt_heard, txt_heard]
    apply lookup_replay_filter
    rw [List.filter_filterMap, List.filter_filterMap]
    refine filterMap_taught fun data hdata hkeep fact hfact => ?_
    cases fact with
    | txt name items =>
      have hname : ¬ lower name = lower inst := hother hdata hkeep hfact
      exact Option.filter_some_neg (decide_eq_false hname)
    | ptr | srv | address => rfl
  · rw [addresses_heard, addresses_heard]
    congr 2
    obtain ⟨data₁, hdata₁, name, hname, hfact₁⟩ := srv_mem_taught hsrv
    have hkeep₁ : keep data₁ = true := by
      by_contra hkeep
      exact hother hdata₁ (Bool.eq_false_of_not_eq_true hkeep) hfact₁ hname
    refine filterMap_taught fun data hdata hkeep fact hfact => ?_
    cases fact with
    | address host text =>
      have hhost : host ≠ lower target := hapart data₁ hdata₁ data hdata
        (by rw [hkeep₁, hkeep]; exact Bool.false_ne_true.symm) _ hfact₁ _ hfact
      exact if_neg hhost
    | ptr | srv | txt => rfl

/-- A responder that sends its last datagrams again says nothing new. -/
theorem agrees_suffix {again : List Bytes} (h : again <:+ datagrams) :
    Agrees lower inst (heard lower service (datagrams ++ again))
      (heard lower service datagrams) := by
  have hfacts : again.flatMap (taught lower service)
      <:+ datagrams.flatMap (taught lower service) := by
    obtain ⟨before, rfl⟩ := h
    exact ⟨_, List.flatMap_append.symm⟩
  refine ⟨?_, ?_, fun port target _ => ?_⟩
  · rw [srv_heard, srv_heard, List.flatMap_append, List.filterMap_append]
    exact lookup_replay_suffix (hfacts.filterMap _)
  · rw [txt_heard, txt_heard, List.flatMap_append, List.filterMap_append]
    exact lookup_replay_suffix (hfacts.filterMap _)
  · rw [addresses_heard, addresses_heard, List.flatMap_append, List.filterMap_append]
    exact Dict.keys_fromKeys_append (hfacts.filterMap _).subset

/-- An instance is known from the datagrams of one side. -/
theorem instances_heard_filter (keep : Bytes → Bool) :
    inst ∈ (heard lower service datagrams).instances
      ↔ inst ∈ (heard lower service (datagrams.filter keep)).instances
        ∨ inst ∈ (heard lower service (datagrams.filter fun data => !keep data)).instances := by
  simp only [mem_instances_heard, List.mem_filter]
  constructor
  · rintro ⟨data, hdata, hptr⟩
    cases hkeep : keep data with
    | true => exact .inl ⟨data, ⟨hdata, hkeep⟩, hptr⟩
    | false => exact .inr ⟨data, ⟨hdata, by rw [hkeep]; rfl⟩, hptr⟩
  · rintro (⟨data, ⟨hdata, -⟩, hptr⟩ | ⟨data, ⟨hdata, -⟩, hptr⟩)
    · exact ⟨data, hdata, hptr⟩
    · exact ⟨data, hdata, hptr⟩

theorem resent_subset {again : List Bytes} (h : again <:+ datagrams.filter keep) :
    datagrams ++ again ⊆ datagrams :=
  List.append_subset.mpr ⟨fun _ hdata => hdata, fun _ hdata =>
    (List.mem_filter.mp (h.subset hdata)).1⟩

/-- The same among the datagrams of others. -/
theorem agrees_resent (hapart : Apart lower service datagrams keep) {again : List Bytes}
    (hagain : again <:+ datagrams.filter keep)
    (hinst : inst ∈ (heard lower service datagrams).instances) :
    Agrees lower inst (heard lower service (datagrams ++ again))
      (heard lower service datagrams) := by
  have hkeep : ∀ data ∈ again, keep data = true := fun data hdata =>
    (List.mem_filter.mp (hagain.subset hdata)).2
  have hsub : datagrams ++ again ⊆ datagrams := resent_subset hagain
  have hapart' : Apart lower service (datagrams ++ again) keep :=
    fun data hdata data' hdata' => hapart data (hsub hdata) data' (hsub hdata')
  rcases (instances_heard_filter keep).mp hinst with hinst | hinst
  · -- it is an instance of this responder, which says what it has said before
    have hkept : (datagrams ++ again).filter keep = datagrams.filter keep ++ again := by
      rw [List.filter_append, List.filter_eq_self.mpr hkeep]
    have hinst' : inst ∈ (heard lower service ((datagrams ++ again).filter keep)).instances := by
      obtain ⟨data, hdata, hptr⟩ := mem_instances_heard.mp hinst
      exact mem_instances_heard.mpr ⟨data, hkept ▸ List.mem_append_left _ hdata, hptr⟩
    have hall := agrees_filter hapart' hinst'
    rw [hkept] at hall
    exact (hall.trans (agrees_suffix hagain)).trans (agrees_filter hapart hinst).symm
  · -- the others have said nothing since
    have hnone : ((datagrams ++ again).filter fun data => !keep data)
        = datagrams.filter fun data => !keep data := by
      rw [List.filter_append, List.append_right_eq_self, List.filter_eq_nil_iff]
      intro data hdata
      rw [hkeep data hdata]
      exact Bool.false_ne_true
    have hall := agrees_filter hapart'.not (hnone.symm ▸ hinst)
    rw [hnone] at hall
    exact hall.trans (agrees_filter hapart.not hinst).symm

/-! ## What is listed -/

theorem disjoint_instances (hapart : Apart lower service datagrams keep)
    (h : inst ∈ (heard lower service (datagrams.filter keep)).instances) :
    inst ∉ (heard lower service (datagrams.filter fun data => !keep data)).instances := by
  intro h'
  obtain ⟨data, hdata, hptr⟩ := mem_instances_heard.mp h
  obtain ⟨data', hdata', hptr'⟩ := mem_instances_heard.mp h'
  obtain ⟨hmem, hkeep⟩ := List.mem_filter.mp hdata
  obtain ⟨hmem', hkeep'⟩ := List.mem_filter.mp hdata'
  have hne : keep data ≠ keep data' := by
    intro heq
    rw [← heq, hkeep] at hkeep'
    cases hkeep'
  exact hapart data hmem data' hmem' hne _ hptr _ hptr' rfl

theorem sorted_instances (hapart : Apart lower service datagrams keep) :
    (sorted (heard lower service datagrams).instances).Perm
      (sorted (heard lower service (datagrams.filter keep)).instances
        ++ sorted (heard lower service (datagrams.filter fun data => !keep data)).instances) := by
  rw [List.perm_ext_iff_of_nodup (nodup_sorted _)
    (List.nodup_append'.mpr ⟨nodup_sorted _, nodup_sorted _, fun inst h h' =>
      disjoint_instances hapart (mem_sorted.mp h) (mem_sorted.mp h')⟩)]
  intro inst
  rw [List.mem_append, mem_sorted, mem_sorted, mem_sorted]
  exact instances_heard_filter keep

/-- However the datagrams of responders come that do not need each other's records, a browse lists
for each of them what it would list if it heard that one alone, and asks what it would ask. -/
theorem services_apart (keep : Bytes → Bool)
    (hok : (collect lower (fresh lower service) datagrams).1 = .ok ())
    (hapart : Apart lower service datagrams keep) :
    ((browsed lower service datagrams).services lower).Perm
        ((browsed lower service (datagrams.filter keep)).services lower
          ++ (browsed lower service (datagrams.filter fun data => !keep data)).services lower)
      ∧ ((browsed lower service datagrams).missing lower).Perm
        ((browsed lower service (datagrams.filter keep)).missing lower
          ++ (browsed lower service (datagrams.filter fun data => !keep data)).missing lower) := by
  have hwhole := (collect_ok_iff lower service datagrams).mp hok
  have hpart (keep : Bytes → Bool) : browsed lower service (datagrams.filter keep)
      = heard lower service (datagrams.filter keep) :=
    browsed_eq_heard ((collect_ok_iff lower service _).mpr fun data hdata =>
      hwhole data (List.mem_filter.mp hdata).1)
  rw [browsed_eq_heard hok, hpart keep, hpart]
  have hfirst (inst) (h : inst ∈ sorted (heard lower service (datagrams.filter keep)).instances) :=
    agrees_filter hapart (mem_sorted.mp h)
  have hsecond (inst) (h : inst ∈ sorted
      (heard lower service (datagrams.filter fun data => !keep data)).instances) :=
    agrees_filter hapart.not (mem_sorted.mp h)
  constructor
  · refine ((sorted_instances hapart).filterMap _).trans ?_
    rw [List.filterMap_append, List.filterMap_congr fun inst h => (hfirst inst h).service?,
      List.filterMap_congr fun inst h => (hsecond inst h).service?]
    rfl
  · refine ((sorted_instances hapart).flatMap_right _).trans ?_
    rw [List.flatMap_append, List.flatMap_congr fun inst h => (hfirst inst h).questions,
      List.flatMap_congr fun inst h => (hsecond inst h).questions]
    rfl

/-- The answer of a cooler: PTR, SRV and A. -/
def coolerAnswer : Bytes :=
  written [⟨[bytesLit "_ddmp", bytesLit "_tcp", bytesLit "local"], 12, wire [bytesLit "CFX5"]⟩,
    ⟨[bytesLit "CFX5"], 33, [0, 0, 0, 0, 0x33, 0x56] ++ wire [bytesLit "MC1"]⟩,
    ⟨[bytesLit "MC1"], 1, [10, 0, 0, 7]⟩]

/-- The answer of a second one, which gives its instance only. -/
def otherAnswer : Bytes :=
  written [⟨[bytesLit "_ddmp", bytesLit "_tcp", bytesLit "local"], 12, wire [bytesLit "Box"]⟩]

theorem collect_twoCoolers :
    (collect strLower (fresh strLower serviceType) [otherAnswer, coolerAnswer]).1 = .ok () :=
  eq_ok_of_toOption (by decide +kernel)

theorem apart_twoCoolers : Apart strLower serviceType [otherAnswer, coolerAnswer] fun data =>
    data = coolerAnswer := by
  decide +kernel

theorem filter_twoCoolers :
    [otherAnswer, coolerAnswer].filter (fun data => data = coolerAnswer) = [coolerAnswer] := by
  decide +kernel

theorem services_apart_twoCoolers :
    ((browsed strLower serviceType [otherAnswer, coolerAnswer]).services strLower).Perm
        ((browsed strLower serviceType [coolerAnswer]).services strLower
          ++ (browsed strLower serviceType [otherAnswer]).services strLower)
      ∧ ((browsed strLower serviceType [otherAnswer, coolerAnswer]).missing strLower).Perm
        ((browsed strLower serviceType [coolerAnswer]).missing strLower
          ++ (browsed strLower serviceType [otherAnswer]).missing strLower) := by
  have happly := services_apart (fun data => data = coolerAnswer) collect_twoCoolers
    apart_twoCoolers
  have hother : [otherAnswer, coolerAnswer].filter (fun data => !(data = coolerAnswer : Bool))
      = [otherAnswer] := by
    decide +kernel
  rw [filter_twoCoolers, hother] at happly
  exact happly

/-- A responder that sends the last of its datagrams again, after whatever others have sent since,
changes neither what the browse lists nor what it asks. -/
theorem services_resent (keep : Bytes → Bool)
    (hok : (collect lower (fresh lower service) datagrams).1 = .ok ())
    (hapart : Apart lower service datagrams keep) {again : List Bytes}
    (hagain : again <:+ datagrams.filter keep) :
    (browsed lower service (datagrams ++ again)).services lower
        = (browsed lower service datagrams).services lower
      ∧ (browsed lower service (datagrams ++ again)).missing lower
        = (browsed lower service datagrams).missing lower := by
  have hsub : datagrams ++ again ⊆ datagrams := resent_subset hagain
  have hwhole := (collect_ok_iff lower service datagrams).mp hok
  have hok' : (collect lower (fresh lower service) (datagrams ++ again)).1 = .ok () :=
    (collect_ok_iff lower service _).mpr fun data hdata => hwhole data (hsub hdata)
  have hinstances : (heard lower service (datagrams ++ again)).instances
      = (heard lower service datagrams).instances := by
    ext inst
    simp only [mem_instances_heard]
    constructor
    · rintro ⟨data, hdata, hptr⟩
      exact ⟨data, hsub hdata, hptr⟩
    · rintro ⟨data, hdata, hptr⟩
      exact ⟨data, List.mem_append_left _ hdata, hptr⟩
  have hagrees (inst) (h : inst ∈ sorted (heard lower service datagrams).instances) :=
    agrees_resent hapart hagain (mem_sorted.mp h)
  rw [browsed_eq_heard hok, browsed_eq_heard hok']
  constructor
  · rw [services, hinstances]
    exact List.filterMap_congr fun inst h => (hagrees inst h).service?
  · rw [missing, hinstances]
    exact List.flatMap_congr fun inst h => (hagrees inst h).questions

/-- The first cooler answers again, when the other one has answered. -/
theorem services_resent_twoCoolers :
    (browsed strLower serviceType [otherAnswer, coolerAnswer, coolerAnswer]).services strLower
        = (browsed strLower serviceType [otherAnswer, coolerAnswer]).services strLower
      ∧ (browsed strLower serviceType [otherAnswer, coolerAnswer, coolerAnswer]).missing strLower
        = (browsed strLower serviceType [otherAnswer, coolerAnswer]).missing strLower :=
  services_resent (fun data => data = coolerAnswer) collect_twoCoolers apart_twoCoolers
    (filter_twoCoolers ▸ List.suffix_refl [coolerAnswer])

end MdnsCollector

end Ddmp
