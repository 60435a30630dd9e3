import Ddmp.Discovery.BrowseTheorems
import Ddmp.Discovery.LayoutTheorems
import Ddmp.Lib.AsciiCase
import Ddmp.Lib.Listing
import Ddmp.Lib.Pieces
import Ddmp.Lib.Pointwise

/-!
# Names in another case

Two responses are re-casings of each other when their records differ in the ASCII case of owners,
PTR targets and SRV targets only. `received_recased` says what that does to the facts that the
collector learns, and `outlines_eq` reads what `services` lists off these facts.
-/

namespace Ddmp

open Lib AsciiCase BigEndian Fallible

/-- Labels that differ in the ASCII case of their texts only. -/
def SameLabels (raws' raws : List Bytes) : Prop :=
  raws'.map (fun raw => asciiLower (Utf8.decodeReplace raw))
    = raws.map fun raw => asciiLower (Utf8.decodeReplace raw)

namespace Entry

/-- The name in the data of a PTR or an SRV record. -/
def Target (data : Bytes) (e : Entry) (raws : List Bytes) : Prop :=
  e.rtype = 12 ∧ NameAt data e.offset raws (e.offset + e.rdlen)
    ∨ e.rtype = 33 ∧ NameAt data (e.offset + 6) raws (e.offset + e.rdlen)

/-- The data of a record without that name. -/
def front (data : Bytes) (e : Entry) : Bytes :=
  if e.rtype = 12 then []
  else if e.rtype = 33 then slice data e.offset 6
  else slice data e.offset e.rdlen

/-- A record that differs from another one in the ASCII case of its names only. -/
structure Recased (data : Bytes) (e : Entry) (data' : Bytes) (e' : Entry) : Prop where
  rtype : e'.rtype = e.rtype
  owner : SameLabels e'.owner e.owner
  front : e'.front data' = e.front data
  target : ∀ raws', e'.Target data' raws' → ∃ raws, e.Target data raws ∧ SameLabels raws' raws

end Entry

/-- A well-formed response whose records differ from those of another one in the ASCII case of
their names only. How names are compressed, the questions, classes and times to live do not
matter. -/
structure Recased (r r' : Bytes × List Entry) : Prop where
  wellFormed : WellFormed r'.1 r'.2
  entries : List.Forall₂ (fun e e' => e.Recased r.1 r'.1 e') r.2 r'.2

/-- A service as it is compared: its names without their case, its TXT data as a map. -/
structure Outline where
  inst : List Char
  host : List Char
  port : ℕ
  addresses : List String
  txt : List Char → Option (List Char)

def MdnsService.outline (lower : List Char → List Char) (s : MdnsService) : Outline where
  inst := lower s.instanceName
  host := lower s.hostname
  port := s.port
  addresses := s.addresses
  txt := s.txt.get?

/-- What `services` lists after some responses. -/
def outlines (lower : List Char → List Char) (service : List Char)
    (responses : List (Bytes × List Entry)) : Multiset Outline :=
  ((MdnsCollector.browsed lower service (responses.map Prod.fst)).services lower).map
    (MdnsService.outline lower)

/-- What the records of a response teach in a browse for `service`. -/
def taughtBy (lower : List Char → List Char) (service : List Char) (r : Bytes × List Entry) :
    List Fact :=
  r.2.filterMap fun e => (e.toRecord r.1).fact? lower service r.1

/-- What the records of some responses teach in a browse. -/
def received (lower : List Char → List Char) (service : List Char)
    (responses : List (Bytes × List Entry)) : List Fact :=
  responses.flatMap (taughtBy lower (lower (stripDots service)))

/-! ## Names -/

theorem asciiLower_textOf (raws : List Bytes) : asciiLower (textOf raws)
    = ['.'].intercalate (raws.map fun raw => asciiLower (Utf8.decodeReplace raw)) := by
  have hdot : Char.toLower '.' = '.' := by decide
  rw [asciiLower, textOf, Pieces.map_intercalate, hdot, List.map_map]
  rfl

theorem SameLabels.textOf {raws raws' : List Bytes} (h : SameLabels raws' raws) :
    asciiLower (textOf raws') = asciiLower (textOf raws) := by
  rw [asciiLower_textOf, asciiLower_textOf, h]

/-- How `lower` and the ASCII case relate. -/
def spelling (lower : List Char → List Char)
    (hlower : ∀ name, lower (asciiLower name) = lower name) : Spelling (List Char) (List Char) where
  plain := asciiLower
  fold := lower
  plain_plain := asciiLower_asciiLower
  fold_plain := hlower

theorem lower_eq_of_asciiLower {lower : List Char → List Char}
    (hlower : ∀ name, lower (asciiLower name) = lower name) {name name' : List Char}
    (h : asciiLower name' = asciiLower name) : lower name' = lower name := by
  rw [← hlower name', h, hlower]

/-! ## Facts -/

/-- What a record teaches, from its parts. -/
def factOf (lower : List Char → List Char) (service name : List Char) (rtype : ℕ) (front : Bytes)
    (target : List Char) : Option Fact :=
  if rtype = 12 then if lower name = service then some (.ptr target) else none
  else if rtype = 33 then (u16At front 4).map fun port => .srv name port target
  else if rtype = 16 then some (.txt name (parseTxt front))
  else if rtype = 1 ∧ front.length = 4 then some (.address (lower name) (inetNtoa front))
  else none

/-- A fact with its names in lower case, the target of an SRV record as it is compared. -/
def Fact.plain (lower : List Char → List Char) : Fact → Fact
  | .ptr inst => .ptr (asciiLower inst)
  | .srv name port target => .srv (asciiLower name) port (lower target)
  | .txt name items => .txt (asciiLower name) items
  | .address host text => .address host text

section fact

variable {lower : List Char → List Char} {service : List Char} {data : Bytes} {e : Entry}

theorem Entry.fact?_toRecord (hfits : e.offset + e.rdlen ≤ data.length) {raws : List Bytes}
    (htarget : e.rtype = 12 ∨ e.rtype = 33 → e.Target data raws) :
    (e.toRecord data).fact? lower service data
      = factOf lower service (textOf e.owner) e.rtype (e.front data) (textOf raws) := by
  have hlength : (e.toRecord data).rdata.length = e.rdlen := by
    rw [toRecord, slice, List.length_take, List.length_drop]
    omega
  have htype : (e.toRecord data).rtype = e.rtype := rfl
  have hname : (e.toRecord data).name = textOf e.owner := rfl
  by_cases hptr : e.rtype = 12
  · rcases htarget (.inl hptr) with ⟨-, hat⟩ | ⟨hsrv, -⟩
    · have hread : readName data (e.toRecord data).offset = _ := hat.readName_eq
      rw [Record.fact?, factOf, hread, htype, hname, if_pos hptr]
      by_cases hservice : lower (textOf e.owner) = service
      · rw [if_pos ⟨hptr, hservice⟩, if_pos hservice]
        rfl
      · rw [if_neg fun h => hservice h.2, if_neg (by omega), if_neg (by omega), if_neg (by omega),
          if_neg hservice]
    · omega
  by_cases hsrv : e.rtype = 33
  · rcases htarget (.inr hsrv) with ⟨hptr, -⟩ | ⟨-, hat⟩
    · omega
    · have hread : readName data ((e.toRecord data).offset + 6) = _ := hat.readName_eq
      have hlt := hat.lt_stop
      have hport : u16At (e.toRecord data).rdata 4 = u16At (e.front data) 4 := by
        rw [front, if_neg hptr, if_pos hsrv]
        show u16At (slice data e.offset e.rdlen) 4 = _
        rw [slice, slice, u16At_take_drop (by omega), u16At_take_drop (by omega)]
      rw [Record.fact?, factOf, hread, htype, hname, hport, if_neg fun h => hptr h.1,
        if_pos ⟨hsrv, by omega⟩, if_neg hptr, if_pos hsrv]
      cases u16At (e.front data) 4 <;> rfl
  · have hfront : e.front data = (e.toRecord data).rdata := by
      rw [front, if_neg hptr, if_neg hsrv]
      rfl
    rw [Record.fact?, factOf, htype, hname, hfront, if_neg fun h => hptr h.1,
      if_neg fun h => hsrv h.1, if_neg hptr, if_neg hsrv]

/-- Parts that differ in the case of their names teach facts that do. -/
theorem factOf_recased (hlower : ∀ name, lower (asciiLower name) = lower name)
    {name name' target target' : List Char} (hname : asciiLower name' = asciiLower name)
    (htarget : asciiLower target' = asciiLower target) (rtype : ℕ) (front : Bytes) :
    (factOf lower service name' rtype front target').map (Fact.plain lower)
      = (factOf lower service name rtype front target).map (Fact.plain lower) := by
  rw [factOf, factOf, lower_eq_of_asciiLower hlower hname]
  split
  · split
    · simp only [Option.map_some, Fact.plain, htarget]
    · rfl
  · split
    · simp only [Option.map_map, Function.comp_def, Fact.plain, hname,
        lower_eq_of_asciiLower hlower htarget]
    · split
      · simp only [Option.map_some, Fact.plain, hname]
      · rfl

theorem WellFormed.exists_target {entries : List Entry} (h : WellFormed data entries)
    (he : e ∈ entries) (htype : e.rtype = 12 ∨ e.rtype = 33) :
    ∃ raws, ValidName raws ∧ e.Target data raws := by
  rcases htype with htype | htype
  · obtain ⟨raws, hvalid, hat⟩ := h.ptr e he htype
    exact ⟨raws, hvalid, .inl ⟨htype, hat⟩⟩
  · obtain ⟨raws, hvalid, hat⟩ := h.srv e he htype
    exact ⟨raws, hvalid, .inr ⟨htype, hat⟩⟩

theorem Entry.Target.unique {raws raws' : List Bytes} (h : e.Target data raws)
    (h' : e.Target data raws') : raws = raws' := by
  rcases h with ⟨htype, hat⟩ | ⟨htype, hat⟩
  · rcases h' with ⟨-, hat'⟩ | ⟨htype', -⟩
    · exact hat.unique hat'
    · omega
  · rcases h' with ⟨htype', -⟩ | ⟨-, hat'⟩
    · omega
    · exact hat.unique hat'

/-- So a record and its re-casing teach the same but for the case of names. -/
theorem Entry.Recased.fact? {data' : Bytes} {e' : Entry} (h : e.Recased data data' e')
    (hlower : ∀ name, lower (asciiLower name) = lower name) {entries entries' : List Entry}
    (hwf : WellFormed data entries) (he : e ∈ entries) (hwf' : WellFormed data' entries')
    (he' : e' ∈ entries') :
    ((e'.toRecord data').fact? lower service data').map (Fact.plain lower)
      = ((e.toRecord data).fact? lower service data).map (Fact.plain lower) := by
  obtain ⟨raws', raws, htarget', htarget, hsame⟩ : ∃ raws' raws,
      (e'.rtype = 12 ∨ e'.rtype = 33 → e'.Target data' raws')
        ∧ (e.rtype = 12 ∨ e.rtype = 33 → e.Target data raws) ∧ SameLabels raws' raws := by
    by_cases htype : e'.rtype = 12 ∨ e'.rtype = 33
    · obtain ⟨raws', -, htarget'⟩ := hwf'.exists_target he' htype
      obtain ⟨raws, htarget, hsame⟩ := h.target raws' htarget'
      exact ⟨raws', raws, fun _ => htarget', fun _ => htarget, hsame⟩
    · rw [h.rtype] at htype
      exact ⟨[], [], fun hname => absurd (h.rtype ▸ hname) htype, fun hname => absurd hname htype,
        rfl⟩
  rw [fact?_toRecord (hwf'.fits e' he') htarget', fact?_toRecord (hwf.fits e he) htarget, h.rtype,
    h.front]
  exact factOf_recased hlower h.owner.textOf hsame.textOf e.rtype _

theorem taughtBy_recased (hlower : ∀ name, lower (asciiLower name) = lower name)
    {r r' : Bytes × List Entry} (hwf : WellFormed r.1 r.2) (h : Recased r r') :
    (taughtBy lower service r').map (Fact.plain lower)
      = (taughtBy lower service r).map (Fact.plain lower) := by
  rw [taughtBy, taughtBy, List.map_filterMap, List.map_filterMap]
  refine Pointwise.filterMap_eq ?_
  apply Pointwise.forall₂_of_mem h.entries
  intro e he e' he' hrecased
  exact hrecased.fact? hlower hwf he h.wellFormed he'

/-- Responses and their re-casings teach the same but for the case of names. -/
theorem received_recased (hlower : ∀ name, lower (asciiLower name) = lower name)
    {responses responses' : List (Bytes × List Entry)}
    (hwf : ∀ r ∈ responses, WellFormed r.1 r.2)
    (h : List.Forall₂ Recased responses responses') :
    (received lower service responses').map (Fact.plain lower)
      = (received lower service responses).map (Fact.plain lower) := by
  induction h with
  | nil => rfl
  | cons hr _ ih =>
    rw [List.forall_mem_cons] at hwf
    rw [received, received, List.flatMap_cons, List.flatMap_cons, List.map_append, List.map_append,
      taughtBy_recased hlower hwf.1 hr]
    exact congrArg _ (ih hwf.2)

end fact

/-! ## What is listed -/

/-- The instances that PTR records name. -/
def announced (facts : List Fact) : List (List Char) := facts.filterMap Fact.inst?

/-- The SRV records: owner, port, host without its case. -/
def srvLog (lower : List Char → List Char) (facts : List Fact) :
    List (List Char × ℕ × List Char) :=
  (facts.filterMap Fact.srvEntry?).map fun e => (e.1, e.2.1, lower e.2.2)

/-- The TXT records: owner and data as a map. -/
def txtLog (facts : List Fact) : List (List Char × (List Char → Option (List Char))) :=
  (facts.filterMap Fact.txtEntry?).map fun e => (e.1, e.2.get?)

/-- The addresses of a host, each once. -/
def addressesOf (facts : List Fact) (host : List Char) : List String :=
  (Dict.fromKeys (facts.filterMap (Fact.addressOf? host))).keys

/-- The outline of a service, from the row of its instance. -/
def Outline.ofRow (addresses : List Char → List String)
    (row : List Char × (ℕ × List Char) × (List Char → Option (List Char))) : Outline :=
  ⟨row.1, row.2.1.2, row.2.1.1, addresses row.2.1.2, row.2.2⟩

namespace MdnsCollector

variable {lower : List Char → List Char} {service : List Char}
variable {responses : List (Bytes × List Entry)}

/-- Looking up in the table of a log. -/
theorem lookup_replay (hlower : ∀ name, lower (asciiLower name) = lower name) {ν : Type}
    (log : List (List Char × ν)) (name : List Char) :
    lookup lower (Dict.empty.replay log) name = (spelling lower hlower).found log name := by
  have hget (k : List Char) : (Dict.empty.replay log).get? k = (Dict.assigned k log).getLast? := by
    rw [Dict.get?_replay, Dict.get?_empty, Option.or_none]
  have hfirst : ((Dict.empty.replay log).entries.find? fun e => lower e.1 = lower name).map Prod.snd
      = ((spelling lower hlower).first? log name).bind fun first =>
        (Dict.assigned first.1 log).getLast? := by
    rw [Dict.map_snd_find?_entries _ fun k => lower k = lower name, Dict.find?_keys_replay]
    show ((log.map Prod.fst).find? fun k => lower k = lower name).bind _ = _
    rw [List.find?_map, Option.bind_map]
    exact congrArg _ (funext fun e => hget e.1)
  rw [lookup, hget, hfirst, Spelling.found]
  cases (Dict.assigned name log).getLast? <;> rfl

/-- A well-formed response is taken as a whole. -/
theorem facts_eq_received (hwf : ∀ r ∈ responses, WellFormed r.1 r.2) :
    facts lower service (responses.map Prod.fst) = received lower service responses := by
  have hok : (collect lower (fresh lower service) (responses.map Prod.fst)).1 = .ok () := by
    rw [collect_ok_iff, List.forall_mem_map]
    intro r hr record hrecord offset hnamed hends
    rw [(hwf r hr).records_eq] at hrecord
    obtain ⟨e, he, rfl⟩ := List.mem_map.mp hrecord
    have hread {raws : List Bytes} {stop : ℕ} (hat : NameAt r.1 offset raws stop) : False := by
      cases hat.readName_eq.symm.trans (readName_eq_structError_iff.mpr hends)
    rcases hnamed with ⟨htype, -, rfl⟩ | ⟨htype, -, rfl⟩
    · obtain ⟨raws, -, hat⟩ := (hwf r hr).ptr e he htype
      exact hread hat
    · obtain ⟨raws, -, hat⟩ := (hwf r hr).srv e he htype
      exact hread hat
  rw [facts, taken_eq hok, pairsOf, received, List.flatMap_map, List.filterMap_flatMap]
  apply List.flatMap_congr
  intro r hr
  rw [(hwf r hr).records_eq, List.map_map, List.filterMap_map]
  rfl

/-- The outline of a service is the row of its instance. -/
theorem outline_service? (hlower : ∀ name, lower (asciiLower name) = lower name)
    {c : MdnsCollector} {facts : List Fact} (hc : c = (fresh lower service).noteAll facts)
    (inst : List Char) : (c.service? lower inst).map (MdnsService.outline lower)
      = ((spelling lower hlower).row (srvLog lower facts) (txtLog facts) (fun _ => none) inst).map
        (Outline.ofRow (addressesOf facts)) := by
  have hsrv : lookup lower c.srv inst
      = (spelling lower hlower).found (facts.filterMap Fact.srvEntry?) inst := by
    rw [hc, srv_noteAll]
    exact lookup_replay hlower _ inst
  have htxt : lookup lower c.txt inst
      = (spelling lower hlower).found (facts.filterMap Fact.txtEntry?) inst := by
    rw [hc, txt_noteAll]
    exact lookup_replay hlower _ inst
  have haddresses (host : List Char) :
      (c.addresses.get? host).getD [] = facts.filterMap (Fact.addressOf? host) := by
    rw [hc, addresses_noteAll]
    rfl
  have hsrvLog : (spelling lower hlower).found (srvLog lower facts) inst
      = ((spelling lower hlower).found (facts.filterMap Fact.srvEntry?) inst).map
        fun x => (x.1, lower x.2) :=
    Spelling.found_map (fun x : ℕ × List Char => (x.1, lower x.2)) _ inst
  have htxtLog : (spelling lower hlower).found (txtLog facts) inst
      = ((spelling lower hlower).found (facts.filterMap Fact.txtEntry?) inst).map Dict.get? :=
    Spelling.found_map Dict.get? _ inst
  rw [service?, hsrv, htxt, Spelling.row, hsrvLog, htxtLog]
  cases (spelling lower hlower).found (facts.filterMap Fact.srvEntry?) inst with
  | none => rfl
  | some record =>
    obtain ⟨port, target⟩ := record
    simp only [Option.map_some, MdnsService.outline, Outline.ofRow, addressesOf, haddresses]
    cases (spelling lower hlower).found (facts.filterMap Fact.txtEntry?) inst <;> rfl

/-- What `services` lists, from what the records teach. -/
theorem outlines_eq (hlower : ∀ name, lower (asciiLower name) = lower name)
    (hwf : ∀ r ∈ responses, WellFormed r.1 r.2) : outlines lower service responses
      = ((spelling lower hlower).rows (announced (received lower service responses))
          (srvLog lower (received lower service responses))
          (txtLog (received lower service responses)) fun _ => none).map
        (Outline.ofRow (addressesOf (received lower service responses))) := by
  have hfacts := browsed_eq lower service (responses.map Prod.fst)
  rw [facts_eq_received hwf] at hfacts
  have hinstances : (browsed lower service (responses.map Prod.fst)).instances
      = (announced (received lower service responses)).toFinset := by
    ext inst
    rw [hfacts, mem_instances_noteAll, List.mem_toFinset]
    exact or_iff_right (Finset.notMem_empty inst)
  rw [outlines, services, sorted_eq_sort, hinstances, ← Multiset.map_coe, ← Multiset.filterMap_coe,
    Finset.sort_eq, Multiset.map_filterMap, Spelling.rows, Multiset.map_filterMap]
  congr 1
  funext inst
  exact outline_service? hlower hfacts inst

/-! ## Re-casings -/

section plain

variable {facts facts' : List Fact}

theorem announced_plain (lower : List Char → List Char) (facts : List Fact) :
    (announced facts).map asciiLower = announced (facts.map (Fact.plain lower)) := by
  rw [announced, announced, List.map_filterMap, List.filterMap_map]
  apply List.filterMap_congr
  intro fact _
  cases fact <;> rfl

theorem srvLog_plain (hlower : ∀ name, lower (asciiLower name) = lower name) (facts : List Fact) :
    (spelling lower hlower).plainLog (srvLog lower facts)
      = (facts.map (Fact.plain lower)).filterMap Fact.srvEntry? := by
  rw [Spelling.plainLog, srvLog, List.map_map, List.map_filterMap, List.filterMap_map]
  apply List.filterMap_congr
  intro fact _
  cases fact <;> rfl

theorem txtLog_plain (hlower : ∀ name, lower (asciiLower name) = lower name) (facts : List Fact) :
    (spelling lower hlower).plainLog (txtLog facts) = txtLog (facts.map (Fact.plain lower)) := by
  rw [Spelling.plainLog, txtLog, txtLog, List.map_map, List.map_filterMap, List.map_filterMap,
    List.filterMap_map]
  apply List.filterMap_congr
  intro fact _
  cases fact <;> rfl

theorem addressesOf_plain (lower : List Char → List Char) (facts : List Fact) :
    addressesOf (facts.map (Fact.plain lower)) = addressesOf facts := by
  funext host
  rw [addressesOf, addressesOf, List.filterMap_map]
  refine congrArg (fun l => (Dict.fromKeys l).keys) (List.filterMap_congr fun fact _ => ?_)
  cases fact <;> rfl

theorem addressesOf_eq_of_plain {facts' : List Fact}
    (h : facts'.map (Fact.plain lower) = facts.map (Fact.plain lower)) :
    addressesOf facts' = addressesOf facts := by
  rw [← addressesOf_plain lower, h, addressesOf_plain]

end plain

theorem wellFormed_of_recased {responses' : List (Bytes × List Entry)}
    (h : List.Forall₂ Recased responses responses') : ∀ r' ∈ responses', WellFormed r'.1 r'.2 := by
  intro r' hr'
  obtain ⟨r, -, hr⟩ := Pointwise.exists_of_mem h hr'
  exact hr.wellFormed

/-- What is listed is the same in whatever case the names are received. -/
def CaseFree (lower : List Char → List Char) (service : List Char)
    (responses : List (Bytes × List Entry)) : Prop :=
  ∀ responses', List.Forall₂ Recased responses responses' →
    outlines lower service responses' = outlines lower service responses

/-- The records of an instance with an SRV record agree: if its name has ASCII letters there is one
PTR record of it, and the SRV and the TXT records that can be found for it in some case of the
names have the same port and host and the same data. -/
def CaseSteady (lower : List Char → List Char)
    (hlower : ∀ name, lower (asciiLower name) = lower name) (service : List Char)
    (responses : List (Bytes × List Entry)) : Prop :=
  (spelling lower hlower).Steady (announced (received lower service responses))
    (srvLog lower (received lower service responses)) (txtLog (received lower service responses))

theorem CaseSteady.caseFree {hlower : ∀ name, lower (asciiLower name) = lower name}
    (hwf : ∀ r ∈ responses, WellFormed r.1 r.2) (h : CaseSteady lower hlower service responses) :
    CaseFree lower service responses := by
  intro responses' hrecased
  have hwf' := wellFormed_of_recased hrecased
  have hplain : (received lower service responses').map (Fact.plain lower)
      = (received lower service responses).map (Fact.plain lower) :=
    received_recased hlower hwf hrecased
  rw [outlines_eq hlower hwf', outlines_eq hlower hwf, addressesOf_eq_of_plain hplain]
  refine congrArg _ (Spelling.rows_eq_of_steady h ?_ ?_ ?_)
  · show (announced _).map asciiLower = (announced _).map asciiLower
    rw [announced_plain lower, hplain, ← announced_plain]
  · rw [srvLog_plain, hplain, ← srvLog_plain]
  · rw [txtLog_plain, hplain, ← txtLog_plain]

end MdnsCollector

end Ddmp
