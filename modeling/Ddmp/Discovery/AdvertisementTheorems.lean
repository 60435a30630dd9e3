import Ddmp.Discovery.AddTheorems
import Ddmp.Discovery.Advertisement

/-!
# Advertised services are found

`services_of_advertised`: whatever way a service is written into DNS messages, and whatever else
they hold, the collector lists it once, as it was described, and asks nothing more about it.
-/

namespace Ddmp

open Lib BigEndian Fallible

/-! ## Reading a well-formed message -/

namespace DomainName

theorem WrittenAt.readName_eq {data : Bytes} {offset stop : ℕ} {name : DomainName}
    (h : name.WrittenAt data offset stop) : readName data offset = .ok (name.text, stop) := by
  obtain ⟨jumps, hjumps, hspells⟩ := h
  have hdecode : name.raws.map Utf8.decodeReplace = name.map Label.text := by
    rw [raws, List.map_map]
    exact List.map_congr_left fun label _ => Utf8.decodeReplace_encode label.text
  rw [readName_of_spells hspells hjumps, hdecode, text]

/-- A name begins and ends without a dot. -/
theorem stripDots_text (name : DomainName) : stripDots name.text = name.text := by
  cases hname : name with
  | nil => rfl
  | cons label rest =>
    have hsplit : name.text.splitOn '.' = name.map Label.text := by
      refine List.splitOn_intercalate '.' ?_ (by simp [hname])
      rw [List.forall_mem_map]
      exact fun label _ => label.noDot
    have hlegible : Legible name.text := by
      unfold Legible
      rw [hsplit, List.forall_mem_map]
      exact fun label _ => ⟨label.pos, label.le.trans_lt (by decide)⟩
    rw [← hname]
    exact hlegible.stripDots_eq

end DomainName

theorem Asked.skipQuestions_eq {data : Bytes} {n offset stop : ℕ} (h : Asked data n offset stop) :
    skipQuestions data n offset = .ok stop := by
  induction h with
  | nil => rfl
  | cons hname _ ih =>
    rw [skipQuestions, hname.readName_eq, ok_bind]
    exact ih

/-- A record as `parse_response` returns it. -/
def ResourceRecord.toRecord (data : Bytes) (r : ResourceRecord) : Record :=
  ⟨r.owner.text, r.rtype, r.rdata data, r.offset⟩

theorem Listed.readRecords_eq {data : Bytes} {rs : List ResourceRecord} {offset : ℕ}
    (h : Listed data rs offset) :
    readRecords data rs.length offset = (rs.map (·.toRecord data), none) := by
  induction h with
  | nil => rfl
  | @cons r rest offset next howner htype hrdlen hoffset _ _ ih =>
    have hrecord : readRecord data offset = .ok (r.toRecord data, r.offset + r.rdlen) := by
      rw [readRecord, howner.readName_eq, ok_bind]
      dsimp only
      rw [unpackBE, htype, orRaise, ok_bind, unpackBE, hrdlen, orRaise, ok_bind, ← hoffset]
      rfl
    rw [List.length_cons, readRecords, hrecord]
    dsimp only
    rw [ih, List.map_cons]

theorem Message.records_eq (m : Message) :
    Ddmp.records m.data = m.records.map (·.toRecord m.data) := by
  suffices h : parseResponse m.data = .ok (m.records.map (·.toRecord m.data)) by
    exact (Except.ok.inj (h.symm.trans (parseResponse_eq m.data))).symm
  have hlong : ¬ m.data.length < 12 := by
    have hlast := lt_length_of_u16At m.hadditionals
    omega
  rw [parseResponse, if_neg hlong, unpackBE, m.hquestions, unpackBE, m.hanswers, unpackBE,
    m.hauthorities, unpackBE, m.hadditionals]
  simp only [orRaise, ok_bind]
  rw [m.asked.skipQuestions_eq]
  dsimp only
  rw [← m.counted, m.listed.readRecords_eq]
  rfl

/-! ## TXT records -/

theorem txtItems_label {raw : Bytes} (h : raw.length ≤ 255) (rest : Bytes) :
    txtItems (labelBytes raw ++ rest) = Utf8.decodeReplace raw :: txtItems rest := by
  have hvalue : (UInt8.ofNat raw.length).toNat = raw.length := Utf8.toNat_ofNat (by omega)
  rw [labelBytes, List.cons_append, txtItems, hvalue, List.take_left, List.drop_left]

theorem txtItems_flatMap {strings : List (List Char)}
    (h : ∀ s ∈ strings, (Utf8.encode s).length ≤ 255) :
    txtItems (strings.flatMap fun s => labelBytes (Utf8.encode s)) = strings := by
  induction strings with
  | nil => rw [List.flatMap_nil, txtItems]
  | cons s strings ih =>
    rw [List.forall_mem_cons] at h
    rw [List.flatMap_cons, txtItems_label h.1, Utf8.decodeReplace_encode, ih h.2]

theorem TxtItem.txtEntry_eq (item : TxtItem) :
    txtEntry (item.key ++ '=' :: item.value) = (item.key, item.value) := by
  have hkey : ∀ c ∈ item.key, decide (c ≠ '=') = true := by
    intro c hc
    rw [decide_eq_true_eq]
    exact fun heq => item.noEquals (heq ▸ hc)
  rw [txtEntry, List.takeWhile_append_of_pos hkey, List.dropWhile_append_of_pos hkey]
  simp [item.stripped]

/-- Whatever the order of its strings, a TXT record is read as the map. -/
theorem ServiceDescription.WritesTxt.get?_parseTxt {d : ServiceDescription} {rdata : Bytes}
    (h : d.WritesTxt rdata) (key : List Char) : (parseTxt rdata).get? key = d.txtMap.get? key := by
  obtain ⟨strings, hle, rfl, hperm⟩ := h
  have hentries : (d.txt.map fun item => item.key ++ '=' :: item.value).map txtEntry
      = d.txt.map fun item => (item.key, item.value) := by
    rw [List.map_map]
    exact List.map_congr_left fun item _ => item.txtEntry_eq
  have hpermuted := hperm.map txtEntry
  rw [hentries] at hpermuted
  have hnodup : ((d.txt.map fun item => (item.key, item.value)).map Prod.fst).Nodup := by
    rw [List.map_map]
    exact d.keys_nodup
  rw [parseTxt, txtItems_flatMap hle]
  exact (Dict.get?_ofList_perm hpermuted.symm hnodup key).symm

/-! ## Facts about the service -/

namespace ServiceDescription

variable {lower : List Char → List Char} {d : ServiceDescription} {data : Bytes}
variable {r : ResourceRecord} {c : MdnsCollector}

/-- A fact that is right about the service, or about other names. -/
def Sound (lower : List Char → List Char) (d : ServiceDescription) : Fact → Prop
  | .ptr inst => inst = d.instanceName.text
      ∨ lower inst ≠ lower d.instanceName.text ∧ lower inst ≠ lower d.host.text
  | .srv name port target => name = d.instanceName.text ∧ port = d.port ∧ target = d.host.text
      ∨ lower name ≠ lower d.instanceName.text ∧ lower target ≠ lower d.instanceName.text
  | .txt name items => (∀ key, items.get? key = d.txtMap.get? key)
      ∨ lower name ≠ lower d.instanceName.text
  | .address host address => host = lower d.host.text → address ∈ d.addresses.map inetNtoa

/-- The collector knows an item of the service. -/
def Known (lower : List Char → List Char) (d : ServiceDescription) (c : MdnsCollector) : Item → Prop
  | .ptr => c.Holds (.ptr d.instanceName.text)
  | .srv => (c.srv.get? d.instanceName.text).isSome
  | .txt => (c.txt.get? d.instanceName.text).isSome
  | .address a => c.Holds (.address (lower d.host.text) (inetNtoa a))

theorem Known.note {item : Item} (h : d.Known lower c item) (fact : Fact) :
    d.Known lower (c.note fact) item := by
  cases item with
  | ptr => exact MdnsCollector.holds_ptr_note h fact
  | srv => exact MdnsCollector.isSome_srv_note h fact
  | txt => exact MdnsCollector.isSome_txt_note h fact
  | address a => exact MdnsCollector.holds_address_note h fact

/-- A record of the service teaches a fact that is right, and its item is known afterwards. -/
theorem Writes.learn {item : Item} (h : d.Writes data r item)
    (hservice : c.service = lower d.service.text) :
    ∃ fact, c.learn lower data (r.toRecord data) = .ok (c.note fact) ∧ d.Sound lower fact
      ∧ d.Known lower (c.note fact) item := by
  cases item with
  | ptr =>
    obtain ⟨howner, htype, htarget⟩ := h
    have hname : lower (r.toRecord data).name = c.service := by
      rw [hservice, ← howner]
      rfl
    exact ⟨.ptr d.instanceName.text, MdnsCollector.learn_ptr htype hname htarget.readName_eq,
      .inl rfl, MdnsCollector.holds_note (.ptr d.instanceName.text)⟩
  | srv =>
    obtain ⟨howner, htype, hlength, hport, htarget⟩ := h
    have hport' : u16At (r.toRecord data).rdata 4 = some d.port := by
      rw [← hport]
      exact u16At_take_drop (by omega)
    have hname : (r.toRecord data).name = d.instanceName.text := congrArg DomainName.text howner
    have hlearn : c.learn lower data (r.toRecord data)
        = .ok (c.note (.srv d.instanceName.text d.port d.host.text)) := by
      rw [← hname]
      exact MdnsCollector.learn_srv htype (lt_length_of_u16At hport') hport' htarget.readName_eq
    refine ⟨_, hlearn, .inl ⟨rfl, rfl, rfl⟩, ?_⟩
    exact Option.isSome_of_eq_some (MdnsCollector.holds_note (.srv _ _ _))
  | txt =>
    obtain ⟨howner, htype, htxt⟩ := h
    have hname : (r.toRecord data).name = d.instanceName.text := congrArg DomainName.text howner
    have hlearn : c.learn lower data (r.toRecord data)
        = .ok (c.note (.txt d.instanceName.text (parseTxt (r.rdata data)))) := by
      rw [← hname]
      exact MdnsCollector.learn_txt htype
    refine ⟨_, hlearn, .inl htxt.get?_parseTxt, ?_⟩
    exact Option.isSome_of_eq_some (MdnsCollector.holds_note (.txt _ _))
  | address a =>
    obtain ⟨howner, htype, rfl, ha⟩ := h
    have hname : (r.toRecord data).name = d.host.text := congrArg DomainName.text howner
    have hlearn : c.learn lower data (r.toRecord data)
        = .ok (c.note (.address (lower d.host.text) (inetNtoa (r.rdata data)))) := by
      rw [← hname]
      exact MdnsCollector.learn_address htype (d.addresses_length _ ha)
    exact ⟨_, hlearn, fun _ => List.mem_map_of_mem ha, MdnsCollector.holds_note (.address _ _)⟩

/-- A record about other names teaches a fact about other names, or nothing. -/
theorem Ignores.learn (h : d.Ignores lower data r) (hservice : c.service = lower d.service.text) :
    c.learn lower data (r.toRecord data) = .ok c
      ∨ ∃ fact, c.learn lower data (r.toRecord data) = .ok (c.note fact) ∧ d.Sound lower fact := by
  by_cases hptr : r.rtype = 12 ∧ lower r.owner.text = c.service
  · obtain ⟨htype, hname⟩ := hptr
    obtain ⟨target, stop, htarget, hother⟩ :=
      (h.ptr htype).resolve_left fun hne => hne (hname.trans hservice)
    exact .inr ⟨_, MdnsCollector.learn_ptr htype hname htarget.readName_eq, .inr hother⟩
  · by_cases hsrv : r.rtype = 33 ∧ 6 ≤ (r.rdata data).length
    · obtain ⟨htype, hlength⟩ := hsrv
      obtain ⟨howner, target, stop, htarget, hother⟩ := h.srv htype
      obtain ⟨port, hport⟩ := exists_u16At (show 4 + 1 < (r.rdata data).length from hlength)
      exact .inr ⟨_, MdnsCollector.learn_srv htype hlength hport htarget.readName_eq,
        .inr ⟨howner, hother⟩⟩
    · by_cases htxt : r.rtype = 16
      · exact .inr ⟨_, MdnsCollector.learn_txt htxt, .inr (h.txt htxt)⟩
      · by_cases haddress : r.rtype = 1 ∧ (r.rdata data).length = 4
        · obtain ⟨htype, hlength⟩ := haddress
          exact .inr ⟨_, MdnsCollector.learn_address htype hlength,
            fun hhost => absurd hhost (h.address htype)⟩
        · exact .inl (MdnsCollector.learn_nothing hptr hsrv htxt haddress)

/-! ## A whole browse -/

/-- The collector browses for the service, and all it knows is right. -/
structure Coherent (lower : List Char → List Char) (d : ServiceDescription) (c : MdnsCollector) :
    Prop where
  service : c.service = lower d.service.text
  sound : ∀ fact, c.Holds fact → d.Sound lower fact

theorem coherent_fresh : d.Coherent lower (.fresh lower d.service.text) where
  service := congrArg lower d.service.stripDots_text
  sound fact h := by
    cases fact with
    | ptr inst => exact absurd h (Finset.notMem_empty inst)
    | srv | txt => cases h
    | address => cases h

theorem Coherent.note (h : d.Coherent lower c) {fact : Fact} (hfact : d.Sound lower fact) :
    d.Coherent lower (c.note fact) where
  service := (MdnsCollector.service_note fact).trans h.service
  sound fact' hholds := by
    rcases MdnsCollector.holds_of_note hholds with rfl | hknown
    · exact hfact
    · exact h.sound fact' hknown

/-- A record of the service or about other names is taken, and keeps what is known. -/
theorem Coherent.learnStep (h : d.Coherent lower c)
    (hr : (∃ item, d.Writes data r item) ∨ d.Ignores lower data r) :
    (c.learnStep lower data (r.toRecord data)).1 = .ok ()
      ∧ d.Coherent lower (c.learnStep lower data (r.toRecord data)).2
      ∧ ∀ item, d.Known lower c item →
        d.Known lower (c.learnStep lower data (r.toRecord data)).2 item := by
  have hlearn : c.learn lower data (r.toRecord data) = .ok c
      ∨ ∃ fact, c.learn lower data (r.toRecord data) = .ok (c.note fact) ∧ d.Sound lower fact := by
    rcases hr with ⟨item, hwrites⟩ | hignores
    · obtain ⟨fact, hfact, hsound, -⟩ := hwrites.learn h.service
      exact .inr ⟨fact, hfact, hsound⟩
    · exact hignores.learn h.service
  rcases hlearn with hsame | ⟨fact, hfact, hsound⟩
  · rw [MdnsCollector.learnStep, hsame]
    exact ⟨rfl, h, fun _ => id⟩
  · rw [MdnsCollector.learnStep, hfact]
    exact ⟨rfl, h.note hsound, fun _ hknown => hknown.note fact⟩

/-- A message all of whose records are of the service or about other names. -/
def Covers (lower : List Char → List Char) (d : ServiceDescription) (m : Message) : Prop :=
  ∀ r ∈ m.records, (∃ item, d.Writes m.data r item) ∨ d.Ignores lower m.data r

variable {m : Message} {messages : List Message}

theorem Covers.learnStep (hm : d.Covers lower m) {record : Record}
    (hrecord : record ∈ m.records.map (·.toRecord m.data)) (h : d.Coherent lower c) :
    (c.learnStep lower m.data record).1 = .ok ()
      ∧ d.Coherent lower (c.learnStep lower m.data record).2
      ∧ ∀ item, d.Known lower c item → d.Known lower (c.learnStep lower m.data record).2 item := by
  obtain ⟨r, hr, rfl⟩ := List.mem_map.mp hrecord
  exact h.learnStep (hm r hr)

theorem Coherent.add (h : d.Coherent lower c) (hm : d.Covers lower m) :
    (c.add lower m.data).1 = .ok () ∧ d.Coherent lower (c.add lower m.data).2 := by
  rw [MdnsCollector.add_eq, m.records_eq]
  refine forEach_ok (I := d.Coherent lower) (fun c' record hrecord hc' => ?_) h
  obtain ⟨hok, hnext, -⟩ := hm.learnStep hrecord hc'
  exact ⟨hok, hnext⟩

theorem Known.add {item : Item} (hknown : d.Known lower c item) (h : d.Coherent lower c)
    (hm : d.Covers lower m) : d.Known lower (c.add lower m.data).2 item := by
  rw [MdnsCollector.add_eq, m.records_eq]
  refine (forEach_preserves (I := fun c => d.Coherent lower c ∧ d.Known lower c item) ?_
    ⟨h, hknown⟩).2
  rintro c' record hrecord ⟨hc', hknown'⟩
  obtain ⟨-, hnext, hkept⟩ := hm.learnStep hrecord hc'
  exact ⟨hnext, hkept item hknown'⟩

/-- An item is known after a message that has a record of it. -/
theorem Writes.known_add {item : Item} (hr : r ∈ m.records) (hwrites : d.Writes m.data r item)
    (h : d.Coherent lower c) (hm : d.Covers lower m) :
    d.Known lower (c.add lower m.data).2 item := by
  rw [MdnsCollector.add_eq, m.records_eq]
  refine forEach_establishes (I := d.Coherent lower) (P := fun c => d.Known lower c item)
    (fun c' record hrecord hc' => ?_) (fun c' record hrecord hc' => ?_)
    (List.mem_map_of_mem hr) (fun c' hc' => ?_) h
  · obtain ⟨hok, hnext, -⟩ := hm.learnStep hrecord hc'
    exact ⟨hok, hnext⟩
  · exact (hm.learnStep hrecord hc').2.2 item
  · obtain ⟨fact, hfact, -, hknown⟩ := hwrites.learn hc'.service
    rw [MdnsCollector.learnStep, hfact]
    exact hknown

/-- After all messages the collector knows every item that was written, and nothing wrong. -/
theorem collect_advertised (hcovers : ∀ m ∈ messages, d.Covers lower m)
    (hwritten : ∀ item, d.Has item → ∃ m ∈ messages, ∃ r ∈ m.records, d.Writes m.data r item) :
    ∃ c, MdnsCollector.collect lower (.fresh lower d.service.text) (messages.map Message.data)
        = (.ok (), c)
      ∧ d.Coherent lower c ∧ ∀ item, d.Has item → d.Known lower c item := by
  have hadd (c : MdnsCollector) (data : Bytes) (hdata : data ∈ messages.map Message.data)
      (hc : d.Coherent lower c) :
      (c.add lower data).1 = .ok () ∧ d.Coherent lower (c.add lower data).2 := by
    obtain ⟨m, hm, rfl⟩ := List.mem_map.mp hdata
    exact hc.add (hcovers m hm)
  obtain ⟨hok, hcoherent⟩ := forEach_ok hadd coherent_fresh
  refine ⟨_, Prod.ext hok rfl, hcoherent, fun item hitem => ?_⟩
  obtain ⟨m, hm, r, hr, hwrites⟩ := hwritten item hitem
  refine forEach_establishes (P := fun c => d.Known lower c item) hadd
    (fun c data hdata hc hknown => ?_) (List.mem_map_of_mem hm)
    (fun c hc => hwrites.known_add hr hc (hcovers m hm)) coherent_fresh
  obtain ⟨m', hm', rfl⟩ := List.mem_map.mp hdata
  exact hknown.add hc (hcovers m' hm')

/-! ## What is listed -/

/-- A collector that knows all of a service, and nothing wrong about it. -/
structure Complete (lower : List Char → List Char) (d : ServiceDescription) (c : MdnsCollector) :
    Prop where
  coherent : d.Coherent lower c
  known : ∀ item, d.Has item → d.Known lower c item

namespace Complete

variable (h : d.Complete lower c)
include h

theorem get?_srv : c.srv.get? d.instanceName.text = some (d.port, d.host.text) := by
  obtain ⟨⟨port, target⟩, hget⟩ := Option.isSome_iff_exists.mp (h.known .srv trivial)
  rcases h.coherent.sound (.srv d.instanceName.text port target) hget with ⟨-, rfl, rfl⟩ | ⟨hne, -⟩
  · exact hget
  · exact absurd rfl hne

theorem exists_txt : ∃ items, c.txt.get? d.instanceName.text = some items
    ∧ ∀ key, items.get? key = d.txtMap.get? key := by
  obtain ⟨items, hget⟩ := Option.isSome_iff_exists.mp (h.known .txt trivial)
  rcases h.coherent.sound (.txt d.instanceName.text items) hget with hitems | hne
  · exact ⟨items, hget, hitems⟩
  · exact absurd rfl hne

theorem mem_addresses {address : String} :
    address ∈ (c.addresses.get? (lower d.host.text)).getD []
      ↔ address ∈ d.addresses.map inetNtoa := by
  constructor
  · exact fun hmem => h.coherent.sound (.address (lower d.host.text) address) hmem rfl
  · intro hmem
    obtain ⟨a, ha, rfl⟩ := List.mem_map.mp hmem
    exact h.known (.address a) ha

theorem addresses_ne_nil : (c.addresses.get? (lower d.host.text)).getD [] ≠ [] := by
  obtain ⟨a, ha⟩ := List.exists_mem_of_ne_nil _ d.addresses_ne
  exact List.ne_nil_of_mem (h.mem_addresses.mpr (List.mem_map_of_mem ha))

theorem exists_service : ∃ entry, c.service? lower d.instanceName.text = some entry
    ∧ d.Describes entry := by
  obtain ⟨items, hget, hitems⟩ := h.exists_txt
  rw [MdnsCollector.service?, MdnsCollector.lookup_of_get? h.get?_srv]
  refine ⟨_, rfl, rfl, rfl, rfl, ?_, Dict.nodup _, fun address => ?_⟩
  · rw [MdnsCollector.lookup_of_get? hget]
    exact hitems
  · exact Dict.mem_keys_fromKeys.trans h.mem_addresses

/-- Of the instances that are the same when case is ignored, there is only this one. -/
theorem filter_sorted :
    (sorted c.instances).filter (fun inst => lower inst = lower d.instanceName.text)
      = [d.instanceName.text] := by
  have hmem : d.instanceName.text ∈ sorted c.instances := mem_sorted.mpr (h.known .ptr trivial)
  have honly (inst : List Char) (hinst : inst ∈ sorted c.instances) :
      decide (lower inst = lower d.instanceName.text) = (inst == d.instanceName.text) := by
    rw [Bool.eq_iff_iff, decide_eq_true_eq, beq_iff_eq]
    refine ⟨fun hlower => ?_, congrArg lower⟩
    rcases h.coherent.sound (.ptr inst) (mem_sorted.mp hinst) with rfl | ⟨hne, -⟩
    · rfl
    · exact absurd hlower hne
  rw [List.filter_congr honly, List.filter_beq, (nodup_sorted c.instances).count,
    if_pos hmem, List.replicate_one]

/-- The service is listed once. -/
theorem filter_services : ∃ entry, (c.services lower).filter
      (fun entry => lower entry.instanceName = lower d.instanceName.text) = [entry]
    ∧ d.Describes entry := by
  obtain ⟨entry, hentry, hdescribes⟩ := h.exists_service
  refine ⟨entry, ?_, hdescribes⟩
  have hnames (inst : List Char) :
      (c.service? lower inst).filter (fun e => lower e.instanceName = lower d.instanceName.text)
        = if lower inst = lower d.instanceName.text then c.service? lower inst else none := by
    rw [MdnsCollector.service?]
    cases MdnsCollector.lookup lower c.srv inst with
    | none => simp
    | some service => simp [Option.filter]
  have hfiltered : (c.services lower).filter
      (fun entry => lower entry.instanceName = lower d.instanceName.text)
        = ((sorted c.instances).filter fun inst => lower inst = lower d.instanceName.text).filterMap
          (c.service? lower) := by
    rw [MdnsCollector.services, List.filter_filterMap, List.filterMap_filter]
    simp only [hnames, decide_eq_true_eq]
  rw [hfiltered, h.filter_sorted, List.filterMap_cons_some hentry, List.filterMap_nil]

/-- Nothing is asked about the instance or its host. -/
theorem ne_of_mem_missing {question : Question} (hq : question ∈ c.missing lower) :
    lower question.1 ≠ lower d.instanceName.text ∧ lower question.1 ≠ lower d.host.text := by
  rw [MdnsCollector.missing, List.mem_flatMap] at hq
  obtain ⟨inst, hinst, hq⟩ := hq
  obtain ⟨items, hitems, -⟩ := h.exists_txt
  rcases h.coherent.sound (.ptr inst) (mem_sorted.mp hinst) with rfl | hother
  · -- all is known about the instance
    rw [MdnsCollector.questions, MdnsCollector.lookup_of_get? h.get?_srv] at hq
    dsimp only at hq
    rw [MdnsCollector.lookup_of_get? hitems, if_neg h.addresses_ne_nil] at hq
    cases hq
  · rw [MdnsCollector.questions] at hq
    cases hsrv : MdnsCollector.lookup lower c.srv inst with
    | none =>
      rw [hsrv] at hq
      simp only [List.mem_cons, List.not_mem_nil, or_false] at hq
      rcases hq with rfl | rfl <;> exact hother
    | some service =>
      obtain ⟨port, target⟩ := service
      obtain ⟨key, hkey, hget⟩ := MdnsCollector.get?_of_lookup hsrv
      rw [hsrv] at hq
      rcases List.mem_append.mp hq with hq | hq
      · split at hq
        · rw [List.mem_singleton.mp hq]
          exact hother
        · cases hq
      · split at hq
        · rename_i hnone
          rw [List.mem_singleton.mp hq]
          -- the host of another instance, without an address
          constructor
          · rcases h.coherent.sound (.srv key port target) hget with ⟨rfl, -⟩ | ⟨-, htarget⟩
            · exact absurd hkey.symm hother.1
            · exact htarget
          · intro htarget
            dsimp only at htarget
            rw [htarget] at hnone
            exact h.addresses_ne_nil hnone
        · cases hq

end Complete

/-- A service that is written into a list of messages, in any order and any number of times, with
other records of any kind between, is found: every datagram is taken, the service is listed
once, as described, and no question about it is left. -/
theorem services_of_advertised (lower : List Char → List Char) (d : ServiceDescription)
    (messages : List Message) (hcovers : ∀ m ∈ messages, d.Covers lower m)
    (hwritten : ∀ item, d.Has item → ∃ m ∈ messages, ∃ r ∈ m.records, d.Writes m.data r item) :
    ∃ c, MdnsCollector.collect lower (.fresh lower d.service.text) (messages.map Message.data)
        = (.ok (), c)
      ∧ (∃ entry, (c.services lower).filter
            (fun entry => lower entry.instanceName = lower d.instanceName.text) = [entry]
          ∧ d.Describes entry)
      ∧ ∀ question ∈ c.missing lower, lower question.1 ≠ lower d.instanceName.text
        ∧ lower question.1 ≠ lower d.host.text := by
  obtain ⟨c, hcollect, hcoherent, hknown⟩ := collect_advertised hcovers hwritten
  have hcomplete : d.Complete lower c := ⟨hcoherent, hknown⟩
  exact ⟨c, hcollect, hcomplete.filter_services, fun _ hq => hcomplete.ne_of_mem_missing hq⟩

/-! ## The answer of a cooler -/

/-- A cooler with one TXT item and one address. -/
def cooler : ServiceDescription where
  first := ⟨"CFX5".toList, by decide, by decide, by decide⟩
  service := [⟨"_ddmp".toList, by decide, by decide, by decide⟩,
    ⟨"_tcp".toList, by decide, by decide, by decide⟩,
    ⟨"local".toList, by decide, by decide, by decide⟩]
  host := [⟨"MC1".toList, by decide, by decide, by decide⟩,
    ⟨"local".toList, by decide, by decide, by decide⟩]
  port := 13143
  port_lt := by decide
  txt := [⟨"sku".toList, "1".toList, by decide, by decide, by decide, by decide⟩]
  keys_nodup := by decide
  addresses := [[10, 66, 40, 129]]
  addresses_ne := by decide
  addresses_length := by decide

/-- Four records in one datagram. The instance name ends in a pointer to the service name at
offset 12, and the owners of the last three records are pointers to the names at 40 and 65. -/
def answerData : Bytes :=
  [0, 0, 0x84, 0, 0, 0, 0, 1, 0, 0, 0, 3]
    ++ wire cooler.service.raws ++ [0, 12, 0, 1, 0, 0, 0, 120, 0, 7]
    ++ labelBytes (bytesLit "CFX5") ++ [0xC0, 12]
    ++ [0xC0, 40, 0, 33, 0, 1, 0, 0, 0, 120, 0, 17] ++ [0, 0, 0, 0] ++ u16Bytes 13143
    ++ wire cooler.host.raws
    ++ [0xC0, 40, 0, 16, 0, 1, 0, 0, 0, 120, 0, 6] ++ labelBytes (bytesLit "sku=1")
    ++ [0xC0, 65, 0, 1, 0, 1, 0, 0, 0, 120, 0, 4] ++ [10, 66, 40, 129]

theorem spells_service : Spells answerData 12 cooler.service.raws 0 30 := by
  have hdrop : answerData.drop 12 = wire cooler.service.raws ++ answerData.drop 30 := by
    decide +kernel
  exact spells_of_drop (by decide) hdrop

theorem spells_instance : Spells answerData 40 cooler.instanceName.raws 1 47 := by
  have hdrop : answerData.drop 40 = labelBytes (bytesLit "CFX5") ++ answerData.drop 45 := by
    decide +kernel
  have hword : u16At answerData 45 = some 0xC00C := by decide +kernel
  exact .cons (by decide) hdrop (.pointer hword (by decide) spells_service)

theorem spells_host : Spells answerData 65 cooler.host.raws 0 76 := by
  have hdrop : answerData.drop 65 = wire cooler.host.raws ++ answerData.drop 76 := by
    decide +kernel
  exact spells_of_drop (by decide) hdrop

/-- A pointer to the instance name. -/
theorem spells_pointer {offset : ℕ} (hword : u16At answerData offset = some 0xC028) :
    Spells answerData offset cooler.instanceName.raws 2 (offset + 2) :=
  .pointer hword (by decide) spells_instance

/-- The datagram as a message. -/
def answer : Message where
  data := answerData
  questions := 0
  answers := 1
  authorities := 0
  additionals := 3
  body := 12
  records := [⟨cooler.service, 12, 40, 7⟩, ⟨cooler.instanceName, 33, 59, 17⟩,
    ⟨cooler.instanceName, 16, 88, 6⟩, ⟨cooler.host, 1, 106, 4⟩]
  hquestions := by decide +kernel
  hanswers := by decide +kernel
  hauthorities := by decide +kernel
  hadditionals := by decide +kernel
  asked := .nil 12
  listed := by
    refine .cons ⟨0, by decide, spells_service⟩ (by decide +kernel) (by decide +kernel) rfl
      (by decide +kernel) ?_
    refine .cons ⟨2, by decide, spells_pointer (by decide +kernel)⟩ (by decide +kernel)
      (by decide +kernel) rfl (by decide +kernel) ?_
    refine .cons ⟨2, by decide, spells_pointer (by decide +kernel)⟩ (by decide +kernel)
      (by decide +kernel) rfl (by decide +kernel) ?_
    have hword : u16At answerData 94 = some 0xC041 := by decide +kernel
    refine .cons ⟨1, by decide, .pointer hword (by decide) spells_host⟩ (by decide +kernel)
      (by decide +kernel) rfl (by decide +kernel) (.nil 110)
  counted := rfl

theorem writes_ptr : cooler.Writes answerData ⟨cooler.service, 12, 40, 7⟩ .ptr :=
  ⟨rfl, rfl, 1, by decide, spells_instance⟩

theorem writes_srv : cooler.Writes answerData ⟨cooler.instanceName, 33, 59, 17⟩ .srv :=
  ⟨rfl, rfl, by decide, by decide +kernel, 0, by decide, spells_host⟩

theorem writes_txt : cooler.Writes answerData ⟨cooler.instanceName, 16, 88, 6⟩ .txt :=
  ⟨rfl, rfl, ["sku=1".toList], by decide, by decide +kernel, by decide⟩

theorem writes_address :
    cooler.Writes answerData ⟨cooler.host, 1, 106, 4⟩ (.address [10, 66, 40, 129]) :=
  ⟨rfl, rfl, by decide +kernel, by decide⟩

theorem covers_answer : cooler.Covers strLower answer := by
  intro r hr
  simp only [answer, List.mem_cons, List.not_mem_nil, or_false] at hr
  rcases hr with rfl | rfl | rfl | rfl
  · exact .inl ⟨_, writes_ptr⟩
  · exact .inl ⟨_, writes_srv⟩
  · exact .inl ⟨_, writes_txt⟩
  · exact .inl ⟨_, writes_address⟩

theorem writes_answer (item : Item) (hitem : cooler.Has item) :
    ∃ r ∈ answer.records, cooler.Writes answerData r item := by
  cases item with
  | ptr => exact ⟨_, by simp [answer], writes_ptr⟩
  | srv => exact ⟨_, by simp [answer], writes_srv⟩
  | txt => exact ⟨_, by simp [answer], writes_txt⟩
  | address a =>
    have ha : a = [10, 66, 40, 129] := List.mem_singleton.mp hitem
    rw [ha]
    exact ⟨_, by simp [answer], writes_address⟩

theorem services_of_advertised_cooler :
    ∃ c, MdnsCollector.collect strLower (.fresh strLower cooler.service.text) [answerData]
        = (.ok (), c)
      ∧ (∃ entry, (c.services strLower).filter
            (fun entry => strLower entry.instanceName = strLower cooler.instanceName.text) = [entry]
          ∧ cooler.Describes entry)
      ∧ ∀ question ∈ c.missing strLower,
        strLower question.1 ≠ strLower cooler.instanceName.text
          ∧ strLower question.1 ≠ strLower cooler.host.text := by
  refine services_of_advertised strLower cooler [answer] ?_ fun item hitem => ?_
  · rw [List.forall_mem_singleton]
    exact covers_answer
  · exact ⟨answer, List.mem_cons_self, writes_answer item hitem⟩

end ServiceDescription

end Ddmp
