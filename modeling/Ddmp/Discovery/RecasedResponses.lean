import Ddmp.Discovery.Recasing
import Ddmp.Discovery.Written

/-!
# Writing responses in another case

Whatever case is wanted for the names in the records of a well-formed response, there is a response
that has them so: `exists_recased` writes it anew, without compression. A name that is written out
has to fit into the data of its record. Those that DNS allows do: they have at most 255 bytes.
-/

namespace Ddmp

open Lib AsciiCase BigEndian

/-- The names in PTR and SRV records fit into records when they are written out, behind the six
bytes of an SRV record. -/
def ShortTargets (r : Bytes × List Entry) : Prop :=
  ∀ e ∈ r.2, ∀ raws, e.Target r.1 raws → (wire raws).length < 65530

/-! ## Labels -/

/-- How long a name is when it is written depends on the lengths of its labels. -/
theorem length_wire_eq {raws raws' : List Bytes}
    (h : raws'.map List.length = raws.map List.length) :
    (wire raws').length = (wire raws).length := by
  induction raws generalizing raws' with
  | nil => rw [List.map_eq_nil_iff.mp h]
  | cons raw raws ih =>
    obtain ⟨raw', raws', rfl, hraw, hraws⟩ := List.map_eq_cons_iff.mp h
    rw [wire_cons, wire_cons, List.length_append, List.length_append, ih hraws, labelBytes,
      labelBytes, List.length_cons, List.length_cons, hraw]

/-- A name in another case has labels in another case. -/
theorem ValidName.exists_sameLabels {raws : List Bytes} (h : ValidName raws) {name : List Char}
    (hname : asciiLower name = asciiLower (textOf raws)) :
    ∃ raws', ValidName raws' ∧ SameLabels raws' raws ∧ textOf raws' = name
      ∧ (wire raws').length = (wire raws).length := by
  have hdot {c : Char} (hc : c.toLower = Char.toLower '.') : c = '.' :=
    eq_of_toLower (by decide) hc
  obtain ⟨texts, htexts, rfl⟩ := Pieces.exists_of_map_intercalate (fun _ => hdot) hname
  have hdecode : (texts.map Utf8.encode).map Utf8.decodeReplace = texts := by
    rw [List.map_map]
    exact List.map_id'' Utf8.decodeReplace_encode texts
  -- the case of a label does not count for its length
  have hlengths : (texts.map Utf8.encode).map List.length = raws.map List.length := by
    have hlower (text : List Char) :
        (Utf8.encode (text.map Char.toLower)).length = (Utf8.encode text).length :=
      length_encode_eq (asciiLower_asciiLower text)
    calc (texts.map Utf8.encode).map List.length
        = (texts.map (List.map Char.toLower)).map fun text => (Utf8.encode text).length := by
          rw [List.map_map, List.map_map]
          exact List.map_congr_left fun text _ => (hlower text).symm
      _ = ((raws.map Utf8.decodeReplace).map (List.map Char.toLower)).map fun text =>
          (Utf8.encode text).length := by rw [htexts]
      _ = raws.map List.length := by
          rw [List.map_map, List.map_map]
          apply List.map_congr_left
          intro raw hraw
          rw [Function.comp_apply, Function.comp_apply, hlower, h.encode_decode hraw]
  refine ⟨texts.map Utf8.encode, validName_map_encode fun text htext => ?_, ?_, ?_, ?_⟩
  · have hmem : (Utf8.encode text).length ∈ raws.map List.length := by
      rw [← hlengths, List.map_map]
      exact List.mem_map.mpr ⟨text, htext, rfl⟩
    obtain ⟨raw, hraw, heq⟩ := List.mem_map.mp hmem
    rw [← heq]
    exact ⟨(h raw hraw).1, (h raw hraw).2.1⟩
  · have hmap (raws : List Bytes) : raws.map (fun raw => asciiLower (Utf8.decodeReplace raw))
        = (raws.map Utf8.decodeReplace).map (List.map Char.toLower) := by
      rw [List.map_map]
      rfl
    rw [SameLabels, hmap, hmap, hdecode, htexts]
  · rw [textOf, hdecode]
  · exact length_wire_eq hlengths

/-! ## Records -/

/-- A record by its parts: owner, type, the data without the name in it, that name. -/
structure Parts where
  owner : List Bytes
  rtype : ℕ
  front : Bytes
  target : List Bytes

namespace Parts

/-- The record as it is written. -/
def draft (p : Parts) : Draft :=
  ⟨p.owner, p.rtype, if p.rtype = 12 ∨ p.rtype = 33 then p.front ++ wire p.target else p.front⟩

/-- What it teaches. -/
def fact? (lower : List Char → List Char) (service : List Char) (p : Parts) : Option Fact :=
  factOf lower service (textOf p.owner) p.rtype p.front (textOf p.target)

/-- Parts that can be written: the data of a PTR record is a name, that of an SRV record a name
behind six bytes, and neither is too long. -/
structure Valid (p : Parts) : Prop where
  owner : ValidName p.owner
  target : ValidName p.target
  rtype : p.rtype < 65536
  front : p.front.length < 65536
  ptr : p.rtype = 12 → p.front = []
  srv : p.rtype = 33 → p.front.length = 6
  short : p.rtype = 12 ∨ p.rtype = 33 → (wire p.target).length < 65530

variable {p : Parts} {data : Bytes} {e : Entry}

theorem Valid.draft (h : p.Valid) : p.draft.Valid where
  owner := h.owner
  rtype := h.rtype
  length := by
    by_cases htype : p.rtype = 12 ∨ p.rtype = 33
    · rw [Parts.draft, if_pos htype, List.length_append]
      have hshort := h.short htype
      rcases htype with hptr | hsrv
      · rw [h.ptr hptr, List.length_nil]
        omega
      · rw [h.srv hsrv]
        omega
    · rw [Parts.draft, if_neg htype]
      exact h.front
  ptr htype := by
    have hrdata : p.draft.rdata = p.front ++ wire p.target := if_pos (.inl htype)
    exact ⟨p.target, h.target, by rw [hrdata, h.ptr htype, List.nil_append]⟩
  srv htype := ⟨p.front, p.target, h.target, h.srv htype, if_pos (.inr htype)⟩

/-- Where the name of a record stands that is written. -/
theorem Valid.target_of_writtenAs (h : p.Valid) (he : p.draft.WrittenAs data e)
    (htype : p.rtype = 12 ∨ p.rtype = 33) : e.Target data p.target := by
  obtain ⟨rest, hdata⟩ := he.exists_drop
  have hrtype : e.rtype = p.rtype := he.rtype_eq
  have hrdata : p.draft.rdata = p.front ++ wire p.target := if_pos htype
  have hrdlen : e.rdlen = p.front.length + (wire p.target).length := by
    rw [he.rdlen_eq, hrdata, List.length_append]
  rw [hrdata, List.append_assoc] at hdata
  have hat := h.target.nameAt_of_drop (drop_of_drop hdata)
  rw [Nat.add_assoc, ← hrdlen] at hat
  rcases htype with hptr | hsrv
  · rw [h.ptr hptr] at hat
    exact .inl ⟨hrtype.trans hptr, hat⟩
  · rw [h.srv hsrv] at hat
    exact .inr ⟨hrtype.trans hsrv, hat⟩

theorem Valid.front_of_writtenAs (h : p.Valid) (he : p.draft.WrittenAs data e) :
    e.front data = p.front := by
  obtain ⟨rest, hdata⟩ := he.exists_drop
  have hrtype : e.rtype = p.rtype := he.rtype_eq
  unfold Entry.front
  rw [hrtype]
  split
  · rename_i hptr
    exact (h.ptr hptr).symm
  · rename_i hptr
    split
    · rename_i hsrv
      have hrdata : p.draft.rdata = p.front ++ wire p.target := if_pos (.inr hsrv)
      rw [hrdata, List.append_assoc] at hdata
      have hslice := slice_of_drop hdata
      rwa [h.srv hsrv] at hslice
    · rename_i hsrv
      have hrdata : p.draft.rdata = p.front := if_neg fun htype => htype.elim hptr hsrv
      have hslice := slice_of_drop hdata
      rw [← he.rdlen_eq, hrdata] at hslice
      exact hslice

/-- A record that is written teaches what its parts say. -/
theorem Valid.fact?_of_writtenAs (h : p.Valid) (he : p.draft.WrittenAs data e)
    {lower : List Char → List Char} {service : List Char} :
    (e.toRecord data).fact? lower service data = p.fact? lower service := by
  have howner : e.owner = p.owner := he.owner_eq
  have hrtype : e.rtype = p.rtype := he.rtype_eq
  rw [Entry.fact?_toRecord he.fits fun htype => h.target_of_writtenAs he (hrtype ▸ htype),
    h.front_of_writtenAs he, howner, hrtype, fact?]

end Parts

/-- The response with these records, so many of them in each section. -/
def responseOf (answers authorities additionals : ℕ) (ps : List Parts) : Bytes × List Entry :=
  (sections answers authorities additionals (ps.map Parts.draft),
    entriesOf 12 (ps.map Parts.draft))

section responseOf

variable {answers authorities additionals : ℕ} {ps : List Parts}

theorem wellFormed_responseOf (hps : ∀ p ∈ ps, p.Valid)
    (hcount : ps.length = answers + authorities + additionals) (hanswers : answers < 65536)
    (hauthorities : authorities < 65536) (hadditionals : additionals < 65536) :
    WellFormed (responseOf answers authorities additionals ps).1
      (responseOf answers authorities additionals ps).2 := by
  have hvalid : ∀ d ∈ ps.map Parts.draft, d.Valid := by
    rw [List.forall_mem_map]
    exact fun p hp => (hps p hp).draft
  refine wellFormed_sections hvalid ?_ hanswers hauthorities hadditionals
  rw [List.length_map, hcount]

/-- Every entry of the response is that of its record. -/
theorem forall₂_responseOf : List.Forall₂
    (fun p e => p.draft.WrittenAs (responseOf answers authorities additionals ps).1 e) ps
    (responseOf answers authorities additionals ps).2 := by
  have hbody : (sections answers authorities additionals (ps.map Parts.draft)).drop 12
      = (ps.map Parts.draft).flatMap Draft.bytes := rfl
  exact List.forall₂_map_left_iff.mp (forall₂_entriesOf hbody)

theorem taughtBy_responseOf (hps : ∀ p ∈ ps, p.Valid) (lower : List Char → List Char)
    (service : List Char) :
    taughtBy lower service (responseOf answers authorities additionals ps)
      = ps.filterMap (Parts.fact? lower service) := by
  refine Pointwise.filterMap_eq (Pointwise.forall₂_of_mem forall₂_responseOf fun p hp e _ he => ?_)
  exact (hps p hp).fact?_of_writtenAs he

end responseOf

/-! ## Facts in another case -/

/-- The names of a fact are in another case; the target of an SRV record stays. -/
inductive Fact.Respelt : Fact → Fact → Prop
  | ptr {inst inst' : List Char} (h : asciiLower inst' = asciiLower inst) :
      Respelt (.ptr inst) (.ptr inst')
  | srv {name name' target : List Char} {port : ℕ} (h : asciiLower name' = asciiLower name) :
      Respelt (.srv name port target) (.srv name' port target)
  | txt {name name' : List Char} {items : Dict (List Char) (List Char)}
      (h : asciiLower name' = asciiLower name) : Respelt (.txt name items) (.txt name' items)
  | address (host : List Char) (text : String) : Respelt (.address host text) (.address host text)

section respelt

variable {lower : List Char → List Char} {service : List Char}

/-- What a record teaches in another case, it teaches with its names in another case. -/
theorem exists_names_of_respelt {name target : List Char} {rtype : ℕ} {front : Bytes}
    {taught : Option Fact}
    (h : Option.Rel Fact.Respelt (factOf lower service name rtype front target) taught) :
    ∃ name' target', asciiLower name' = asciiLower name ∧ asciiLower target' = asciiLower target
      ∧ factOf lower service name' rtype front target' = taught := by
  cases hfact : factOf lower service name rtype front target with
  | none =>
    rw [hfact] at h
    cases h
    exact ⟨name, target, rfl, rfl, hfact⟩
  | some fact =>
    rw [hfact] at h
    obtain ⟨fact', rfl, hrespelt⟩ : ∃ fact', taught = some fact' ∧ fact.Respelt fact' := by
      cases h with
      | some hrespelt => exact ⟨_, rfl, hrespelt⟩
    unfold factOf at hfact ⊢
    split at hfact
    · rename_i hptr
      split at hfact
      · rename_i hservice
        obtain rfl := Option.some.inj hfact
        cases hrespelt with
        | ptr hinst => exact ⟨name, _, rfl, hinst, by rw [if_pos hptr, if_pos hservice]⟩
      · cases hfact
    · rename_i hptr
      split at hfact
      · rename_i hsrv
        obtain ⟨port, hport, rfl⟩ := Option.map_eq_some_iff.mp hfact
        cases hrespelt with
        | srv hname =>
          exact ⟨_, target, hname, rfl, by rw [if_neg hptr, if_pos hsrv, hport, Option.map_some]⟩
      · rename_i hsrv
        split at hfact
        · rename_i htxt
          obtain rfl := Option.some.inj hfact
          cases hrespelt with
          | txt hname =>
            exact ⟨_, target, hname, rfl, by rw [if_neg hptr, if_neg hsrv, if_pos htxt]⟩
        · rename_i htxt
          split at hfact
          · rename_i haddress
            obtain rfl := Option.some.inj hfact
            cases hrespelt with
            | address =>
              exact ⟨name, target, rfl, rfl, by
                rw [if_neg hptr, if_neg hsrv, if_neg htxt, if_pos haddress]⟩
          · cases hfact

/-- The record whose parts are these is a re-casing of another one. -/
structure Parts.Recases (p : Parts) (data : Bytes) (e : Entry) : Prop where
  valid : p.Valid
  rtype : p.rtype = e.rtype
  owner : SameLabels p.owner e.owner
  front : p.front = e.front data
  target : e.rtype = 12 ∨ e.rtype = 33 → ∃ raws, e.Target data raws ∧ SameLabels p.target raws

theorem Parts.Recases.recased {p : Parts} {data data' : Bytes} {e e' : Entry}
    (h : p.Recases data e) (he' : p.draft.WrittenAs data' e') : e.Recased data data' e' where
  rtype := he'.rtype_eq.trans h.rtype
  owner := by
    rw [he'.owner_eq]
    exact h.owner
  front := (h.valid.front_of_writtenAs he').trans h.front
  target raws' htarget := by
    have hrtype : e'.rtype = p.rtype := he'.rtype_eq
    have htype : p.rtype = 12 ∨ p.rtype = 33 := by
      rw [← hrtype]
      exact htarget.imp And.left And.left
    rw [htarget.unique (h.valid.target_of_writtenAs he' htype)]
    exact h.target (h.rtype ▸ htype)

/-- Parts that differ in the ASCII case of their names only. -/
structure Parts.Recased (p p' : Parts) : Prop where
  rtype : p'.rtype = p.rtype
  owner : SameLabels p'.owner p.owner
  front : p'.front = p.front
  target : SameLabels p'.target p.target

theorem Parts.Recased.recases {p p' : Parts} {data : Bytes} {e : Entry} (h : p.Recased p')
    (hp : p.Valid) (hp' : p'.Valid) (he : p.draft.WrittenAs data e) : p'.Recases data e := by
  have howner : e.owner = p.owner := he.owner_eq
  have hrtype : e.rtype = p.rtype := he.rtype_eq
  refine ⟨hp', h.rtype.trans hrtype.symm, howner ▸ h.owner,
    h.front.trans (hp.front_of_writtenAs he).symm, ?_⟩
  intro htype
  exact ⟨p.target, hp.target_of_writtenAs he (hrtype ▸ htype), h.target⟩

theorem Entry.length_front_le (data : Bytes) (e : Entry) :
    (e.front data).length ≤ max 6 e.rdlen := by
  unfold front
  split
  · exact Nat.zero_le _
  · split
    · exact (List.length_take_le _ _).trans (le_max_left _ _)
    · exact (List.length_take_le _ _).trans (le_max_right _ _)

theorem Entry.Target.length_front {data : Bytes} {e : Entry} {raws : List Bytes}
    (h : e.Target data raws) (hfits : e.offset + e.rdlen ≤ data.length) (hsrv : e.rtype = 33) :
    (e.front data).length = 6 := by
  rcases h with ⟨hptr, -⟩ | ⟨-, hat⟩
  · omega
  · have hlt := hat.lt_stop
    rw [front, if_neg (by omega), if_pos hsrv, slice, List.length_take, List.length_drop]
    omega

/-- Whatever a record is to teach in another case, there are parts that teach it. -/
theorem exists_parts {r : Bytes × List Entry} (hwf : WellFormed r.1 r.2) (hshort : ShortTargets r)
    {e : Entry} (he : e ∈ r.2) {taught : Option Fact}
    (h : Option.Rel Fact.Respelt ((e.toRecord r.1).fact? lower service r.1) taught) :
    ∃ p : Parts, p.Recases r.1 e ∧ p.fact? lower service = taught := by
  obtain ⟨raws, hraws, htarget⟩ : ∃ raws, ValidName raws
      ∧ (e.rtype = 12 ∨ e.rtype = 33 → e.Target r.1 raws) := by
    by_cases htype : e.rtype = 12 ∨ e.rtype = 33
    · obtain ⟨raws, hvalid, htarget⟩ := hwf.exists_target he htype
      exact ⟨raws, hvalid, fun _ => htarget⟩
    · exact ⟨[], fun raw hraw => absurd hraw List.not_mem_nil, fun hname => absurd hname htype⟩
  rw [Entry.fact?_toRecord (hwf.fits e he) htarget] at h
  obtain ⟨name', target', hname', htarget', hfact⟩ := exists_names_of_respelt h
  obtain ⟨body, -, hentries⟩ := hwf.layout
  obtain ⟨hrtype, hrdlen⟩ := hentries.lt_of_mem he
  obtain ⟨owner', howner', hsame, rfl, -⟩ := (hwf.owner e he).exists_sameLabels hname'
  obtain ⟨raws', hraws', hsame', rfl, hlength⟩ := hraws.exists_sameLabels htarget'
  refine ⟨⟨owner', e.rtype, e.front r.1, raws'⟩, ⟨⟨howner', hraws', ?_, ?_, ?_, ?_, ?_⟩, rfl, hsame,
    rfl, fun htype => ⟨raws, htarget htype, hsame'⟩⟩, hfact⟩
  · exact hrtype
  · exact (e.length_front_le r.1).trans_lt (max_lt (by decide) hrdlen)
  · exact fun hptr => if_pos hptr
  · exact fun hsrv => (htarget (.inr hsrv)).length_front (hwf.fits e he) hsrv
  · intro htype
    rw [hlength]
    exact hshort e he raws (htarget htype)

/-! ## Responses -/

/-- Responses that are written from records in different case are re-casings of each other. -/
theorem recased_responseOf {answers authorities additionals : ℕ} {ps ps' : List Parts}
    (hps : ∀ p ∈ ps, p.Valid) (hps' : ∀ p ∈ ps', p.Valid)
    (hrecased : List.Forall₂ Parts.Recased ps ps')
    (hcount : ps'.length = answers + authorities + additionals) (hanswers : answers < 65536)
    (hauthorities : authorities < 65536) (hadditionals : additionals < 65536) :
    Recased (responseOf answers authorities additionals ps)
      (responseOf answers authorities additionals ps') where
  wellFormed := wellFormed_responseOf hps' hcount hanswers hauthorities hadditionals
  entries := by
    have hvalid : List.Forall₂ (fun p p' => p.Recased p' ∧ p.Valid ∧ p'.Valid) ps ps' :=
      Pointwise.forall₂_of_mem hrecased fun p hp p' hp' h => ⟨h, hps p hp, hps' p' hp'⟩
    -- over the records of the one response the parts of the other one are re-casings of its entries
    have hrecases : List.Forall₂
        (fun p' e => p'.Recases (responseOf answers authorities additionals ps).1 e) ps'
        (responseOf answers authorities additionals ps).2 := by
      refine Pointwise.forall₂_join (fun p p' e h he => ?_) hvalid forall₂_responseOf
      exact h.1.recases h.2.1 h.2.2 he
    refine Pointwise.forall₂_join (fun p' e e' h he' => ?_) hrecases forall₂_responseOf
    exact h.recased he'

/-- Whatever a response is to teach in another case, there is a re-casing that teaches it. -/
theorem exists_recased_response {r : Bytes × List Entry} (hwf : WellFormed r.1 r.2)
    (hshort : ShortTargets r) {taught : List Fact}
    (h : List.Forall₂ Fact.Respelt (taughtBy lower service r) taught) :
    ∃ r', Recased r r' ∧ taughtBy lower service r' = taught := by
  have hlift (e : Entry) (he : e ∈ r.2) (o : Option Fact)
      (ho : Option.Rel Fact.Respelt ((e.toRecord r.1).fact? lower service r.1) o) :
      ∃ p : Parts, p.Recases r.1 e ∧ p.fact? lower service = o := exists_parts hwf hshort he ho
  obtain ⟨ps, hps, rfl⟩ := Pointwise.exists_of_forall₂_filterMap hlift h
  obtain ⟨body, ⟨qd, an, ns, ar, -, han, hns, har, hcount, -⟩, -⟩ := hwf.layout
  have hvalid : ∀ p ∈ ps, p.Valid := by
    intro p hp
    obtain ⟨e, -, hrecases⟩ := Pointwise.exists_of_mem hps hp
    exact hrecases.valid
  have hwf' := wellFormed_responseOf hvalid (hps.length_eq.symm.trans hcount) (lt_of_u16At han)
    (lt_of_u16At hns) (lt_of_u16At har)
  refine ⟨responseOf an ns ar ps, ⟨hwf', ?_⟩, taughtBy_responseOf hvalid lower service⟩
  exact Pointwise.forall₂_join (fun _ _ _ hrecases he' => hrecases.recased he') hps.flip
    forall₂_responseOf

/-- Whatever responses are to teach in another case, there are re-casings that teach it. -/
theorem exists_recased {responses : List (Bytes × List Entry)}
    (hwf : ∀ r ∈ responses, WellFormed r.1 r.2) (hshort : ∀ r ∈ responses, ShortTargets r)
    {taught : List Fact} (h : List.Forall₂ Fact.Respelt (received lower service responses) taught) :
    ∃ responses', List.Forall₂ Recased responses responses'
      ∧ received lower service responses' = taught := by
  induction responses generalizing taught with
  | nil =>
    cases h
    exact ⟨[], .nil, rfl⟩
  | cons r responses ih =>
    rw [List.forall_mem_cons] at hwf hshort
    rw [received, List.flatMap_cons] at h
    obtain ⟨first, rest, rfl, hfirst, hrest⟩ := Pointwise.exists_of_forall₂_append h
    obtain ⟨r', hr', rfl⟩ := exists_recased_response hwf.1 hshort.1 hfirst
    obtain ⟨responses', hresponses', rfl⟩ := ih hwf.2 hshort.2 hrest
    exact ⟨r' :: responses', .cons hr' hresponses', List.flatMap_cons⟩

/-- Instances, SRV and TXT records may be spelt independently of each other. -/
theorem exists_respelt (hlower : ∀ name, lower (asciiLower name) = lower name) {facts : List Fact}
    {names : List (List Char)} {srv : List (List Char × ℕ × List Char)}
    {txt : List (List Char × (List Char → Option (List Char)))}
    (hnames : names.map asciiLower = (announced facts).map asciiLower)
    (hsrv : (spelling lower hlower).plainLog srv
      = (spelling lower hlower).plainLog (srvLog lower facts))
    (htxt : (spelling lower hlower).plainLog txt
      = (spelling lower hlower).plainLog (txtLog facts)) :
    ∃ facts', List.Forall₂ Fact.Respelt facts facts' ∧ announced facts' = names
      ∧ srvLog lower facts' = srv ∧ txtLog facts' = txt := by
  induction facts generalizing names srv txt with
  | nil =>
    obtain rfl := List.map_eq_nil_iff.mp hnames
    obtain rfl := List.map_eq_nil_iff.mp hsrv
    obtain rfl := List.map_eq_nil_iff.mp htxt
    exact ⟨[], .nil, rfl, rfl, rfl⟩
  | cons fact facts ih =>
    cases fact with
    | ptr inst =>
      obtain ⟨inst', names, rfl, hinst, hnames⟩ := List.map_eq_cons_iff.mp hnames
      obtain ⟨facts', hfacts', rfl, rfl, rfl⟩ := ih hnames hsrv htxt
      exact ⟨.ptr inst' :: facts', .cons (.ptr hinst) hfacts', rfl, rfl, rfl⟩
    | srv name port target =>
      obtain ⟨⟨name', record⟩, srv, rfl, hentry, hrest⟩ := List.map_eq_cons_iff.mp hsrv
      obtain ⟨hname, rfl⟩ := Prod.mk.inj hentry
      obtain ⟨facts', hfacts', rfl, rfl, rfl⟩ := ih hnames hrest htxt
      exact ⟨.srv name' port target :: facts', .cons (.srv hname) hfacts', rfl, rfl, rfl⟩
    | txt name items =>
      obtain ⟨⟨name', record⟩, txt, rfl, hentry, hrest⟩ := List.map_eq_cons_iff.mp htxt
      obtain ⟨hname, rfl⟩ := Prod.mk.inj hentry
      obtain ⟨facts', hfacts', rfl, rfl, rfl⟩ := ih hnames hsrv hrest
      exact ⟨.txt name' items :: facts', .cons (.txt hname) hfacts', rfl, rfl, rfl⟩
    | address host text =>
      obtain ⟨facts', hfacts', rfl, rfl, rfl⟩ := ih hnames hsrv htxt
      exact ⟨.address host text :: facts', .cons (.address host text) hfacts', rfl, rfl, rfl⟩

end respelt

end Ddmp
