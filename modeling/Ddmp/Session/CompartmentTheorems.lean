import Ddmp.Protocol.RoundTripTheorems
import Ddmp.Session.ArrayWriteTheorems
import Ddmp.Session.RaisesTheorems

/-!
# Writing one compartment

The words of the SET, the range published for the compartment, and the exceptions: a write to
an array raises `StateUnknown` while no item is known, `ValueError` for an index beyond the
items, and `ValueError` for a set-point outside the range.
-/

namespace Ddmp

open Lib Lib.Fallible Lib.LittleEndian Lib.Rounding

namespace Session

/-- The words last published for a topic of the table, none if nothing was. -/
def lastWords (s : Session) (name : String) : List ℤ :=
  (((topicByName.get? name).bind fun t => s.raw.get? t.address).map i32s).getD []

/-- The bounds last published for a compartment: two neighbouring words of `ctemprng`. -/
def publishedRange (s : Session) (i : ℕ) : Option (ℤ × ℤ) :=
  ((s.lastWords "ctemprng")[2 * i]?).bind fun lo =>
    ((s.lastWords "ctemprng")[2 * i + 1]?).map fun hi => (lo, hi)

end Session

/-- The word that a value is written as: the nearest thousandth, the even one on a tie, or the
truth value. -/
def Codec.WritesWord : Codec → Value → ℤ → Prop
  | .boolArray, v, m => ∃ b, Session.coerceBool v = .ok b ∧ m = if b then 1 else 0
  | _, v, m => ∃ q, v.toFloat = .ok (.fin q) ∧ NearestEven (q * 1000) m

/-- A number of degrees between two bounds in thousandths; an infinity or a NaN never is. -/
def PyFloat.Between (lo hi : ℤ) (x : PyFloat) : Prop :=
  ∃ q, x = .fin q ∧ lo ≤ q * 1000 ∧ q * 1000 ≤ hi

/-! ## The range -/

theorem MilliPairArrayCodec.getElem?_pairs (ws : List ℤ) (i : ℕ) :
    (pairs ws)[i]? = (ws[2 * i]?).bind fun lo =>
      (ws[2 * i + 1]?).map fun hi => .tuple [ofMilli lo, ofMilli hi] := by
  induction ws using pairs.induct generalizing i with
  | case1 lo hi rest ih =>
    cases i with
    | zero => rfl
    | succ i =>
      rw [pairs, List.getElem?_cons_succ, ih, show 2 * (i + 1) = 2 * i + 2 by omega]
      rfl
  | case2 ws hshort =>
    rw [pairs]
    · cases ws with
      | nil => rfl
      | cons w ws =>
        cases ws with
        | nil => cases i <;> rfl
        | cons hi rest => exact absurd rfl (hshort w hi rest)
    · exact hshort

/-- `lo <= x <= hi`. -/
theorem PyFloat.between_iff (lo hi : ℤ) (x : PyFloat) :
    x.Between lo hi
      ↔ (PyFloat.fin (lo / 1000)).le x = true ∧ x.le (.fin (hi / 1000)) = true := by
  have hpos : (0 : ℚ) < 1000 := by norm_num
  cases x with
  | fin q =>
    show (∃ r, PyFloat.fin q = .fin r ∧ _) ↔ decide ((lo : ℚ) / 1000 ≤ q) = true
      ∧ decide (q ≤ (hi : ℚ) / 1000) = true
    rw [decide_eq_true_iff, decide_eq_true_iff, div_le_iff₀ hpos, le_div_iff₀ hpos]
    constructor
    · rintro ⟨r, hr, hbounds⟩
      obtain rfl := PyFloat.fin.inj hr
      exact hbounds
    · exact fun h => ⟨q, rfl, h⟩
  | posInf => exact ⟨fun ⟨_, h, _⟩ => (nomatch h), fun ⟨_, h⟩ => (nomatch h)⟩
  | negInf | nan => exact ⟨fun ⟨_, h, _⟩ => (nomatch h), fun ⟨h, _⟩ => (nomatch h)⟩

namespace Session

variable {s : Session}

/-- What a session holds for a topic whose codec raises nothing. -/
theorem Coherent.current_of_decode (hs : s.Coherent) {tp : Topic} (ht : tp ∈ Ddmp.topics)
    {f : Bytes → Value} (hdecode : ∀ p, tp.codec.decode p = .ok (f p)) :
    s.current tp = .ofOption ((s.raw.get? tp.address).map f) := by
  rw [current, hs.stored tp ht]
  exact congrArg (fun f => Value.ofOption (Option.map f _))
    (funext fun p => tp.stored_of_decode (hdecode p))

theorem lastWords_of_mem {tp : Topic} (ht : tp ∈ Ddmp.topics) :
    s.lastWords tp.name = ((s.raw.get? tp.address).map i32s).getD [] := by
  have hrow : topicByName.get? tp.name = some tp := topicByName_eq_some.mpr ⟨ht, rfl⟩
  rw [lastWords, hrow, Option.bind_some]

/-- A known array topic holds the values of the words last published. -/
theorem Coherent.current_eq (hs : s.Coherent) {tp : Topic} (ht : tp ∈ Ddmp.topics)
    {f : List ℤ → List Value} (hdecode : ∀ p, tp.codec.decode p = .ok (.list (f (i32s p))))
    (hnil : f [] = []) :
    (s.current tp).orElse (.list []) = .ok (.list (f (s.lastWords tp.name))) := by
  rw [hs.current_of_decode ht hdecode, lastWords_of_mem ht]
  cases s.raw.get? tp.address with
  | none =>
    rw [Option.map_none, Option.map_none, Option.getD_none, hnil]
    rfl
  | some p =>
    rw [Option.map_some, Option.map_some, Option.getD_some]
    cases f (i32s p) <;> rfl

/-- No pair for the compartment: nothing is checked. -/
theorem checkRange_of_none {i : ℕ} {item : Value} {ps : List Value}
    (hranges : (Value.ofOption (s.values.get? "ctemprng")).orElse (.list []) = .ok (.list ps))
    (hi : ps[i]? = none) : s.checkRange i item = .ok () := by
  have hlen : ¬ i < ps.length := Nat.not_lt.mpr (List.getElem?_eq_none_iff.mp hi)
  rw [checkRange, hranges]
  show (if i < ps.length then _ else _) = _
  rw [if_neg hlen]
  rfl

/-- A pair for the compartment: both ends are compared. -/
theorem checkRange_of_some {i : ℕ} {lo hi : ℤ} {x : PyFloat} {ps : List Value}
    (hranges : (Value.ofOption (s.values.get? "ctemprng")).orElse (.list []) = .ok (.list ps))
    (hget : ps[i]? = some (.tuple [ofMilli lo, ofMilli hi])) :
    ∃ msg, s.checkRange i (.float x)
      = raiseIf (!((PyFloat.fin (lo / 1000)).le x && x.le (.fin (hi / 1000))))
          (.valueError msg) := by
  have hlen : i < ps.length := (List.getElem?_eq_some_iff.mp hget).1
  have hitem : ps.getD i .none = .tuple [ofMilli lo, ofMilli hi] := by
    rw [List.getD_eq_getElem?_getD, hget, Option.getD_some]
  refine ⟨[.lit "set-point ", .val (.float x), .lit " °C outside cooler range ",
    .val (ofMilli lo), .lit "..", .val (ofMilli hi), .lit " °C"], ?_⟩
  have hbounds : (Value.tuple [ofMilli lo, ofMilli hi]).unpackPair = .ok (ofMilli lo, ofMilli hi) :=
    rfl
  have hlo : (ofMilli lo).le (.float x) = .ok ((PyFloat.fin (lo / 1000)).le x) := rfl
  have hhi : Value.le (.float x) (ofMilli hi) = .ok (x.le (.fin (hi / 1000))) := rfl
  simp only [checkRange, hranges, ok_bind, Value.len, Value.iter, if_pos hlen, hitem, hbounds, hlo,
    hhi]
  -- the upper end is compared only if the lower one passes
  cases (PyFloat.fin (lo / 1000)).le x <;> rfl

/-- The range check, for a value that has been coerced. -/
theorem Coherent.checkRange_eq (hs : s.Coherent) (i : ℕ) (x : PyFloat) :
    (s.checkRange i (.float x) = .ok () ∧ ∀ r, s.publishedRange i = some r → x.Between r.1 r.2)
      ∨ (∃ msg, s.checkRange i (.float x) = .error (.valueError msg))
        ∧ ∃ r, s.publishedRange i = some r ∧ ¬ x.Between r.1 r.2 := by
  obtain ⟨t, ht, hname, hcodec⟩ :
      ∃ t ∈ Ddmp.topics, t.name = "ctemprng" ∧ t.codec = .milliPairArray := by decide
  have hranges : (Value.ofOption (s.values.get? "ctemprng")).orElse (.list [])
      = .ok (.list (MilliPairArrayCodec.pairs (s.lastWords "ctemprng"))) := by
    have h := hs.current_eq ht (f := MilliPairArrayCodec.pairs)
      (fun p => by rw [hcodec]; rfl) rfl
    rwa [current, hname] at h
  -- the i-th pair is that of the words 2i and 2i + 1
  have hpair : (MilliPairArrayCodec.pairs (s.lastWords "ctemprng"))[i]?
      = (s.publishedRange i).map fun r => .tuple [ofMilli r.1, ofMilli r.2] := by
    rw [MilliPairArrayCodec.getElem?_pairs, publishedRange, Option.map_bind]
    simp only [Function.comp_def, Option.map_map]
  cases hrange : s.publishedRange i with
  | none =>
    rw [hrange] at hpair
    exact .inl ⟨checkRange_of_none hranges hpair, nofun⟩
  | some r =>
    rw [hrange] at hpair
    obtain ⟨msg, hcheck⟩ := checkRange_of_some (x := x) hranges hpair
    have hbetween := PyFloat.between_iff r.1 r.2 x
    rw [← Bool.and_eq_true] at hbetween
    cases hin : ((PyFloat.fin (r.1 / 1000)).le x && x.le (.fin (r.2 / 1000))) with
    | true =>
      refine .inl ⟨by rw [hcheck, hin]; rfl, ?_⟩
      intro r' hr
      exact Option.some.inj hr ▸ hbetween.mpr hin
    | false =>
      refine .inr ⟨⟨msg, by rw [hcheck, hin]; rfl⟩, r, rfl, fun h => ?_⟩
      exact absurd (hin.symm.trans (hbetween.mp h)) Bool.false_ne_true

/-! ## The word of the written entry -/

theorem ArrayWrite.inI32 {tp : Topic} {value expected item : Value} {i : ℕ}
    {payload published : Bytes} {m : ℤ}
    (h : s.ArrayWrite tp value i payload expected published item m) : InI32 m := by
  have hword : (i32s payload)[i]? = some m := by
    rw [h.payload.words]
    exact getElem?_setWords_self h.payload.inRange m
  exact inI32_of_mem_i32s (List.mem_of_getElem? hword)

/-- The float of a set-point that was written, and the word for it. -/
theorem ArrayWrite.milli {tp : Topic} {value expected item : Value} {i : ℕ}
    {payload published : Bytes} {m : ℤ} (hcodec : tp.codec = .milliArray)
    (h : s.ArrayWrite tp value i payload expected published item m) :
    ∃ q, value.toFloat = .ok (.fin q) ∧ item = .float (.fin q)
      ∧ m = PyFloat.roundHalfEven (q * 1000) := by
  have hcoerced := coerced_of_coerce h.coerced
  have hword := h.word
  rw [hcodec] at hcoerced hword
  obtain ⟨x, hx, rfl⟩ := hcoerced
  cases x with
  | fin q =>
    obtain ⟨n, hn, hpack⟩ := bind_eq_ok.mp hword
    obtain ⟨hfits, hbytes⟩ := packI32_eq_ok.mp hpack
    rw [toMilli_fin] at hn
    exact ⟨q, hx, rfl, (i32Bytes_inj h.inI32 hfits hbytes).trans (Except.ok.inj hn).symm⟩
  | posInf | negInf | nan => exact nomatch hword

theorem ArrayWrite.writesWord {tp : Topic} (hc : tp.codec.IsWritableArray)
    {value expected item : Value} {i : ℕ} {payload published : Bytes} {m : ℤ}
    (h : s.ArrayWrite tp value i payload expected published item m) :
    tp.codec.WritesWord value m := by
  rcases hc with hcodec | hcodec
  · have hcoerced := h.coerced
    have hword := h.word
    rw [coerce, hcodec] at hcoerced
    rw [hcodec] at hword ⊢
    obtain ⟨b, hb, rfl⟩ : ∃ b, coerceBool value = .ok b ∧ item = .bool b := by
      cases hb : coerceBool value with
      | error e =>
        rw [hb] at hcoerced
        exact nomatch hcoerced
      | ok b =>
        rw [hb] at hcoerced
        exact ⟨b, rfl, (Except.ok.inj hcoerced).symm⟩
    obtain ⟨hfits, hbytes⟩ := packI32_eq_ok.mp (show packI32 (if b then 1 else 0) = _ from hword)
    exact ⟨b, hb, i32Bytes_inj h.inI32 hfits hbytes⟩
  · obtain ⟨q, hq, -, rfl⟩ := h.milli hcodec
    rw [hcodec]
    exact ⟨q, hq, PyFloat.nearestEven_roundHalfEven _⟩

/-! ## The exceptions -/

/-- Nothing known: `StateUnknown`. -/
theorem setFrame_of_unknown {ref : TopicRef} {tp : Topic} (href : assertWritable ref = .ok tp)
    (hper : tp.perCompartment = true) (htruth : (s.current tp).truth = .ok false) (value : Value)
    (compartment : Option ℤ) :
    ∃ msg, s.setFrame ref value compartment = .error (.stateUnknown msg) := by
  rw [setFrame, href]
  show ∃ msg, (if tp.perCompartment = true then
    (do raiseIf (!(← (s.current tp).truth)) _; _) else _) = Except.error (PyErr.stateUnknown msg)
  rw [if_pos hper, htruth]
  exact ⟨_, rfl⟩

/-- Some items known: the index is checked, then the value, and what follows raises no
exception of the session. -/
theorem setFrame_of_known {ref : TopicRef} {tp : Topic} (href : assertWritable ref = .ok tp)
    (hper : tp.perCompartment = true) {items : List Value} (hitems : items ≠ [])
    (hcurrent : s.current tp = .list items) (value : Value) (compartment : Option ℤ) :
    ∃ msg, ∃ g : Value → Except PyErr (Frame × WriteExpectation), (∀ item, Converts (g item))
      ∧ s.setFrame ref value compartment = (do
          raiseIf (compartment.getD 0 < 0 ∨ items.length ≤ compartment.getD 0) (.valueError msg)
          let item ← coerce tp value
          (if tp.name = "csettemp" then s.checkRange (compartment.getD 0).toNat item else .ok ())
          g item) := by
  refine ⟨[.lit "compartment ", .val (.int (compartment.getD 0)), .lit " out of range for ",
    .val (.str tp.name), .lit " (", .val (.int items.length), .lit ")"], fun item => do
      let payload ← tp.codec.encode (.list (items.set (compartment.getD 0).toNat item))
      return ({ action := Action.SET.value, address := tp.address, payload },
        { topic := tp, expected := .list (items.set (compartment.getD 0).toNat item),
          tolerance := tolerance tp }), ?_, ?_⟩
  · exact fun item => (tp.codec.converts_encode _).bind fun _ _ => raises_ok _
  · have hknown : Value.ofOption (s.values.get? tp.name) = .list items := hcurrent
    have htruth : (Value.list items).truth = .ok true := congrArg Except.ok (by simpa using hitems)
    simp only [setFrame, href, ok_bind, hper, if_true, hknown, htruth]
    rfl

/-- The writable topics with compartments are arrays. -/
theorem isWritableArray_of_mem {tp : Topic} (ht : tp ∈ Ddmp.topics) (hwritable : tp.writable = true)
    (hper : tp.perCompartment = true) : tp.codec.IsWritableArray := by
  have hname : tp.name ∈ writableNames :=
    List.mem_map.mpr ⟨tp, List.mem_filter.mpr ⟨ht, hwritable⟩, rfl⟩
  rcases writable_codecs tp ht hname with ⟨hscalar, -⟩ | ⟨-, hcodec⟩
  · exact absurd (hper.symm.trans hscalar) (by decide)
  · exact hcodec

/-- What a session holds for an array topic. -/
theorem Coherent.values_eq (hs : s.Coherent) {tp : Topic} (ht : tp ∈ Ddmp.topics)
    (hc : tp.codec.IsWritableArray) :
    s.current tp = .ofOption ((s.raw.get? tp.address).map fun p =>
        .list ((i32s p).map tp.codec.ofWord))
      ∧ s.lastWords tp.name = ((s.raw.get? tp.address).map i32s).getD [] :=
  ⟨hs.current_of_decode ht hc.decode, lastWords_of_mem ht⟩

/-- Either nothing is known of an array topic, or the values of the words last published. -/
theorem Coherent.known_cases (hs : s.Coherent) {tp : Topic} (ht : tp ∈ Ddmp.topics)
    (hc : tp.codec.IsWritableArray) :
    (s.lastWords tp.name = [] ∧ (s.current tp).truth = .ok false)
      ∨ s.lastWords tp.name ≠ []
        ∧ s.current tp = .list ((s.lastWords tp.name).map tp.codec.ofWord) := by
  obtain ⟨hcurrent, hwords⟩ := hs.values_eq ht hc
  rw [hcurrent, hwords]
  cases s.raw.get? tp.address with
  | none => exact .inl ⟨rfl, rfl⟩
  | some p =>
    rw [Option.map_some, Option.map_some, Option.getD_some]
    cases i32s p with
    | nil => exact .inl ⟨rfl, rfl⟩
    | cons w ws => exact .inr ⟨List.cons_ne_nil w ws, rfl⟩

theorem codec_csettemp {tp : Topic} (ht : tp ∈ Ddmp.topics) (hname : tp.name = "csettemp") :
    tp.codec = .milliArray := by
  have hall : ∀ t ∈ Ddmp.topics, t.name = "csettemp" → t.codec = .milliArray := by decide
  exact hall tp ht hname

theorem perCompartment_csettemp {tp : Topic} (ht : tp ∈ Ddmp.topics)
    (hname : tp.name = "csettemp") : tp.perCompartment = true := by
  have hall : ∀ t ∈ Ddmp.topics, t.name = "csettemp" → t.perCompartment = true := by decide
  exact hall tp ht hname

/-- The word of a set-point that was accepted lies between the published bounds. -/
theorem ArrayWrite.word_between (hs : s.Coherent) {tp : Topic} (ht : tp ∈ Ddmp.topics)
    (hname : tp.name = "csettemp") {value expected item : Value} {i : ℕ}
    {payload published : Bytes} {m : ℤ}
    (h : s.ArrayWrite tp value i payload expected published item m) {r : ℤ × ℤ}
    (hr : s.publishedRange i = some r) : r.1 ≤ m ∧ m ≤ r.2 := by
  obtain ⟨q, -, hitem, hm⟩ := h.milli (codec_csettemp ht hname)
  have hcheck : s.checkRange i (.float (.fin q)) = .ok () := hitem ▸ h.range hname
  rcases hs.checkRange_eq i (.fin q) with ⟨-, hbetween⟩ | ⟨⟨msg, herror⟩, -⟩
  · obtain ⟨q', hq', hlo, hhi⟩ := hbetween r hr
    obtain rfl := PyFloat.fin.inj hq'
    have hnearest := (PyFloat.nearestEven_roundHalfEven (q * 1000)).1
    rw [hm]
    exact ⟨hnearest.ge hlo, hnearest.le hhi⟩
  · exact nomatch hcheck.symm.trans herror

/-- An accepted write carries an array write. -/
theorem exists_arrayWrite_of_setFrame (hs : s.Coherent) {tp : Topic} (ht : tp ∈ Ddmp.topics)
    (hc : tp.codec.IsWritableArray) (hper : tp.perCompartment = true) {ref : TopicRef}
    (href : topic ref = .ok tp) {value : Value} {compartment : Option ℤ} {f : Frame}
    {e : WriteExpectation} (h : s.setFrame ref value compartment = .ok (f, e)) :
    ∃ (i : ℕ) (published : Bytes) (item : Value) (m : ℤ), compartment.getD 0 = i
      ∧ e.topic = tp ∧ e.tolerance = tolerance tp
      ∧ s.ArrayWrite tp value i f.payload e.expected published item m := by
  obtain ⟨t, hassert, payload, expected, hw, rfl, rfl⟩ := setFrame_eq_ok.mp h
  obtain rfl : t = tp := Except.ok.inj ((assertWritable_eq_ok.mp hassert).1.symm.trans href)
  obtain ⟨i, hi⟩ := Int.eq_ofNat_of_zero_le (hw.index_nonneg hper)
  obtain ⟨published, item, m, hwrite⟩ := hw.exists_arrayWrite hs ht hc hper hi
  exact ⟨i, published, item, m, hi, rfl, rfl, hwrite⟩

/-- The words of an accepted array write. -/
theorem ArrayWrite.words {tp : Topic} (ht : tp ∈ Ddmp.topics) {value expected item : Value}
    {i : ℕ} {payload published : Bytes} {m : ℤ}
    (h : s.ArrayWrite tp value i payload expected published item m) :
    i < (s.lastWords tp.name).length
      ∧ i32s payload = setWords tp.codec (s.lastWords tp.name) i m
      ∧ payload.length = 4 * (s.lastWords tp.name).length := by
  have hwords : s.lastWords tp.name = i32s published := by
    rw [lastWords_of_mem ht, h.raw, Option.map_some, Option.getD_some]
  rw [hwords]
  refine ⟨h.payload.inRange, h.payload.words, ?_⟩
  rw [h.payload.bytes, length_flatMap_i32Bytes, setWords, List.length_set, List.length_map]

/-- With some items known: `ValueError` for an index or a set-point that is out of range, and
no `StateUnknown`. -/
theorem raises_of_known (hs : s.Coherent) {tp : Topic} {ref : TopicRef}
    (hassert : assertWritable ref = .ok tp) (hper : tp.perCompartment = true) {ws : List ℤ}
    {f : ℤ → Value} (hws : ws ≠ []) (hcurrent : s.current tp = .list (ws.map f)) (value : Value)
    (compartment : Option ℤ) :
    (∀ msg, s.setFrame ref value compartment ≠ .error (.stateUnknown msg))
    ∧ (¬ (0 ≤ compartment.getD 0 ∧ compartment.getD 0 < ws.length) →
        ∃ msg, s.setFrame ref value compartment = .error (.valueError msg))
    ∧ (tp.name = "csettemp" → ∀ i : ℕ, compartment.getD 0 = i → ∀ x r,
        coerce tp value = .ok (.float x) → s.publishedRange i = some r → ¬ x.Between r.1 r.2 →
        ∃ msg, s.setFrame ref value compartment = .error (.valueError msg)) := by
  have hne : ws.map f ≠ [] := by rwa [ne_eq, List.map_eq_nil_iff]
  obtain ⟨msg, g, hg, heq⟩ := setFrame_of_known hassert hper hne hcurrent value compartment
  rw [List.length_map] at heq
  rw [heq]
  refine ⟨?_, ?_, ?_⟩
  · intro msg' hraises
    -- behind the test for a known value only conversions and range checks raise
    have hconverts : Converts (s.setFrame ref value compartment) := by
      rw [heq]
      refine (converts_raiseIf rfl _).bind fun _ _ => ?_
      refine (converts_coerce tp value).bind fun item _ => ?_
      refine Raises.bind ?_ fun _ _ => hg item
      split
      · exact s.converts_checkRange _ item
      · exact raises_ok ()
    exact nomatch hconverts _ (heq.trans hraises)
  · intro hout
    rw [raiseIf, if_pos (by omega)]
    exact ⟨msg, rfl⟩
  · intro hname i hi x r hx hr hnot
    -- the index is looked at before the set-point
    by_cases hout : compartment.getD 0 < 0 ∨ ws.length ≤ compartment.getD 0
    · rw [raiseIf, if_pos hout]
      exact ⟨msg, rfl⟩
    · rw [raiseIf, if_neg hout, hx, hi, Int.toNat_natCast]
      show ∃ msg, ((if tp.name = "csettemp" then s.checkRange i (.float x) else .ok ())
        >>= fun _ => g (.float x)) = Except.error (PyErr.valueError msg)
      rw [if_pos hname]
      rcases hs.checkRange_eq i x with ⟨-, hbetween⟩ | ⟨⟨msg', herror⟩, -⟩
      · exact absurd (hbetween r hr) hnot
      · rw [herror]
        exact ⟨msg', rfl⟩

/-- A write to one compartment: what is sent when it is accepted, and when it raises
`StateUnknown` or `ValueError`. -/
theorem setFrame_compartment (hs : s.Reachable) {tp : Topic} (ht : tp ∈ Ddmp.topics)
    (hwritable : tp.writable = true) (hper : tp.perCompartment = true) {ref : TopicRef}
    (href : topic ref = .ok tp) (value : Value) (compartment : Option ℤ) :
    (∀ f e, s.setFrame ref value compartment = .ok (f, e) →
      ∃ (i : ℕ) (m : ℤ), compartment.getD 0 = i ∧ i < (s.lastWords tp.name).length
        ∧ f.payload.length = 4 * (s.lastWords tp.name).length
        ∧ (∀ j, j ≠ i → (i32s f.payload)[j]? = (s.lastWords tp.name)[j]?.map tp.codec.norm)
        ∧ (i32s f.payload)[i]? = some m ∧ tp.codec.WritesWord value m
        ∧ (tp.name = "csettemp" → ∀ r, s.publishedRange i = some r → r.1 ≤ m ∧ m ≤ r.2))
    ∧ ((∃ msg, s.setFrame ref value compartment = .error (.stateUnknown msg))
        ↔ s.lastWords tp.name = [])
    ∧ (s.lastWords tp.name ≠ [] →
        ¬ (0 ≤ compartment.getD 0 ∧ compartment.getD 0 < (s.lastWords tp.name).length) →
        ∃ msg, s.setFrame ref value compartment = .error (.valueError msg))
    ∧ (tp.name = "csettemp" → s.lastWords tp.name ≠ [] → ∀ i : ℕ, compartment.getD 0 = i →
        ∀ x r, value.toFloat = .ok x → s.publishedRange i = some r → ¬ x.Between r.1 r.2 →
        ∃ msg, s.setFrame ref value compartment = .error (.valueError msg)) := by
  have hco := hs.coherent
  have hc := isWritableArray_of_mem ht hwritable hper
  have hname : tp.name ∈ writableNames :=
    List.mem_map.mpr ⟨tp, List.mem_filter.mpr ⟨ht, hwritable⟩, rfl⟩
  have hassert : assertWritable ref = .ok tp := assertWritable_eq_ok.mpr ⟨href, hname⟩
  refine ⟨?_, ?_⟩
  · intro f e hset
    obtain ⟨i, published, item, m, hi, -, -, hwrite⟩ :=
      exists_arrayWrite_of_setFrame hco ht hc hper href hset
    obtain ⟨hlt, hwords, hlength⟩ := hwrite.words ht
    refine ⟨i, m, hi, hlt, hlength, ?_, ?_, hwrite.writesWord hc, ?_⟩
    · intro j hj
      rw [hwords, getElem?_setWords_ne hj.symm]
    · rw [hwords, getElem?_setWords_self hlt]
    · exact fun hcsettemp r hr => hwrite.word_between hco ht hcsettemp hr
  · rcases hco.known_cases ht hc with ⟨hnil, htruth⟩ | ⟨hne, hcurrent⟩
    · have hunknown := setFrame_of_unknown hassert hper htruth value compartment
      exact ⟨⟨fun _ => hnil, fun _ => hunknown⟩, fun h => absurd hnil h, fun _ h => absurd hnil h⟩
    · obtain ⟨hstate, hindex, hrange⟩ :=
        raises_of_known hco hassert hper hne hcurrent value compartment
      refine ⟨⟨fun ⟨msg, h⟩ => absurd h (hstate msg), fun h => absurd h hne⟩, fun _ => hindex, ?_⟩
      intro hcsettemp _ i hi x r hx hr hnot
      -- a set-point is coerced by float()
      have hcoerce : coerce tp value = .ok (.float x) := by
        rw [coerce, codec_csettemp ht hcsettemp]
        show Except.map Value.float value.toFloat = _
        rw [hx]
        rfl
      exact hrange hcsettemp i hi x r hcoerce hr hnot

/-! ## A set-point that is accepted -/

/-- The row of `csettemp`. -/
def setPointTopic : Topic := ⟨"csettemp", mccc 0x05, .milliArray, true, true⟩

theorem setPointTopic_mem : setPointTopic ∈ Ddmp.topics := by decide

/-- The words of the last publish are of 32 bits. -/
theorem Coherent.inI32_of_mem_lastWords (hs : s.Coherent) {w : ℤ}
    (hw : w ∈ s.lastWords "csettemp") : InI32 w := by
  obtain ⟨-, hwords⟩ := hs.values_eq setPointTopic_mem (.inr rfl)
  rw [show s.lastWords "csettemp" = _ from hwords] at hw
  cases hraw : s.raw.get? setPointTopic.address with
  | none => simp [hraw] at hw
  | some payload =>
    rw [hraw] at hw
    exact inI32_of_mem_i32s hw

/-- Thousandths of a degree within the published bounds are in range. -/
theorem Coherent.checkRange_ofMilli (hs : s.Coherent) {i : ℕ} {n : ℤ}
    (hrange : ∀ r, s.publishedRange i = some r → r.1 ≤ n ∧ n ≤ r.2) :
    s.checkRange i (ofMilli n) = .ok () := by
  rcases hs.checkRange_eq i (.fin (n / 1000)) with ⟨hok, -⟩ | ⟨-, r, hr, hnot⟩
  · exact hok
  · obtain ⟨hlo, hhi⟩ := hrange r hr
    have hmilli : (n : ℚ) / 1000 * 1000 = n := div_mul_cancel₀ (n : ℚ) (by norm_num)
    refine absurd ⟨(n : ℚ) / 1000, rfl, ?_, ?_⟩ hnot
    · rw [hmilli]
      exact_mod_cast hlo
    · rw [hmilli]
      exact_mod_cast hhi

/-- Thousandths of a degree within the published bounds are sent as they are, with the other
set-points. -/
theorem setFrame_setPoint (hs : s.Coherent) {i : ℕ} (hi : i < (s.lastWords "csettemp").length)
    {n : ℤ} (hn : InI32 n) (hrange : ∀ r, s.publishedRange i = some r → r.1 ≤ n ∧ n ≤ r.2)
    (compartment : Option ℤ) (hcompartment : compartment.getD 0 = i) :
    s.setFrame (.name "csettemp") (ofMilli n) compartment
      = .ok (⟨Action.SET.value, mccc 0x05, ((s.lastWords "csettemp").set i n).flatMap i32Bytes⟩,
        { topic := setPointTopic
          expected := .list (((s.lastWords "csettemp").set i n).map ofMilli)
          tolerance := tolerance setPointTopic }) := by
  have hfits : ∀ w ∈ (s.lastWords "csettemp").set i n, InI32 w := by
    intro w hw
    rcases List.mem_or_eq_of_mem_set hw with hw | rfl
    · exact hs.inI32_of_mem_lastWords hw
    · exact hn
  -- there is a set-point, so the current value is the list of all
  obtain ⟨hnil, -⟩ | ⟨hne, hcurrent⟩ := hs.known_cases setPointTopic_mem (.inr rfl)
  · rw [show s.lastWords "csettemp" = [] from hnil] at hi
    exact absurd hi (Nat.not_lt_zero i)
  have htruth : (s.current setPointTopic).truth = .ok true := by
    rw [hcurrent, Value.truth, List.isEmpty_map]
    cases hwords : s.lastWords setPointTopic.name with
    | nil => exact absurd hwords hne
    | cons w ws => rfl
  have hlen : (s.current setPointTopic).len = .ok (s.lastWords "csettemp").length := by
    rw [hcurrent, Value.len, List.length_map]
    rfl
  have hiter : (s.current setPointTopic).iter = .ok ((s.lastWords "csettemp").map ofMilli) := by
    rw [hcurrent]
    rfl
  -- and the list with the new set-point is encoded
  have hindex : (compartment.getD 0).toNat = i := by rw [hcompartment, Int.toNat_natCast]
  have hlist : ((s.lastWords "csettemp").set i n).map ofMilli
      = ((s.lastWords "csettemp").map ofMilli).set (compartment.getD 0).toNat (ofMilli n) := by
    rw [hindex, List.map_set]
  have hencoded : setPointTopic.codec.encode
      (.list (((s.lastWords "csettemp").set i n).map ofMilli))
      = .ok (((s.lastWords "csettemp").set i n).flatMap i32Bytes) :=
    joinItems_map fun w hw => (MilliCodec.encode_ofMilli w).trans (packI32_ok (hfits w hw))
  rw [hlist] at hencoded ⊢
  refine setFrame_eq_ok.mpr ⟨setPointTopic, rfl, _, _,
    .array rfl htruth hlen ?_ hiter rfl ?_ hencoded, rfl, rfl⟩
  · omega
  · rw [hindex]
    exact fun _ => hs.checkRange_ofMilli hrange

/-- Set-points of 2 and 4 degrees, each with a range from -22 to 10. -/
def twoZones : Bytes := bytesLit "EAUAABrQBwAAoA8AAA==\rEAgAABoQqv//ECcAABCq//8QJwAA\r"

theorem exists_twoZones :
    ∃ s : Session, s.Reachable ∧ s.lastWords "csettemp" = [2000, 4000]
      ∧ s.publishedRange 1 = some (-22000, 10000) := by
  obtain ⟨s, hreach, hraw⟩ := exists_reachable subscribeTopics [twoZones]
  have hframes : (reference [twoZones].flatten).frames
      = [⟨0x10, mccc 0x05, [2000, 4000].flatMap i32Bytes⟩,
        ⟨0x10, mccc 0x08, [-22000, 10000, -22000, 10000].flatMap i32Bytes⟩] := by decide +kernel
  rw [hframes] at hraw
  have hsettemp : s.lastWords "csettemp" = [2000, 4000] := by
    show ((s.raw.get? (mccc 0x05)).map i32s).getD [] = _
    rw [hraw]
    decide +kernel
  have hwords : s.lastWords "ctemprng" = [-22000, 10000, -22000, 10000] := by
    show ((s.raw.get? (mccc 0x08)).map i32s).getD [] = _
    rw [hraw]
    decide +kernel
  refine ⟨s, hreach, hsettemp, ?_⟩
  rw [publishedRange, hwords]
  rfl

/-- In a cooler with two zones, 4.5 degrees for the second one are sent with the set-point of the
first one, and 50 degrees are refused. -/
theorem setFrame_compartment_twoZones :
    ∃ s : Session, s.Reachable ∧ s.lastWords "csettemp" = [2000, 4000]
      ∧ s.publishedRange 1 = some (-22000, 10000)
      ∧ (∃ f e, s.setFrame (.name "csettemp") (ofMilli 4500) (some 1) = .ok (f, e)
        ∧ f.payload.length = 8 ∧ (i32s f.payload)[0]? = some 2000
        ∧ ∃ m, (i32s f.payload)[1]? = some m ∧ -22000 ≤ m ∧ m ≤ 10000)
      ∧ ∃ msg, s.setFrame (.name "csettemp") (.int 50) (some 1) = .error (.valueError msg) := by
  obtain ⟨s, hreach, hsettemp, hrange⟩ := exists_twoZones
  have houtside : ¬ (PyFloat.fin 50).Between (-22000) 10000 := by
    rintro ⟨q, hq, -, hhi⟩
    obtain rfl := PyFloat.fin.inj hq
    norm_num at hhi
  have haccepts := setFrame_setPoint hreach.coherent (i := 1) (by rw [hsettemp]; decide)
    (n := 4500) (by decide) (fun r hr => by
      obtain rfl := Option.some.inj (hr.symm.trans hrange)
      decide) (some 1) rfl
  refine ⟨s, hreach, hsettemp, hrange, ⟨_, _, haccepts, ?_⟩, ?_⟩
  · obtain ⟨i, m, hi, -, hlength, hothers, hword, -, hbounds⟩ :=
      (setFrame_compartment hreach setPointTopic_mem rfl rfl rfl (ofMilli 4500) (some 1)).1 _ _
        haccepts
    -- the theorem speaks of the compartment that was asked for
    obtain rfl : i = 1 := (Int.ofNat.inj hi).symm
    have hfirst := hothers 0 (by decide)
    rw [show s.lastWords setPointTopic.name = _ from hsettemp] at hlength hfirst
    exact ⟨hlength, hfirst, m, hword, hbounds rfl _ hrange⟩
  · exact (setFrame_compartment hreach setPointTopic_mem rfl rfl rfl (.int 50) (some 1)).2.2.2 rfl
      (by rw [show s.lastWords setPointTopic.name = _ from hsettemp]; decide) 1 rfl (.fin 50) _ rfl
      hrange houtside

end Session

end Ddmp
