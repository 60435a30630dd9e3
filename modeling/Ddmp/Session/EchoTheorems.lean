import Ddmp.Session.CompartmentTheorems
import Ddmp.Session.ConfirmTheorems

/-!
# The echo of a write

The cooler publishes what it has stored. The payload of the SET itself confirms the write, and
so does a set-point rounded to 0.1 °C: the expectation keeps the value that was asked for, the
SET carries it rounded to thousandths, and the cooler rounds again. The two errors together
stay within the tolerance.
-/

namespace Ddmp

open Lib Lib.Fallible Lib.LittleEndian Lib.Pointwise Lib.Rounding

/-! ## Decoded values are close to themselves -/

/-- Close to itself, whatever the tolerance. -/
def Value.SelfClose (v : Value) : Prop := ∀ tol : ℚ, 0 ≤ tol → close v v tol = true

theorem PyFloat.within_self {tol : ℚ} (h : 0 ≤ tol) (q : ℚ) :
    (fin q).within tol (fin q) = true := by
  rw [within, sub_self, abs_zero]
  exact decide_eq_true h

theorem Value.selfClose_bool (b : Bool) : SelfClose (.bool b) :=
  fun tol _ => (close_bool b b tol).mpr rfl

theorem Value.selfClose_int (n : ℤ) : SelfClose (.int n) := fun _ h => PyFloat.within_self h n

theorem Value.selfClose_enum (m : EnumMember) : SelfClose (.enum m) :=
  fun _ h => PyFloat.within_self h m.value

theorem Value.selfClose_ofMilli (n : ℤ) : SelfClose (ofMilli n) :=
  fun _ h => PyFloat.within_self h (n / 1000)

theorem Value.selfClose_str (s : String) : SelfClose (.str s) := fun _ _ => beq_self_eq_true s

theorem closeItems_self {xs : List Value} (h : ∀ x ∈ xs, x.SelfClose) {tol : ℚ} (htol : 0 ≤ tol) :
    closeItems xs xs tol = true :=
  (closeItems_iff xs xs tol).mpr (List.forall₂_same.mpr fun x hx => h x hx tol htol)

theorem Value.selfClose_list {xs : List Value} (h : ∀ x ∈ xs, x.SelfClose) : SelfClose (.list xs) :=
  fun _ htol => closeItems_self h htol

theorem Value.selfClose_map {α : Type} {f : α → Value} (h : ∀ a, (f a).SelfClose) (l : List α) :
    SelfClose (.list (l.map f)) := by
  refine Value.selfClose_list ?_
  intro x hx
  obtain ⟨a, -, rfl⟩ := List.mem_map.mp hx
  exact h a

theorem Value.selfClose_range (r : ℤ × ℤ) : SelfClose (.tuple [ofMilli r.1, ofMilli r.2]) := by
  intro tol htol
  refine closeItems_self ?_ htol
  simp only [List.forall_mem_cons, Value.selfClose_ofMilli, true_and]
  exact fun _ h => absurd h List.not_mem_nil

/-- What a codec decodes to has no NaN or infinity in it. -/
theorem Codec.Decoded.selfClose {c : Codec} {v : Value} (h : c.Decoded v) : v.SelfClose := by
  cases h with
  | @int32 n => exact Value.selfClose_int n
  | bool b => exact Value.selfClose_bool b
  | @milli n => exact Value.selfClose_ofMilli n
  | @enum cls n =>
    cases cls.ofValue? n with
    | some m => exact Value.selfClose_enum m
    | none => exact Value.selfClose_int n
  | str | mac6 => exact Value.selfClose_str _
  | int32Array => exact Value.selfClose_map Value.selfClose_int _
  | boolArray => exact Value.selfClose_map (fun n => Value.selfClose_bool _) _
  | milliArray => exact Value.selfClose_map Value.selfClose_ofMilli _
  | u16Array => exact Value.selfClose_map (fun n => Value.selfClose_int _) _
  | milliPairArray => exact Value.selfClose_map Value.selfClose_range _

/-! ## Set-points in thousandths -/

/-- A number of degrees in thousandths. -/
def Value.thousandths (v : Value) : ℚ :=
  match v.toFloat with
  | .ok (.fin q) => q * 1000
  | _ => 0

/-- A number of thousandths in degrees. -/
def ofThousandths (x : ℚ) : Value := .float (.fin (x / 1000))

/-- What a set-point write asks for, in thousandths: the words last published, with the value
in place of one of them. -/
def Session.requested (s : Session) (value : Value) (compartment : Option ℤ) : List ℚ :=
  ((s.lastWords "csettemp").map fun n : ℤ => (n : ℚ)).set (compartment.getD 0).toNat
    value.thousandths

/-- Published words are close to the expected set-points if none is more than 51 thousandths
away. -/
theorem close_setPoints (ws : List ℤ) (xs : List ℚ) :
    close (.list (ws.map ofMilli)) (.list (xs.map ofThousandths)) (51 / 1000) = true
      ↔ List.Forall₂ (fun (w : ℤ) (x : ℚ) => |x - w| ≤ 51) ws xs := by
  have hitem : ∀ (x : ℚ) (w : ℤ),
      close (ofMilli w) (ofThousandths x) (51 / 1000) = true ↔ |x - w| ≤ 51 := by
    intro x w
    show decide (|(w : ℚ) / 1000 - x / 1000| ≤ 51 / 1000) = true ↔ _
    have hpos : (0 : ℚ) < 1000 := by norm_num
    rw [decide_eq_true_iff, abs_sub_comm, ← sub_div, abs_div, abs_of_pos hpos,
      div_le_div_iff_of_pos_right hpos]
  show closeItems (ws.map ofMilli) (xs.map ofThousandths) (51 / 1000) = true ↔ _
  rw [closeItems_iff, List.forall₂_map_left_iff, List.forall₂_map_right_iff]
  simp only [hitem]

namespace Session

variable {s : Session} {tp : Topic} {value expected item : Value} {payload published : Bytes}
  {compartment : Option ℤ} {i : ℕ} {m : ℤ}

/-- The expected set-points are those asked for. -/
theorem ArrayWrite.expected_eq (ht : tp ∈ Ddmp.topics) (hname : tp.name = "csettemp")
    (hi : compartment.getD 0 = i)
    (h : s.ArrayWrite tp value i payload expected published item m) :
    expected = .list ((s.requested value compartment).map ofThousandths) := by
  have hcodec := codec_csettemp ht hname
  obtain ⟨q, hq, hitem, -⟩ := h.milli hcodec
  have hwords : s.lastWords "csettemp" = i32s published := by
    rw [← hname, lastWords_of_mem ht, h.raw, Option.map_some, Option.getD_some]
  have hthousandths : ofThousandths value.thousandths = item := by
    rw [hitem, Value.thousandths, hq, ofThousandths]
    simp
  rw [h.expected, hcodec, requested, hwords, hi, Int.toNat_natCast, List.map_set, List.map_map,
    hthousandths]
  rfl

/-- The words sent are those asked for, rounded. -/
theorem ArrayWrite.nearest (ht : tp ∈ Ddmp.topics) (hname : tp.name = "csettemp")
    (hi : compartment.getD 0 = i)
    (h : s.ArrayWrite tp value i payload expected published item m) :
    List.Forall₂ (fun (n : ℤ) (x : ℚ) => Nearest x n) (i32s payload)
      (s.requested value compartment) := by
  have hcodec := codec_csettemp ht hname
  obtain ⟨q, hq, -, rfl⟩ := h.milli hcodec
  have hthousandths : value.thousandths = q * 1000 := by rw [Value.thousandths, hq]
  rw [(h.words ht).2.1, requested, setWords, hcodec, hname, hi,
    Int.toNat_natCast, hthousandths]
  exact forall₂_set (R := fun (n : ℤ) (x : ℚ) => Nearest x n) (fun n _ => nearest_intCast n) i
    (PyFloat.nearestEven_roundHalfEven _).1

/-! ## The payload of the SET itself -/

theorem tolerance_nonneg (tp : Topic) : 0 ≤ tolerance tp := by
  unfold tolerance
  split <;> norm_num

theorem tolerance_milliArray (hcodec : tp.codec = .milliArray) : tolerance tp = 51 / 1000 := by
  rw [tolerance, hcodec]
  rfl

/-- The truth values of a SET decode to the expected ones. -/
theorem ArrayWrite.stored_boolArray (hcodec : tp.codec = .boolArray)
    (h : s.ArrayWrite tp value i payload expected published item m) :
    tp.codec.decode payload = .ok expected := by
  have hc : tp.codec.IsWritableArray := .inl hcodec
  have hnorm : tp.codec.ofWord ∘ tp.codec.norm = tp.codec.ofWord := funext hc.ofWord_norm
  have hitem : tp.codec.ofWord m = item := by
    have hcoerced := coerced_of_coerce h.coerced
    have hword := h.word
    rw [hcodec] at hcoerced hword ⊢
    obtain ⟨b, rfl⟩ := hcoerced
    obtain ⟨hfits, hbytes⟩ := packI32_eq_ok.mp (show packI32 (if b then 1 else 0) = _ from hword)
    rw [i32Bytes_inj h.inI32 hfits hbytes]
    cases b <;> rfl
  rw [hc.decode, h.payload.words, setWords, List.map_set, List.map_map, hnorm, hitem, h.expected]

/-- An accepted write for a topic of the table expects what its own payload is stored as. -/
theorem Writes.close_stored (hs : s.Coherent) (ht : tp ∈ Ddmp.topics)
    (hname : tp.name ∈ writableNames) (h : s.Writes tp value compartment payload expected) :
    close (tp.stored payload) expected (tolerance tp) = true := by
  have hdecoded : tp.codec.decode payload = .ok expected →
      close (tp.stored payload) expected (tolerance tp) = true := by
    intro hdecode
    rw [tp.stored_of_decode hdecode]
    exact (Codec.decoded_of_decode hdecode).selfClose _ (tolerance_nonneg tp)
  cases hper : tp.perCompartment with
  | false =>
    cases h with
    | array harray => exact absurd (hper.symm.trans harray) (by decide)
    | scalar _ _ _ _ hdecode => exact hdecoded hdecode
  | true =>
    have hrow : ∀ t ∈ Ddmp.topics, t.name ∈ writableNames → t.perCompartment = true →
        t.codec = .boolArray ∨ t.codec = .milliArray ∧ t.name = "csettemp" := by decide
    have hc : tp.codec.IsWritableArray := (hrow tp ht hname hper).imp id And.left
    obtain ⟨i, hi⟩ := Int.eq_ofNat_of_zero_le (h.index_nonneg hper)
    obtain ⟨published, item, m, hwrite⟩ := h.exists_arrayWrite hs ht hc hper hi
    rcases hrow tp ht hname hper with hcodec | ⟨hcodec, hsettemp⟩
    · exact hdecoded (hwrite.stored_boolArray hcodec)
    · rw [tp.stored_of_decode (hc.decode payload), tolerance_milliArray hcodec, hcodec,
        hwrite.expected_eq ht hsettemp hi]
      refine (close_setPoints _ _).mpr ((hwrite.nearest ht hsettemp hi).imp fun n x hnear => ?_)
      exact le_trans hnear (by norm_num)

/-- A write depends on the name, the codec and the kind of its topic only. -/
theorem Writes.congr {t u : Topic} (hname : u.name = t.name) (hcodec : u.codec = t.codec)
    (hper : u.perCompartment = t.perCompartment)
    (h : s.Writes t value compartment payload expected) :
    s.Writes u value compartment payload expected := by
  obtain ⟨name, address, codec, writable, perCompartment⟩ := u
  dsimp only at hname hcodec hper
  subst hname hcodec hper
  cases h with
  | array hper hknown hlen hrange hiter hcoerce hcheck hencode =>
    exact .array hper hknown hlen hrange hiter hcoerce hcheck hencode
  | scalar hper hindex hcoerce hencode hdecode => exact .scalar hper hindex hcoerce hencode hdecode

end Session

/-- What the cooler may publish for a word sent: the word, or a multiple of 0.1 °C next to
it. -/
def Echoed (sent published : ℤ) : Prop :=
  published = sent ∨ NearestMultiple 100 sent published

/-- The two roundings together stay within the tolerance. -/
theorem Echoed.near {n w : ℤ} {x : ℚ} (h : Echoed n w) (hnear : Nearest x n) :
    |x - w| ≤ 51 := by
  rcases h with rfl | ⟨-, hmultiple⟩
  · exact le_trans hnear (by norm_num)
  · have habs : |(n : ℚ) - w| ≤ 50 := by
      have hint : |n - w| ≤ 50 := by omega
      exact_mod_cast hint
    have hround : |x - n| ≤ 1 / 2 := hnear
    calc |x - w| ≤ |x - n| + |(n : ℚ) - w| := abs_sub_le x n w
      _ ≤ 51 := by linarith

/-- An accepted write is confirmed by a PUBLISH of its own payload and, for a set-point, of
the payload rounded to 0.1 °C. -/
theorem WriteExpectation.matches_echo {s : Session} (hs : s.Reachable) {ref : TopicRef}
    (href : ref.Registered) {value : Value} {compartment : Option ℤ} {f : Frame}
    {e : WriteExpectation} (hset : s.setFrame ref value compartment = .ok (f, e))
    (observed : Value) {later after : Session} {g : Frame} {event : Event}
    (hevent : later.onFrame g = .ok (event, after)) (hpub : g.IsPublish)
    (haddr : g.address = f.address) :
    (g.payload = f.payload → ({ e with observed }.matches event).1 = some true)
    ∧ (e.topic ∈ topics → e.topic.name = "csettemp" →
        List.Forall₂ Echoed (i32s f.payload) (i32s g.payload) →
        ({ e with observed }.matches event).1 = some true) := by
  obtain ⟨t, hwritable, payload, expected, hw, rfl, rfl⟩ := Session.setFrame_eq_ok.mp hset
  obtain ⟨hresolve, hname⟩ := assertWritable_eq_ok.mp hwritable
  have ht : t.Registered := href.topic hresolve
  rw [Session.onFrame_eq, Except.ok.injEq, Prod.mk.injEq] at hevent
  rw [← hevent.1, matches_eventOf ht]
  dsimp only at haddr ⊢
  refine ⟨fun hpayload => ⟨hpub, haddr, ?_⟩, fun hmem hsettemp hecho => ⟨hpub, haddr, ?_⟩⟩
  -- the payload itself decodes to what is expected
  · rw [hpayload]
    cases hper : t.perCompartment with
    | true =>
      obtain ⟨u, hu, huname, huper, hucodec⟩ := ht.byName hper
      have hclose := (hw.congr huname hucodec (huper.trans hper.symm)).close_stored hs.coherent hu
        (huname ▸ hname)
      rwa [Topic.stored, Session.tolerance, hucodec] at hclose
    | false =>
      cases hw with
      | array harray => exact absurd (hper.symm.trans harray) (by decide)
      | scalar _ _ _ _ hdecode =>
        rw [t.stored_of_decode hdecode]
        exact (Codec.decoded_of_decode hdecode).selfClose _ (Session.tolerance_nonneg t)
  -- word by word: the echo is near the word sent, and that near what is expected
  · have hcodec := Session.codec_csettemp hmem hsettemp
    have hc : t.codec.IsWritableArray := .inr hcodec
    have hper : t.perCompartment = true := Session.perCompartment_csettemp hmem hsettemp
    obtain ⟨i, hi⟩ := Int.eq_ofNat_of_zero_le (hw.index_nonneg hper)
    obtain ⟨published, item, m, hwrite⟩ :=
      hw.exists_arrayWrite hs.coherent hmem hc hper hi
    rw [t.stored_of_decode (hc.decode g.payload), Session.tolerance_milliArray hcodec, hcodec,
      hwrite.expected_eq hmem hsettemp hi]
    exact (close_setPoints _ _).mpr (forall₂_join (fun _ _ _ hecho hnear => hecho.near hnear) hecho
      (hwrite.nearest hmem hsettemp hi))

/-- Switching the cooler on is confirmed by its echo; 4.46 degrees for the second zone are confirmed
by the echo too, and by 4.5 degrees. -/
theorem WriteExpectation.matches_echo_twoZones :
    (coolerOn.matches (eventOf ⟨0x10, mccc 0x0B, i32Bytes 1⟩)).1 = some true
      ∧ ∃ (s : Session) (f : Frame) (e : WriteExpectation),
        s.setFrame (.name "csettemp") (ofMilli 4460) (some 1) = .ok (f, e)
        ∧ i32s f.payload = [2000, 4460]
        ∧ (e.matches (eventOf ⟨0x10, f.address, f.payload⟩)).1 = some true
        ∧ (e.matches (eventOf ⟨0x10, f.address, [2000, 4500].flatMap i32Bytes⟩)).1 = some true := by
  have hpub (address : Address) (payload : Bytes) : Frame.IsPublish ⟨0x10, address, payload⟩ := rfl
  refine ⟨?_, ?_⟩
  · have hfresh : Session.Reachable {} := ⟨_, [], [], rfl⟩
    have href : TopicRef.Registered (.name "coolerpow") := trivial
    exact (matches_echo hfresh href setFrame_coolerOn .none (Session.onFrame_eq {} _)
      (hpub _ _) rfl).1 rfl
  · obtain ⟨s, hreach, hsettemp, hrange⟩ := Session.exists_twoZones
    have hset := Session.setFrame_setPoint hreach.coherent (i := 1) (by rw [hsettemp]; decide)
      (n := 4460) (by decide) (fun r hr => by
        obtain rfl := Option.some.inj (hr.symm.trans hrange)
        decide) (some 1) rfl
    rw [hsettemp] at hset
    have hwords {ns : List ℤ} (h : ∀ n ∈ ns, InI32 n) : i32s (ns.flatMap i32Bytes) = ns :=
      i32s_flatMap h
    have hsent : i32s ([2000, 4460].flatMap i32Bytes) = [2000, 4460] := hwords (by decide)
    have href : TopicRef.Registered (.name "csettemp") := trivial
    have hecho := fun payload => matches_echo hreach href hset .none
      (Session.onFrame_eq {} ⟨0x10, mccc 0x05, payload⟩) (hpub _ _) rfl
    refine ⟨s, _, _, hset, hsent, (hecho _).1 rfl, (hecho _).2 (by decide) rfl ?_⟩
    show List.Forall₂ Echoed (i32s ([2000, 4460].flatMap i32Bytes)) _
    -- the first word is the same, the second on the grid and 40 thousandths away
    rw [hsent, hwords (by decide)]
    exact .cons (.inl rfl) (.cons (.inr ⟨by decide, by decide⟩) .nil)

end Ddmp
