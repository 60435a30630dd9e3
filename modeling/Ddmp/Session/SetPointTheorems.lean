import Ddmp.Session.EchoTheorems

/-!
# The old set-point, published first

The cooler answers a SET by publishing the old set-points before the ones it has stored. The
tolerance is a little more than half of the 0.1 °C to which the cooler rounds, so near the
middle between two multiples both of them confirm the write: `confirmsOnlyStored_iff` shows
that this is exactly when set-points that were not stored are taken for the answer.
-/

namespace Ddmp

open Lib Lib.Fallible Lib.LittleEndian Lib.Pointwise Lib.Rounding

/-- Whatever the cooler stores for the words of the SET, rounding each to a multiple of 0.1 °C,
no other array of such multiples confirms the write. -/
def WriteExpectation.ConfirmsOnlyStored (e : WriteExpectation) (f : Frame) : Prop :=
  ∀ stored : List ℤ, List.Forall₂ (NearestMultiple 100) (i32s f.payload) stored →
    ∀ g : Frame, g.IsPublish → g.address = f.address → (∀ w ∈ i32s g.payload, 100 ∣ w) →
      i32s g.payload ≠ stored → ∀ (observed : Value) (later after : Session) (event : Event),
        later.onFrame g = .ok (event, after) → ({ e with observed }.matches event).1 = none

/-- A number of thousandths at most one away from the middle between two multiples of 100. -/
def NearMiddle (x : ℚ) : Prop := ∃ k : ℤ, 100 * k + 49 ≤ x ∧ x ≤ 100 * k + 51

theorem nearMiddle_iff (x : ℚ) :
    NearMiddle x ↔ ∃ a b : ℤ, 100 ∣ a ∧ 100 ∣ b ∧ a ≠ b ∧ |x - a| ≤ 51 ∧ |x - b| ≤ 51 := by
  rw [exists_two_multiples_iff (by norm_num) (by norm_num)]
  refine exists_congr fun k => ?_
  push_cast
  constructor
  · rintro ⟨hlo, hhi⟩
    exact ⟨by linarith, by linarith⟩
  · rintro ⟨hlo, hhi⟩
    exact ⟨by linarith, by linarith⟩

/-- A PUBLISH either confirms a write or tells nothing. -/
theorem matches_publish (e : WriteExpectation) {g : Frame} (hpub : g.IsPublish) :
    (e.matches (eventOf g)).1 = none ∨ (e.matches (eventOf g)).1 = some true := by
  have hpublish : ∀ address topic value raw,
      (e.matches (.publish address topic value raw)).1 = none
        ∨ (e.matches (.publish address topic value raw)).1 = some true := by
    intro address topic value raw
    rw [WriteExpectation.matches]
    split
    · exact .inl rfl
    · dsimp only
      split
      · exact .inr rfl
      · exact .inl rfl
  rw [eventOf, if_pos hpub]
  cases topicByAddress.get? g.address <;> exact hpublish _ _ _ _

/-- An accepted set-point write: the words sent round those asked for, and a PUBLISH confirms
it if it has no word more than 51 thousandths away from what was asked for. -/
theorem setPoint_spec {s : Session} (hs : s.Reachable) {tp : Topic} (ht : tp ∈ topics)
    (hname : tp.name = "csettemp") {ref : TopicRef} (href : topic ref = .ok tp) {value : Value}
    {compartment : Option ℤ} {f : Frame} {e : WriteExpectation}
    (hset : s.setFrame ref value compartment = .ok (f, e)) :
    List.Forall₂ (fun (n : ℤ) (x : ℚ) => Nearest x n) (i32s f.payload)
        (s.requested value compartment)
      ∧ ∀ (observed : Value) (g : Frame), g.IsPublish → g.address = f.address →
        (({ e with observed }.matches (eventOf g)).1 = some true
          ↔ List.Forall₂ (fun (w : ℤ) (x : ℚ) => |x - w| ≤ 51) (i32s g.payload)
            (s.requested value compartment)) := by
  have hcodec := Session.codec_csettemp ht hname
  have hc : tp.codec.IsWritableArray := .inr hcodec
  have hper : tp.perCompartment = true := Session.perCompartment_csettemp ht hname
  have haddress : f.address = tp.address := by
    obtain ⟨t, hassert, _, _, -, rfl, -⟩ := Session.setFrame_eq_ok.mp hset
    obtain rfl : t = tp := Except.ok.inj ((assertWritable_eq_ok.mp hassert).1.symm.trans href)
    rfl
  obtain ⟨i, published, item, m, hi, htopic, htolerance, hwrite⟩ :=
    Session.exists_arrayWrite_of_setFrame hs.coherent ht hc hper href hset
  refine ⟨hwrite.nearest ht hname hi, fun observed g hpub haddr => ?_⟩
  have hrow : tp.Registered := ⟨⟨tp, ht, rfl, rfl⟩, fun _ => ⟨tp, ht, rfl, hper, rfl⟩⟩
  rw [matches_eventOf (e := { e with observed }) (htopic ▸ hrow), htopic, htolerance,
    tp.stored_of_decode (hc.decode g.payload), Session.tolerance_milliArray hcodec, hcodec,
    hwrite.expected_eq ht hname hi]
  rw [show Codec.milliArray.ofWord = ofMilli from rfl, close_setPoints]
  exact ⟨fun h => h.2.2, fun h => ⟨hpub, haddr.trans haddress, h⟩⟩

/-- A multiple of 0.1 °C that confirms an entry. -/
def Confirming (w : ℤ) (x : ℚ) : Prop :=
  100 ∣ w ∧ InI32 w ∧ |x - w| ≤ 51 ∧ ∃ n : ℤ, InI32 n ∧ Nearest x n

/-- What the cooler stores for a word, with ties rounded up. -/
theorem exists_confirming {n : ℤ} (hn : InI32 n) {x : ℚ} (hnear : Nearest x n) :
    NearestMultiple 100 n ((n + 50) / 100 * 100) ∧ Confirming ((n + 50) / 100 * 100) x := by
  have hstored := nearestMultiple_floor (g := 100) (by norm_num) (by norm_num) n
  have hclose := Echoed.near (.inr hstored) hnear
  refine ⟨hstored, hstored.1, ?_, hclose, n, hn, hnear⟩
  unfold InI32 at hn ⊢
  omega

theorem exists_stored {ns : List ℤ} {xs : List ℚ} (hfits : ∀ n ∈ ns, InI32 n)
    (h : List.Forall₂ (fun (n : ℤ) (x : ℚ) => Nearest x n) ns xs) :
    ∃ stored, List.Forall₂ (NearestMultiple 100) ns stored
      ∧ List.Forall₂ Confirming stored xs := by
  induction h with
  | nil => exact ⟨[], .nil, .nil⟩
  | @cons n x ns xs hnear _ ih =>
    rw [List.forall_mem_cons] at hfits
    obtain ⟨hmultiple, hconfirming⟩ := exists_confirming hfits.1 hnear
    obtain ⟨stored, hmultiples, hrest⟩ := ih hfits.2
    exact ⟨_, .cons hmultiple hmultiples, .cons hconfirming hrest⟩

/-- Near the middle there is another multiple that confirms. -/
theorem Confirming.exists_ne {x : ℚ} (hmiddle : NearMiddle x) {w : ℤ} (hw : Confirming w x) :
    ∃ w', Confirming w' x ∧ w' ≠ w := by
  obtain ⟨k, hlo, hhi⟩ := hmiddle
  obtain ⟨-, -, -, n, hn, hnear⟩ := hw
  have hround := abs_le.mp hnear
  -- both multiples fit a word, since the word sent does
  have hbelow : 100 * k + 49 < n + 1 := by
    have hcast : (100 * k + 49 : ℚ) < n + 1 := by linarith
    exact_mod_cast hcast
  have habove : n - 1 < 100 * k + 51 := by
    have hcast : (n - 1 : ℚ) < 100 * k + 51 := by linarith
    exact_mod_cast hcast
  have hfits : InI32 (100 * k) ∧ InI32 (100 * (k + 1)) := by
    unfold InI32 at hn ⊢
    omega
  have hconfirming : ∀ v : ℤ, 100 ∣ v → InI32 v → |x - v| ≤ 51 → Confirming v x :=
    fun v hdvd hv hclose => ⟨hdvd, hv, hclose, n, hn, hnear⟩
  by_cases hw : w = 100 * k
  · refine ⟨100 * (k + 1), hconfirming _ (Dvd.intro _ rfl) hfits.2 ?_, by omega⟩
    push_cast
    exact abs_le.mpr ⟨by linarith, by linarith⟩
  · refine ⟨100 * k, hconfirming _ (Dvd.intro _ rfl) hfits.1 ?_, Ne.symm hw⟩
    push_cast
    exact abs_le.mpr ⟨by linarith, by linarith⟩

/-- Only the stored set-points confirm a write, exactly if no entry of what was asked for is
near the middle between two multiples of 0.1 °C. -/
theorem confirmsOnlyStored_iff {s : Session} (hs : s.Reachable) {tp : Topic} (ht : tp ∈ topics)
    (hname : tp.name = "csettemp") {ref : TopicRef} (href : topic ref = .ok tp) {value : Value}
    {compartment : Option ℤ} {f : Frame} {e : WriteExpectation}
    (hset : s.setFrame ref value compartment = .ok (f, e)) :
    e.ConfirmsOnlyStored f ↔ ∀ x ∈ s.requested value compartment, ¬ NearMiddle x := by
  obtain ⟨hnearest, hconfirms⟩ := setPoint_spec hs ht hname href hset
  constructor
  · intro honly x hx hmiddle
    -- the cooler stores the nearest multiples, and publishes others that confirm as well
    obtain ⟨stored, hmultiples, hconfirming⟩ :=
      exists_stored (fun _ => inI32_of_mem_i32s) hnearest
    obtain ⟨published, hpublished, hne⟩ :=
      exists_forall₂_ne hconfirming hx fun w hw => hw.exists_ne hmiddle
    have hall : ∀ w ∈ published, 100 ∣ w ∧ InI32 w := by
      have hpair : List.Forall₂ (fun w _ => (100 ∣ w ∧ InI32 w) ∧ True) published
          (s.requested value compartment) :=
        hpublished.imp fun _ _ h => ⟨⟨h.1, h.2.1⟩, trivial⟩
      exact ((List.forall₂_and_left _ _).mp hpair).1
    have hwords : i32s (published.flatMap i32Bytes) = published :=
      i32s_flatMap fun w hw => (hall w hw).2
    have hnone := honly _ hmultiples ⟨Action.PUBLISH.value, f.address, published.flatMap i32Bytes⟩
      rfl rfl (by rw [hwords]; exact fun w hw => (hall w hw).1) (by rw [hwords]; exact hne)
      .none {} _ _ (Session.onFrame_eq {} _)
    have hsome := (hconfirms .none ⟨Action.PUBLISH.value, f.address, published.flatMap i32Bytes⟩
      rfl rfl).mpr (by rw [hwords]; exact hpublished.imp fun _ _ h => h.2.2.1)
    exact nomatch hnone.symm.trans hsome
  · intro hmiddle stored hstored g hpub haddr hdvd hne observed later after event hevent
    rw [Session.onFrame_eq, Except.ok.injEq, Prod.mk.injEq] at hevent
    rw [← hevent.1]
    refine (matches_publish _ hpub).resolve_right fun hsome => ?_
    -- the published entry that differs and the stored one confirm both
    have hpublished := (hconfirms observed g hpub haddr).mp hsome
    have hclose : List.Forall₂ (fun (w : ℤ) (x : ℚ) => 100 ∣ w ∧ |x - w| ≤ 51) stored
        (s.requested value compartment) :=
      forall₂_join (fun _ _ _ hmultiple hnear => ⟨hmultiple.1, Echoed.near (.inr hmultiple) hnear⟩)
        hstored hnearest
    obtain ⟨x, hx, a, b, ⟨hadvd, ha⟩, ⟨hbdvd, hb⟩, hab⟩ :=
      exists_ne_of_forall₂ ((List.forall₂_and_left _ _).mpr ⟨hdvd, hpublished⟩) hclose hne
    exact hmiddle x hx ((nearMiddle_iff x).mpr ⟨a, b, hadvd, hbdvd, hab, ha, hb⟩)

/-! ## 2.05 °C -/

/-- One zone, set to 2.1 °C. -/
def oneZone : Bytes := bytesLit "EAUAABo0CAAA\r"

/-- The expectation of setting it to 2.05 °C. -/
def setTo205 : WriteExpectation :=
  { topic := ⟨"csettemp", mccc 0x05, .milliArray, true, true⟩
    expected := .list [.float (.fin (205 / 100))]
    tolerance := 51 / 1000 }

theorem exists_setTo205 :
    ∃ s : Session, s.Reachable ∧ s.lastWords "csettemp" = [2100]
      ∧ s.setFrame (.name "csettemp") (.float (.fin (205 / 100))) none
        = .ok (⟨Action.SET.value, mccc 0x05, i32Bytes 2050⟩, setTo205) := by
  obtain ⟨s, hs, hraw⟩ := Session.exists_reachable subscribeTopics [oneZone]
  have hframes : (reference [oneZone].flatten).frames
      = [⟨0x10, mccc 0x05, i32Bytes 2100⟩] := by decide +kernel
  rw [hframes] at hraw
  have hwords : s.lastWords "csettemp" = [2100] := by
    show ((s.raw.get? (mccc 0x05)).map i32s).getD [] = _
    rw [hraw]
    decide +kernel
  have hrange : s.publishedRange 0 = none := by
    have hnone : s.lastWords "ctemprng" = [] := by
      show ((s.raw.get? (mccc 0x08)).map i32s).getD [] = _
      rw [hraw]
      decide +kernel
    rw [Session.publishedRange, hnone]
    rfl
  have hset := Session.setFrame_setPoint hs.coherent (i := 0) (by rw [hwords]; decide)
    (n := 2050) (by decide) (fun r hr => by cases hr.symm.trans hrange) none rfl
  -- 2.05 degrees are 2050 thousandths
  have hvalue : ofMilli 2050 = .float (.fin (205 / 100)) := by
    rw [ofMilli, show ((2050 : ℤ) / 1000 : ℚ) = 205 / 100 by norm_num]
  have htolerance : Session.tolerance Session.setPointTopic = 51 / 1000 :=
    Session.tolerance_milliArray rfl
  rw [hwords, List.set_cons_zero, List.map_singleton, hvalue, htolerance] at hset
  exact ⟨s, hs, hwords, hset⟩

theorem confirmsOnlyStored_iff_setTo205 :
    ∃ s : Session, s.lastWords "csettemp" = [2100]
      ∧ (setTo205.ConfirmsOnlyStored ⟨Action.SET.value, mccc 0x05, i32Bytes 2050⟩
        ↔ ∀ x ∈ s.requested (.float (.fin (205 / 100))) none, ¬ NearMiddle x) := by
  obtain ⟨s, hs, hwords, hset⟩ := exists_setTo205
  have hmem : setTo205.topic ∈ topics := by decide
  exact ⟨s, hwords, confirmsOnlyStored_iff hs hmem rfl rfl hset⟩

/-- The cooler may store 2.0 °C for 2.05 °C; the old set-point of 2.1 °C, published first,
confirms the write. -/
theorem old_setPoint_confirms :
    ∃ s : Session, s.Reachable ∧ s.lastWords "csettemp" = [2100]
      ∧ s.setFrame (.name "csettemp") (.float (.fin (205 / 100))) none
        = .ok (⟨Action.SET.value, mccc 0x05, i32Bytes 2050⟩, setTo205)
      ∧ NearestMultiple 100 2050 2000
      ∧ (setTo205.matches (eventOf ⟨Action.PUBLISH.value, mccc 0x05, i32Bytes 2100⟩)).1
        = some true := by
  obtain ⟨s, hs, hwords, hset⟩ := exists_setTo205
  have hmem : setTo205.topic ∈ topics := by decide
  have hrow : setTo205.topic.Registered :=
    ⟨⟨_, hmem, rfl, rfl⟩, fun _ => ⟨_, hmem, rfl, rfl, rfl⟩⟩
  have hword : i32s (i32Bytes 2100) = [2100] := i32s_i32Bytes_append (by decide) []
  have hstored : setTo205.topic.stored (i32Bytes 2100) = .list ([2100].map ofMilli) := by
    rw [Topic.stored_of_decode (Codec.IsWritableArray.decode (.inr rfl) _), hword]
    rfl
  have hexpected : setTo205.expected = .list ([2050].map ofThousandths) := by
    rw [List.map_singleton, ofThousandths, show (2050 / 1000 : ℚ) = 205 / 100 by norm_num]
    rfl
  refine ⟨s, hs, hwords, hset, ⟨by norm_num, by norm_num⟩, ?_⟩
  rw [matches_eventOf hrow, hstored, hexpected]
  refine ⟨rfl, rfl, (close_setPoints _ _).mpr (.cons ?_ .nil)⟩
  norm_num

end Ddmp
