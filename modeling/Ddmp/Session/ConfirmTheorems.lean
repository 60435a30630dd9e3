import Ddmp.Session.SetFrameTheorems

/-!
# What confirms a write

`WriteExpectation.matches` compares the value of an event with the expected one. The value is
the decoded payload or, when decoding fails, the payload itself, and for a boolean topic
`_close` compares truth values: a payload of one to three bytes confirms `True`, and an empty
one confirms `False`. `matches_iff` shows that this is the only way in which a payload that
does not decode to the written value confirms the write, as long as the session knows the
topic under the same codec as the caller.
-/

namespace Ddmp

open Lib Lib.Fallible Lib.LittleEndian

/-! ## Verdicts -/

/-- An event changes only what has been observed. -/
theorem WriteExpectation.exists_observed (x : WriteExpectation) (e : Event) :
    ∃ observed, (x.matches e).2 = { x with observed } := by
  cases e with
  | nak | unhandled => exact ⟨x.observed, rfl⟩
  | publish address topic value raw =>
    by_cases haddress : address = x.topic.address
    · exact ⟨value, by rw [WriteExpectation.matches, if_neg (not_not.mpr haddress)]⟩
    · exact ⟨x.observed, by rw [WriteExpectation.matches, if_pos haddress]⟩

/-- What an expectation has observed does not affect its verdicts. -/
theorem WriteExpectation.matches_after (x : WriteExpectation) (seen event : Event) :
    ((x.matches seen).2.matches event).1 = (x.matches event).1 := by
  obtain ⟨observed, hobserved⟩ := x.exists_observed seen
  rw [hobserved]
  cases event with
  | nak | unhandled => rfl
  | publish address topic value raw =>
    by_cases haddress : address = x.topic.address
    · rw [WriteExpectation.matches, WriteExpectation.matches, if_neg (not_not.mpr haddress),
        if_neg (not_not.mpr haddress)]
    · rw [WriteExpectation.matches, WriteExpectation.matches, if_pos haddress, if_pos haddress]

/-- A verdict comes from a publish of the topic with a value that is close, or from a NAK. -/
theorem WriteExpectation.answer_of_matches (x : WriteExpectation) {e : Event} {b : Bool}
    (h : (x.matches e).1 = some b) :
    b = true ∧ (∃ topic value raw, e = .publish x.topic.address topic value raw
        ∧ close value x.expected x.tolerance = true)
      ∨ b = false ∧ ∃ raw, e = .nak x.topic.address raw := by
  unfold WriteExpectation.matches at h
  cases e with
  | nak address raw =>
    dsimp only at h
    split at h
    · rename_i haddress
      obtain rfl := haddress
      obtain rfl := Option.some.inj h
      exact .inr ⟨rfl, raw, rfl⟩
    · cases h
  | unhandled => cases h
  | publish address topic value raw =>
    dsimp only at h
    split at h
    · cases h
    · rename_i haddress
      split at h
      · rename_i hclose
        obtain rfl := not_not.mp haddress
        obtain rfl := Option.some.inj h
        exact .inl ⟨rfl, topic, value, raw, rfl, hclose⟩
      · cases h

/-! ## Agreement of two values -/

/-- The same truth value or text, two finite numbers at most `tol` apart, or two pairs of
such. -/
inductive Value.Near (tol : ℚ) : Value → Value → Prop
  | bool (b : Bool) : Near tol (.bool b) (.bool b)
  | text (s : String) : Near tol (.str s) (.str s)
  | number {v w : Value} {q r : ℚ} (hv : v.number? = some (.fin q))
      (hw : w.number? = some (.fin r)) (h : |q - r| ≤ tol) : Near tol v w
  | pair {a b c d : Value} (first : Near tol a c) (second : Near tol b d) :
      Near tol (.tuple [a, b]) (.tuple [c, d])

/-- Entry by entry for arrays of the same length. -/
def Value.Agrees (tol : ℚ) : Value → Value → Prop
  | .list xs, .list ys => List.Forall₂ (Value.Near tol) xs ys
  | v, w => Value.Near tol v w

/-! ### What the codecs decode to -/

def Value.IsBool (v : Value) : Prop := ∃ b, v = .bool b

def Value.IsInt (v : Value) : Prop := ∃ n, v = .int n

def Value.IsFloat (v : Value) : Prop := ∃ x, v = .float x

def Value.IsText (v : Value) : Prop := ∃ s, v = .str s

/-- A member of an enumeration, or a code that has none. -/
def Value.IsCode (v : Value) : Prop := (∃ m, v = .enum m) ∨ v.IsInt

def Value.IsPair (v : Value) : Prop := ∃ x y, v = .tuple [.float x, .float y]

/-- A list of values of one kind. -/
def Value.IsListOf (P : Value → Prop) (v : Value) : Prop := ∃ xs, v = .list xs ∧ ∀ x ∈ xs, P x

/-- The kind of value a codec decodes to. -/
def Codec.Holds : Codec → Value → Prop
  | .int32 => Value.IsInt
  | .int32Array => Value.IsListOf Value.IsInt
  | .bool => Value.IsBool
  | .boolArray => Value.IsListOf Value.IsBool
  | .milli => Value.IsFloat
  | .milliArray => Value.IsListOf Value.IsFloat
  | .milliPairArray => Value.IsListOf Value.IsPair
  | .enum _ => Value.IsCode
  | .str => Value.IsText
  | .mac6 => Value.IsText
  | .u16Array => Value.IsListOf Value.IsInt

theorem Value.isListOf_map {α : Type} {P : Value → Prop} {f : α → Value} (h : ∀ a, P (f a))
    (l : List α) : Value.IsListOf P (.list (l.map f)) := by
  refine ⟨_, rfl, ?_⟩
  intro x hx
  obtain ⟨a, -, rfl⟩ := List.mem_map.mp hx
  exact h a

/-- Replacing an item by one of the same kind. -/
theorem Value.IsListOf.set {P : Value → Prop} {xs : List Value} (h : Value.IsListOf P (.list xs))
    {x : Value} (hx : P x) (i : ℕ) : Value.IsListOf P (.list (xs.set i x)) := by
  obtain ⟨ys, heq, hys⟩ := h
  refine ⟨_, rfl, ?_⟩
  intro z hz
  rcases List.mem_or_eq_of_mem_set hz with hz | rfl
  · exact hys z (Value.list.inj heq ▸ hz)
  · exact hx

theorem Codec.holds_of_decode {c : Codec} {payload : Bytes} {v : Value}
    (h : c.decode payload = .ok v) : c.Holds v := by
  cases Codec.decoded_of_decode h with
  | @int32 n => exact ⟨n, rfl⟩
  | bool b => exact ⟨b, rfl⟩
  | @milli n => exact ⟨_, rfl⟩
  | @enum cls n =>
    cases cls.ofValue? n with
    | some m => exact .inl ⟨m, rfl⟩
    | none => exact .inr ⟨n, rfl⟩
  | str | mac6 => exact ⟨_, rfl⟩
  | int32Array => exact Value.isListOf_map (fun n => ⟨n, rfl⟩) _
  | boolArray => exact Value.isListOf_map (fun n => ⟨n != 0, rfl⟩) _
  | milliArray | u16Array => exact Value.isListOf_map (fun n => ⟨_, rfl⟩) _
  | milliPairArray => exact Value.isListOf_map (fun r => ⟨_, _, rfl⟩) _

/-! ### Close values of one kind agree -/

theorem close_bool (a b : Bool) (tol : ℚ) : close (.bool a) (.bool b) tol = true ↔ a = b := by
  show (b == a) = true ↔ a = b
  rw [beq_iff_eq, eq_comm]

/-- Against a truth value, a byte string counts as true unless it is empty. -/
theorem close_bytes_bool (p : Bytes) (b : Bool) (tol : ℚ) :
    close (.bytes p) (.bool b) tol = true ↔ (p ≠ [] ↔ b = true) := by
  show ((!p.isEmpty) == b) = true ↔ _
  cases p <;> cases b <;> simp

/-- Arrays are close when they have the same length and their entries are close. -/
theorem closeItems_iff (xs ys : List Value) (tol : ℚ) :
    closeItems xs ys tol = true ↔ List.Forall₂ (fun x y => close x y tol = true) xs ys := by
  induction xs generalizing ys with
  | nil => cases ys <;> simp [closeItems]
  | cons x xs ih =>
    cases ys with
    | nil => simp [closeItems]
    | cons y ys => rw [closeItems, Bool.and_eq_true, ih, List.forall₂_cons]

namespace Value

variable {v w : Value} {tol : ℚ}

theorem IsBool.near (hv : v.IsBool) (hw : w.IsBool) (h : close v w tol = true) : Near tol v w := by
  obtain ⟨a, rfl⟩ := hv
  obtain ⟨b, rfl⟩ := hw
  rw [close_bool] at h
  exact h ▸ .bool a

theorem IsText.near (hv : v.IsText) (hw : w.IsText) (h : close v w tol = true) : Near tol v w := by
  obtain ⟨s, rfl⟩ := hv
  obtain ⟨t, rfl⟩ := hw
  have heq : s = t := beq_iff_eq.mp h
  exact heq ▸ .text s

theorem IsCode.near (hv : v.IsCode) (hw : w.IsCode) (h : close v w tol = true) : Near tol v w := by
  rcases hv with ⟨m, rfl⟩ | ⟨m, rfl⟩ <;> rcases hw with ⟨n, rfl⟩ | ⟨n, rfl⟩ <;>
    exact .number rfl rfl (of_decide_eq_true h)

theorem IsInt.near (hv : v.IsInt) (hw : w.IsInt) (h : close v w tol = true) : Near tol v w :=
  IsCode.near (.inr hv) (.inr hw) h

/-- An infinity or a NaN is close to no float, itself included. -/
theorem IsFloat.near (hv : v.IsFloat) (hw : w.IsFloat) (h : close v w tol = true) :
    Near tol v w := by
  obtain ⟨x, rfl⟩ := hv
  obtain ⟨y, rfl⟩ := hw
  have hwithin : x.within tol y = true := h
  cases x with
  | fin q =>
    cases y with
    | fin r => exact .number rfl rfl (of_decide_eq_true hwithin)
    | posInf | negInf | nan => exact nomatch hwithin
  | posInf | negInf | nan => exact nomatch hwithin

theorem IsPair.near (hv : v.IsPair) (hw : w.IsPair) (h : close v w tol = true) : Near tol v w := by
  obtain ⟨x₁, x₂, rfl⟩ := hv
  obtain ⟨y₁, y₂, rfl⟩ := hw
  have hitems : closeItems [.float x₁, .float x₂] [.float y₁, .float y₂] tol = true := h
  rw [closeItems_iff, List.forall₂_cons, List.forall₂_cons] at hitems
  obtain ⟨hfirst, hsecond, -⟩ := hitems
  exact .pair (IsFloat.near ⟨x₁, rfl⟩ ⟨y₁, rfl⟩ hfirst) (IsFloat.near ⟨x₂, rfl⟩ ⟨y₂, rfl⟩ hsecond)

/-- Values that agree when they are close make up lists that do. -/
theorem IsListOf.agrees {P : Value → Prop} (hv : v.IsListOf P) (hw : w.IsListOf P)
    (hnear : ∀ x y, P x → P y → close x y tol = true → Near tol x y)
    (h : close v w tol = true) : v.Agrees tol w := by
  obtain ⟨xs, rfl, hxs⟩ := hv
  obtain ⟨ys, rfl, hys⟩ := hw
  show List.Forall₂ (Near tol) xs ys
  have hitems : List.Forall₂ (fun x y => close x y tol = true) xs ys :=
    (closeItems_iff xs ys tol).mp h
  induction hitems with
  | nil => exact .nil
  | @cons x y xs ys hxy hrest ih =>
    rw [List.forall_mem_cons] at hxs hys
    refine .cons (hnear x y hxs.1 hys.1 hxy) ?_
    exact ih hxs.2 hys.2 ((closeItems_iff xs ys tol).mpr hrest)

/-- Outside of lists, agreement is nearness. -/
theorem Near.agrees (h : Near tol v w) : v.Agrees tol w := by
  cases h with
  | bool b => exact .bool b
  | text s => exact .text s
  | pair hfirst hsecond => exact .pair hfirst hsecond
  | @number _ _ q r hv hw h =>
    cases v with
    | list => exact nomatch hv
    | none | bool | int | enum | float | str | bytes | tuple | obj => exact .number hv hw h

end Value

/-- Two values that a codec decodes to agree when they are close. -/
theorem Codec.Holds.agrees {c : Codec} {v w : Value} {tol : ℚ} (hv : c.Holds v) (hw : c.Holds w)
    (h : close v w tol = true) : v.Agrees tol w := by
  cases c with
  | int32 => exact (Value.IsInt.near hv hw h).agrees
  | bool => exact (Value.IsBool.near hv hw h).agrees
  | milli => exact (Value.IsFloat.near hv hw h).agrees
  | enum cls => exact (Value.IsCode.near hv hw h).agrees
  | str | mac6 => exact (Value.IsText.near hv hw h).agrees
  | int32Array | u16Array => exact Value.IsListOf.agrees hv hw (fun _ _ => Value.IsInt.near) h
  | boolArray => exact Value.IsListOf.agrees hv hw (fun _ _ => Value.IsBool.near) h
  | milliArray => exact Value.IsListOf.agrees hv hw (fun _ _ => Value.IsFloat.near) h
  | milliPairArray => exact Value.IsListOf.agrees hv hw (fun _ _ => Value.IsPair.near) h

/-- A payload that was kept undecoded is close to a decoded value only if that is a truth
value. -/
theorem Codec.Holds.not_close_bytes {c : Codec} {w : Value} (hw : c.Holds w) (hbool : c ≠ .bool)
    (hmin : 0 < c.minLength) (payload : Bytes) (tol : ℚ) :
    close (.bytes payload) w tol = false := by
  cases c with
  | bool => exact absurd rfl hbool
  | int32 =>
    obtain ⟨n, rfl⟩ := hw
    rfl
  | milli =>
    obtain ⟨x, rfl⟩ := hw
    rfl
  | enum cls =>
    rcases hw with ⟨m, rfl⟩ | ⟨n, rfl⟩
    · rfl
    · rfl
  | mac6 =>
    obtain ⟨s, rfl⟩ := hw
    rfl
  | int32Array | boolArray | milliArray | milliPairArray | str | u16Array =>
    exact absurd hmin (Nat.lt_irrefl 0)

/-! ## The topic of an expectation -/

/-- The session decodes with the topic's own codec what is published for the topic and, for an
array, what was last published under its name. -/
structure Topic.Registered (t : Topic) : Prop where
  byAddress : ∃ u ∈ topics, u.address = t.address ∧ u.codec = t.codec
  byName : t.perCompartment = true →
    ∃ u ∈ topics, u.name = t.name ∧ u.perCompartment = true ∧ u.codec = t.codec

/-- The rows of the table are registered, so only an object made by hand may not be. -/
def TopicRef.Registered : TopicRef → Prop
  | .name _ => True
  | .address _ => True
  | .topic t => t.Registered

theorem TopicRef.Registered.topic {ref : TopicRef} (h : ref.Registered) {t : Topic}
    (ht : Ddmp.topic ref = .ok t) : t.Registered := by
  have hrow : t ∈ topics → t.Registered := fun hmem =>
    ⟨⟨t, hmem, rfl, rfl⟩, fun hper => ⟨t, hmem, rfl, hper, rfl⟩⟩
  cases ref with
  | name s => exact hrow (mem_topics_of_topic ht fun u hu => (nomatch hu))
  | address a => exact hrow (mem_topics_of_topic ht fun u hu => (nomatch hu))
  | topic u =>
    obtain rfl := Except.ok.inj ht
    exact h

/-- What an accepted write expects is of the kind that its codec decodes to. -/
theorem Session.Writes.holds {s : Session} (hs : s.Coherent) {tp : Topic} (ht : tp.Registered)
    (hname : tp.name ∈ writableNames) {value expected : Value} {compartment : Option ℤ}
    {payload : Bytes} (h : s.Writes tp value compartment payload expected) :
    tp.codec.Holds expected := by
  cases h with
  | scalar _ _ _ _ hdecode => exact Codec.holds_of_decode hdecode
  | @array items item _ _ hper hknown _ _ hiter hcoerce _ _ =>
    obtain ⟨u, hu, huname, huper, hucodec⟩ := ht.byName hper
    have hcurrent : s.current tp = s.current u := by rw [current, current, huname]
    have hcodec : u.codec = .boolArray ∨ u.codec = .milliArray := by
      rcases writable_codecs u hu (by rw [huname]; exact hname) with ⟨hscalar, -⟩ | ⟨-, hcodec⟩
      · exact absurd (huper.symm.trans hscalar) (by decide)
      · exact hcodec
    have harr : u.codec.isArray = true := by
      rcases hcodec with h | h <;> rw [h] <;> rfl
    rw [hcurrent] at hknown hiter
    -- what is known has been decoded from a publish
    obtain ⟨published, -, hpublished⟩ := hs.current_of_known hu hknown
    obtain ⟨xs, hxs⟩ := Codec.decode_of_isArray harr published
    have hitems : items = xs := by
      rw [hpublished, u.stored_of_decode hxs] at hiter
      exact (Except.ok.inj hiter).symm
    -- the other items were decoded, and the new one is what the value was coerced to
    have hholds := Codec.holds_of_decode hxs
    have hcoerced := coerced_of_coerce hcoerce
    rw [hitems]
    rw [hucodec] at hcodec hholds
    rcases hcodec with hc | hc
    · rw [hc] at hholds hcoerced ⊢
      exact hholds.set hcoerced _
    · rw [hc] at hholds hcoerced ⊢
      obtain ⟨x, -, hx⟩ := hcoerced
      exact hholds.set ⟨x, hx⟩ _

/-! ## The verdict -/

/-- Only a PUBLISH for the topic's address confirms. -/
theorem isPublish_of_matches {e : WriteExpectation} {g : Frame}
    (h : (e.matches (eventOf g)).1 = some true) : g.IsPublish ∧ g.address = e.topic.address := by
  by_cases hpub : g.IsPublish
  · refine ⟨hpub, ?_⟩
    by_contra haddr
    have hnone : (e.matches (eventOf g)).1 = none := by
      cases htopic : topicByAddress.get? g.address with
      | none => rw [eventOf, if_pos hpub, htopic, WriteExpectation.matches, if_pos haddr]
      | some t => rw [eventOf, if_pos hpub, htopic, WriteExpectation.matches, if_pos haddr]
    cases hnone.symm.trans h
  · have hne : (e.matches (eventOf g)).1 ≠ some true := by
      rw [eventOf, if_neg hpub]
      split
      · rw [WriteExpectation.matches]
        split <;> simp
      · exact (Option.some_ne_none true).symm
    exact absurd h hne

/-- A verdict of `True`: a PUBLISH for the topic whose stored value is close to the expected
one. -/
theorem matches_eventOf {e : WriteExpectation} (ht : e.topic.Registered) (g : Frame) :
    (e.matches (eventOf g)).1 = some true
      ↔ g.IsPublish ∧ g.address = e.topic.address
        ∧ close (e.topic.stored g.payload) e.expected e.tolerance = true := by
  by_cases hframe : g.IsPublish ∧ g.address = e.topic.address
  · obtain ⟨hpub, haddr⟩ := hframe
    obtain ⟨u, hu, huaddr, hucodec⟩ := ht.byAddress
    have hstored : u.stored g.payload = e.topic.stored g.payload := by
      rw [Topic.stored, Topic.stored, hucodec]
    have hevent : eventOf g
        = .publish g.address (some u) (e.topic.stored g.payload) g.payload := by
      rw [eventOf, if_pos hpub, haddr, ← huaddr, topicByAddress_self hu, ← hstored]
    rw [hevent, WriteExpectation.matches]
    simp only [haddr, ne_eq, not_true_eq_false, if_false, hpub, true_and]
    split <;> simp_all
  · exact iff_of_false (fun h => hframe (isPublish_of_matches h)) fun h => hframe ⟨h.1, h.2.1⟩

namespace WriteExpectation

/-- The frame is a PUBLISH for the topic whose payload decodes to the expected value. -/
def Published (e : WriteExpectation) (g : Frame) : Prop :=
  g.IsPublish ∧ g.address = e.topic.address
    ∧ ∃ v, e.topic.codec.decode g.payload = .ok v ∧ v.Agrees e.tolerance e.expected

/-- The frame is a PUBLISH for a boolean topic that is too short to decode, and is empty
exactly if `False` is expected. -/
def ShortBool (e : WriteExpectation) (g : Frame) : Prop :=
  g.IsPublish ∧ g.address = e.topic.address ∧ e.topic.codec = .bool ∧ g.payload.length < 4
    ∧ (g.payload ≠ [] ↔ e.expected = .bool true)

/-- A frame that confirms a write has published the expected value, unless it is a boolean
publish too short to decode: such a one confirms all the same. For a `Topic` object that is not
registered this is about the frames other than a PUBLISH for its address, which confirm nothing. -/
theorem matches_iff {s : Session} (hs : s.Reachable) {ref : TopicRef} {value : Value}
    {compartment : Option ℤ} {f : Frame} {e : WriteExpectation}
    (hset : s.setFrame ref value compartment = .ok (f, e)) (observed : Value)
    {later after : Session} {g : Frame} {event : Event}
    (href : ref.Registered ∨ ¬ (g.IsPublish ∧ g.address = e.topic.address))
    (hevent : later.onFrame g = .ok (event, after)) :
    (({ e with observed }.matches event).1 = some true → e.Published g) ↔ ¬ e.ShortBool g := by
  obtain ⟨t, hwritable, payload, expected, hw, -, rfl⟩ := Session.setFrame_eq_ok.mp hset
  obtain ⟨hresolve, hname⟩ := assertWritable_eq_ok.mp hwritable
  rw [Session.onFrame_eq, Except.ok.injEq, Prod.mk.injEq] at hevent
  rw [← hevent.1]
  rcases href with href | hother
  swap
  -- other frames do not confirm, and are no short publish of the topic
  · exact iff_of_true (fun h => absurd (isPublish_of_matches h) hother)
      fun hshort => hother ⟨hshort.1, hshort.2.1⟩
  have ht : t.Registered := href.topic hresolve
  have hexpected : t.codec.Holds expected := hw.holds hs.coherent ht hname
  rw [matches_eventOf ht]
  dsimp only
  by_cases hlen : g.payload.length < t.codec.minLength
  · -- the payload itself is compared
    obtain ⟨msg, hmsg⟩ := Codec.decode_of_lt hlen
    have hnot : ¬ Published { topic := t, expected, tolerance := Session.tolerance t } g := by
      rintro ⟨-, -, v, hv, -⟩
      exact nomatch hmsg.symm.trans hv
    rw [t.stored_of_lt hlen]
    by_cases hc : t.codec = .bool
    · -- bytes against a truth value: the one case in which they can be close
      rw [hc] at hexpected hlen
      obtain ⟨b, rfl⟩ := hexpected
      rw [close_bytes_bool]
      have hshort :
          ShortBool { topic := t, expected := .bool b, tolerance := Session.tolerance t } g
          ↔ g.IsPublish ∧ g.address = t.address ∧ (g.payload ≠ [] ↔ b = true) := by
        simp only [ShortBool, hc, Value.bool.injEq]
        exact ⟨fun ⟨h₁, h₂, _, _, h₃⟩ => ⟨h₁, h₂, h₃⟩,
          fun ⟨h₁, h₂, h₃⟩ => ⟨h₁, h₂, trivial, hlen, h₃⟩⟩
      rw [hshort]
      exact ⟨fun h hconfirm => hnot (h hconfirm), fun h hconfirm => absurd hconfirm h⟩
    -- bytes are never close to a value of another kind
    · have hclose := hexpected.not_close_bytes hc (Nat.zero_lt_of_lt hlen) g.payload
        (Session.tolerance t)
      rw [hclose]
      refine ⟨fun _ hshort => hc hshort.2.2.1, fun _ h => ?_⟩
      exact absurd h.2.2 Bool.false_ne_true
  · -- the decoded value is compared
    obtain ⟨v, hv⟩ := Codec.decode_of_le (Nat.le_of_not_lt hlen)
    rw [t.stored_of_decode hv]
    refine ⟨fun _ hshort => ?_, fun _ ⟨hpub, haddr, hclose⟩ => ⟨hpub, haddr, v, hv, ?_⟩⟩
    · obtain ⟨-, -, hbool, hshort, -⟩ := hshort
      dsimp only at hbool
      rw [hbool] at hlen
      exact hlen hshort
    · exact (Codec.holds_of_decode hv).agrees hexpected hclose

/-- The expectation of switching the cooler on. -/
def coolerOn : WriteExpectation :=
  { topic := { name := "coolerpow", address := mccc 0x0B, codec := .bool, writable := true }
    expected := .bool true }

theorem setFrame_coolerOn :
    Session.setFrame {} (.name "coolerpow") (.bool true) none
      = .ok ({ action := Action.SET.value, address := mccc 0x0B, payload := i32Bytes 1 },
        coolerOn) := by
  have hwritable : assertWritable (.name "coolerpow") = .ok coolerOn.topic := rfl
  have htolerance : Session.tolerance coolerOn.topic = 0 := by decide
  refine Session.setFrame_eq_ok.mpr ⟨coolerOn.topic, hwritable, i32Bytes 1, .bool true,
    .scalar rfl (.inl rfl) rfl rfl (BoolCodec.decode_i32Bytes (n := 1) (by decide)), rfl, ?_⟩
  rw [htolerance]
  rfl

theorem matches_iff_coolerOn :
    ((coolerOn.matches (eventOf ⟨0x10, mccc 0x0B, [1]⟩)).1 = some true
      → coolerOn.Published ⟨0x10, mccc 0x0B, [1]⟩)
      ↔ ¬ coolerOn.ShortBool ⟨0x10, mccc 0x0B, [1]⟩ := by
  have hfresh : Session.Reachable {} := ⟨_, [], [], rfl⟩
  have href : TopicRef.Registered (.name "coolerpow") := trivial
  exact matches_iff hfresh setFrame_coolerOn .none (.inl href) (Session.onFrame_eq {} _)

/-- Switching the cooler on is confirmed by a PUBLISH with the single byte 1, which does not
decode. -/
theorem coolerOn_confirmed_by_short_payload :
    (∃ f, Session.setFrame {} (.name "coolerpow") (.bool true) none = .ok (f, coolerOn))
      ∧ (∃ after, Session.feed {} (bytesLit "EAsAABoB\r")
        = .ok ([.publish (mccc 0x0B) (some coolerOn.topic) (.bytes [1]) [1]], after))
      ∧ (coolerOn.matches (.publish (mccc 0x0B) (some coolerOn.topic) (.bytes [1]) [1])).1
        = some true
      ∧ ∃ msg, coolerOn.topic.codec.decode [1] = .error (.decodeError msg) :=
  ⟨⟨_, setFrame_coolerOn⟩, ⟨_, rfl⟩, rfl, _, rfl⟩

end WriteExpectation

end Ddmp
