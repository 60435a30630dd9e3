import Ddmp.Session.SetFrameTheorems

/-!
# The write allow-list

`assert_writable` looks at the name of a topic and the frame carries its address. For a name
or an address the two belong together, because they are resolved through the table. A `Topic`
object is passed through unchanged, so one that pairs a writable name with another address
gets past the guard; `guardsAddress_iff` says exactly which arguments are safe.
-/

namespace Ddmp

open Lib Lib.Fallible Lib.LittleEndian

/-- The address of a topic marked writable. -/
def WritableAddress (a : Address) : Prop := ∃ t ∈ topics, t.writable = true ∧ t.address = a

instance (a : Address) : Decidable (WritableAddress a) :=
  inferInstanceAs (Decidable (∃ t ∈ topics, _))

/-- No writable address is in the documented list of addresses never to be written. -/
theorem WritableAddress.not_mem_neverWrite {a : Address} (h : WritableAddress a) :
    a ∉ neverWrite := by
  obtain ⟨t, ht, hw, rfl⟩ := h
  revert t
  decide

/-- A row of the table whose name is on the allow-list is marked writable. -/
theorem writable_of_name_mem : ∀ t ∈ topics, t.name ∈ writableNames → t.writable = true := by
  decide

/-- A SET is built for the topic that the argument stands for, which is on the allow-list. -/
theorem Session.topic_of_setFrame {s : Session} {ref : TopicRef} {value : Value}
    {compartment : Option ℤ} {frame : Frame} {expectation : WriteExpectation}
    (h : s.setFrame ref value compartment = .ok (frame, expectation)) :
    frame.action = Action.SET.value
      ∧ ∃ t, topic ref = .ok t ∧ t.name ∈ writableNames ∧ frame.address = t.address := by
  obtain ⟨t, ht, payload, expected, -, rfl, -⟩ := setFrame_eq_ok.mp h
  obtain ⟨hresolve, hname⟩ := assertWritable_eq_ok.mp ht
  exact ⟨rfl, t, hresolve, hname, rfl⟩

/-- A name or an address stands for a row of the table, so its SET goes to a writable address. -/
theorem Session.writable_of_setFrame {s : Session} {ref : TopicRef} {value : Value}
    {compartment : Option ℤ} {frame : Frame} {expectation : WriteExpectation}
    (h : s.setFrame ref value compartment = .ok (frame, expectation)) (href : ∀ t, ref ≠ .topic t) :
    WritableAddress frame.address := by
  obtain ⟨-, t, hresolve, hname, haddress⟩ := topic_of_setFrame h
  have hmem := mem_topics_of_topic hresolve href
  exact ⟨t, hmem, writable_of_name_mem t hmem hname, haddress.symm⟩

/-! ## Which codecs `set_frame` can drive -/

/-- Whether a codec encodes anything `set_frame` hands to it. A scalar write coerces the value
for a `bool[]` or `milli[]` codec to a single item, which these do not encode; an array write
hands over a list, which the codecs of a single number or of a MAC do not encode. -/
def Codec.canWrite (perCompartment : Bool) : Codec → Bool
  | .boolArray | .milliArray => perCompartment
  | .int32 | .milli | .enum _ | .mac6 => !perCompartment
  | .bool | .str | .int32Array | .milliPairArray | .u16Array => true

/-- The text of a list is no hexadecimal number. -/
theorem mac6_encode_list (xs : List Value) : ∃ e, Mac6Codec.encode (.list xs) = .error e := by
  have htext : (Value.list xs).text = .ok ("[" ++ Value.reprItems xs ++ "]") := rfl
  have hchars : ("[" ++ Value.reprItems xs ++ "]").toList.filter (· ≠ ':')
      = '[' :: ((Value.reprItems xs).toList ++ [']']).filter (· ≠ ':') := by
    rw [String.toList_append, String.toList_append]
    rfl
  have hhex : ∀ rest, fromHex? ('[' :: rest) = none := by
    intro rest
    cases rest <;> rfl
  refine ⟨.valueError [], ?_⟩
  rw [Mac6Codec.encode, htext]
  simp only [bind, Except.bind, hchars, hhex, orRaise]

theorem Session.Writes.canWrite {s : Session} {tp : Topic} {value expected : Value}
    {compartment : Option ℤ} {payload : Bytes}
    (h : s.Writes tp value compartment payload expected) :
    tp.codec.canWrite tp.perCompartment = true := by
  cases h with
  | array hper _ _ _ _ _ _ hencode =>
    rw [hper]
    cases hc : tp.codec with
    | int32 | milli | enum cls =>
      rw [hc] at hencode
      exact nomatch hencode
    | mac6 =>
      rw [hc] at hencode
      obtain ⟨e, he⟩ := mac6_encode_list (List.set _ _ _)
      exact nomatch he.symm.trans hencode
    | bool | boolArray | milliArray | str | int32Array | milliPairArray | u16Array => rfl
  | scalar hper _ hcoerce hencode _ =>
    rw [hper]
    have hcoerced := coerced_of_coerce hcoerce
    cases hc : tp.codec with
    | boolArray =>
      rw [hc] at hencode hcoerced
      obtain ⟨b, rfl⟩ := hcoerced
      exact nomatch hencode
    | milliArray =>
      rw [hc] at hencode hcoerced
      obtain ⟨x, -, rfl⟩ := hcoerced
      exact nomatch hencode
    | int32 | milli | enum cls | mac6 | bool | str | int32Array | milliPairArray | u16Array => rfl

/-- A value every codec that can be driven accepts in that shape. -/
def Codec.probe (perCompartment : Bool) : Codec → Value
  | .milliPairArray => if perCompartment then .tuple [ofMilli 0, ofMilli 0] else .list []
  | .int32Array | .u16Array => if perCompartment then .int 0 else .list []
  | .milli | .milliArray => ofMilli 0
  | .mac6 => .str "000000000000"
  | .int32 | .bool | .boolArray | .enum _ | .str => .int 0

theorem mac6_encode_zeros : Mac6Codec.encode (.str "000000000000") = .ok [0, 0, 0, 0, 0, 0] := by
  have htext : (Value.str "000000000000").text = .ok "000000000000" := rfl
  have hhex : fromHex? ("000000000000".toList.filter (· ≠ ':')) = some [0, 0, 0, 0, 0, 0] := by
    decide +kernel
  rw [Mac6Codec.encode, htext]
  simp only [bind, Except.bind, hhex, orRaise]

theorem exists_scalar_write {tp : Topic} (h : tp.codec.canWrite false = true) :
    ∃ v payload expected, Session.coerce tp (tp.codec.probe false) = .ok v
      ∧ tp.codec.encode v = .ok payload ∧ tp.codec.decode payload = .ok expected := by
  obtain ⟨name, address, codec, writable, perCompartment⟩ := tp
  cases codec with
  | boolArray | milliArray => exact nomatch h
  | milli => exact ⟨_, _, _, rfl, MilliCodec.encode_ofMilli 0, rfl⟩
  | mac6 => exact ⟨_, _, _, rfl, mac6_encode_zeros, rfl⟩
  | enum cls =>
    have hdecode := EnumCodec.decode_i32Bytes cls (n := 0) (by decide)
    have hencode : EnumCodec.encode cls (.int 0) = .ok (i32Bytes 0) := rfl
    refine ⟨((cls.ofValue? 0).map .enum).getD (.int 0), i32Bytes 0, _, ?_, ?_, hdecode⟩
    · exact bind_eq_ok.mpr ⟨i32Bytes 0, hencode, hdecode⟩
    · cases cls <;> rfl
  | int32 | bool | str | int32Array | milliPairArray | u16Array =>
    exact ⟨_, _, _, rfl, rfl, rfl⟩

theorem exists_array_write {tp : Topic} (h : tp.codec.canWrite true = true) :
    ∃ item payload, Session.coerce tp (tp.codec.probe true) = .ok item
      ∧ tp.codec.encode (.list [item]) = .ok payload := by
  obtain ⟨name, address, codec, writable, perCompartment⟩ := tp
  cases codec with
  | int32 | milli | enum _ | mac6 => exact nomatch h
  | boolArray | bool | str | int32Array  | u16Array =>
    exact ⟨_, _, rfl, rfl⟩
  | milliArray =>
    exact ⟨ofMilli 0, _, rfl, joinItems_eq_ok.mpr
      ⟨[ofMilli 0], [i32Bytes 0], rfl, .cons (MilliCodec.encode_ofMilli 0) .nil, rfl⟩⟩
  | milliPairArray =>
    have hpair : MilliPairArrayCodec.encodePair (.tuple [ofMilli 0, ofMilli 0])
        = .ok (i32Bytes 0 ++ i32Bytes 0) := by
      show (do
        let lo ← toMilli (ofMilli 0)
        let hi ← toMilli (ofMilli 0)
        return (← packI32 lo) ++ (← packI32 hi)) = _
      rw [toMilli_ofMilli]
      rfl
    exact ⟨.tuple [ofMilli 0, ofMilli 0], _, rfl, joinItems_eq_ok.mpr
      ⟨[.tuple [ofMilli 0, ofMilli 0]], [i32Bytes 0 ++ i32Bytes 0], rfl, .cons hpair .nil, rfl⟩⟩

namespace Session

/-! ## What the guard guarantees -/

/-- A PUBLISH for each writable topic: one item for the arrays, one raw byte for the others. -/
def probeStream : Bytes :=
  bytesLit "EAMAABoAAAAA\rEAUAABoAAAAA\rEAsAABoB\rEA0AABoB\rEBEAABoB\r"

/-- A session in which every writable name holds a sequence of one item. -/
theorem exists_reachable_single : ∃ s : Session, s.Reachable ∧ s.values.get? "ctemprng" = none
    ∧ ∀ tp : Topic, tp.name ∈ writableNames → ∃ x, (s.current tp).truth = .ok true
      ∧ (s.current tp).len = .ok 1 ∧ (s.current tp).iter = .ok [x] := by
  refine ⟨_, ⟨subscribeTopics, [probeStream], _, rfl⟩, rfl, ?_⟩
  rintro ⟨name, address, codec, writable, perCompartment⟩ hname
  have hnames : writableNames = ["cpow", "csettemp", "coolerpow", "batprotlvl", "icepow"] := by
    decide
  rw [hnames] at hname
  simp only [List.mem_cons, List.not_mem_nil, or_false] at hname
  rcases hname with rfl | rfl | rfl | rfl | rfl <;> exact ⟨_, rfl, rfl, rfl⟩

/-- The promise of the allow-list for one first argument: whatever is written, to whatever
compartment, the frame is a SET for a writable address of the table. -/
def GuardsAddress (ref : TopicRef) : Prop :=
  ∀ s : Session, s.Reachable → ∀ value compartment f e,
    s.setFrame ref value compartment = .ok (f, e) →
      f.action = Action.SET.value ∧ WritableAddress f.address ∧ f.address ∉ neverWrite

end Session

/-- The arguments that the guard is good for: names and addresses, and those topic objects
that are refused by name, carry a writable address, or have a codec that encodes nothing. -/
def TopicRef.Guarded : TopicRef → Prop
  | .name _ => True
  | .address _ => True
  | .topic t => t.name ∈ writableNames →
      WritableAddress t.address ∨ t.codec.canWrite t.perCompartment = false

namespace Session

/-- An accepted write to an unguarded topic object exists. -/
theorem exists_setFrame {t : Topic} (hname : t.name ∈ writableNames)
    (hcodec : t.codec.canWrite t.perCompartment = true) :
    ∃ s : Session, s.Reachable ∧ ∃ f e,
      s.setFrame (.topic t) (t.codec.probe t.perCompartment) none = .ok (f, e)
        ∧ f.address = t.address := by
  obtain ⟨s, hs, hrange, hsingle⟩ := exists_reachable_single
  obtain ⟨x, hknown, hlen, hiter⟩ := hsingle t hname
  have hok : assertWritable (.topic t) = .ok t := assertWritable_eq_ok.mpr ⟨rfl, hname⟩
  refine ⟨s, hs, ?_⟩
  cases hper : t.perCompartment with
  | true =>
    rw [hper] at hcodec
    obtain ⟨item, payload, hcoerce, hencode⟩ := exists_array_write hcodec
    have hcheck : s.checkRange 0 item = .ok () := by
      rw [checkRange, hrange]
      rfl
    exact ⟨_, _, setFrame_eq_ok.mpr ⟨t, hok, payload, _,
      .array hper hknown hlen (by decide) hiter hcoerce (fun _ => hcheck) hencode, rfl, rfl⟩, rfl⟩
  | false =>
    rw [hper] at hcodec
    obtain ⟨v, payload, expected, hcoerce, hencode, hdecode⟩ := exists_scalar_write hcodec
    exact ⟨_, _, setFrame_eq_ok.mpr ⟨t, hok, payload, expected,
      .scalar hper (.inl rfl) hcoerce hencode hdecode, rfl, rfl⟩, rfl⟩

/-- Exactly the guarded arguments can only ever produce SET frames for writable addresses. -/
theorem guardsAddress_iff (ref : TopicRef) : GuardsAddress ref ↔ ref.Guarded := by
  constructor
  · intro h
    cases ref with
    | name s => trivial
    | address a => trivial
    | topic t =>
      intro hname
      by_contra hne
      -- in a suitable session the unguarded object is written to its own address
      obtain ⟨haddr, hcodec⟩ := not_or.mp hne
      obtain ⟨s, hs, f, e, hset, hf⟩ := exists_setFrame hname (by simpa using hcodec)
      exact haddr (hf ▸ (h s hs _ _ f e hset).2.1)
  · intro h s _ value compartment f e hset
    obtain ⟨t, ht, payload, expected, hw, rfl, -⟩ := setFrame_eq_ok.mp hset
    obtain ⟨hresolve, hname⟩ := assertWritable_eq_ok.mp ht
    have haddr : WritableAddress t.address := by
      by_cases hobj : ∃ u, ref = .topic u
      · obtain ⟨u, rfl⟩ := hobj
        obtain rfl := Except.ok.inj hresolve
        exact (h hname).resolve_right (by rw [hw.canWrite]; decide)
      · -- a name or an address stands for a row of the table
        have hmem := mem_topics_of_topic hresolve fun u hu => hobj ⟨u, hu⟩
        exact ⟨t, hmem, writable_of_name_mem t hmem hname, rfl⟩
    exact ⟨rfl, haddr, haddr.not_mem_neverWrite⟩

/-- A `Topic` object with the name `coolerpow` and the address of the command word (restart,
factory reset) is accepted. -/
theorem setFrame_command_word :
    ∃ f e, setFrame {} (.topic { name := "coolerpow", address := ⟨0x14, 0, 0, 0⟩, codec := .bool })
        (.bool true) none = .ok (f, e)
      ∧ Reachable {} ∧ f.address ∈ neverWrite ∧ ¬ WritableAddress f.address :=
  ⟨_, _, rfl, ⟨_, [], [], rfl⟩, by decide, by decide⟩

end Session

end Ddmp
