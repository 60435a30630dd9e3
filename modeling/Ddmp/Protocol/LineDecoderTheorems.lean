import Ddmp.Lib.Lines
import Ddmp.Protocol.Frame

/-!
# What the line decoder computes

`reference` is the decoder's purpose, stated on a whole stream: cut it after each CR, strip
the lines, ignore the blank ones, and decode or drop each of the others. `feedLoop_eq` shows
that the consuming loop computes it on the buffer, `feedAll_eq` that feeding chunks computes
it on their concatenation. The second half is the wire round trip: encoded frames are read
back whatever garbage lines stand between them.
-/

namespace Ddmp

open Lib

/-! ## Frames and their bytes -/

theorem bytesOfInts_toNat (bs : Bytes) : bytesOfInts (bs.map fun b => (b.toNat : ℤ)) = .ok bs := by
  induction bs with
  | nil => rfl
  | cons b bs ih =>
    have hb := b.toNat_lt
    have hin : 0 ≤ (b.toNat : ℤ) ∧ (b.toNat : ℤ) < 256 := by omega
    rw [bytesOfInts] at ih ⊢
    rw [List.map_cons, List.mapM_cons, if_pos hin, ih]
    simp [pure, Except.pure, bind, Except.bind]

theorem exists_byte {n : ℤ} (h : 0 ≤ n ∧ n < 256) : ∃ b : UInt8, n = b.toNat := by
  refine ⟨UInt8.ofNat n.toNat, ?_⟩
  rw [UInt8.toNat_ofNat']
  omega

/-- An address whose components fit is that of four bytes. -/
theorem Address.exists_bytes {a : Address} (h : ∀ n ∈ a.toList, 0 ≤ n ∧ n < 256) :
    ∃ p i s c : UInt8, a = ⟨p.toNat, i.toNat, s.toNat, c.toNat⟩ := by
  obtain ⟨p, i, s, c⟩ := a
  simp only [toList, List.mem_cons, List.not_mem_nil, or_false, forall_eq_or_imp, forall_eq] at h
  obtain ⟨hp, hi, hs, hc⟩ := h
  obtain ⟨p, rfl⟩ := exists_byte hp
  obtain ⟨i, rfl⟩ := exists_byte hi
  obtain ⟨s, rfl⟩ := exists_byte hs
  obtain ⟨c, rfl⟩ := exists_byte hc
  exact ⟨p, i, s, c, rfl⟩

namespace Frame

theorem decode_cons (a p i s c : UInt8) (payload : Bytes) :
    decode (a :: p :: i :: s :: c :: payload)
      = .ok { action := a.toNat, address := ⟨p.toNat, i.toNat, s.toNat, c.toNat⟩, payload } := rfl

/-- Byte strings of at least five bytes, taken apart. -/
theorem exists_cons_of_five_le {raw : Bytes} (h : 5 ≤ raw.length) :
    ∃ a p i s c payload, raw = a :: p :: i :: s :: c :: payload := by
  match raw, h with
  | a :: p :: i :: s :: c :: payload, _ => exact ⟨a, p, i, s, c, payload, rfl⟩

/-- `Frame.decode` raises nothing but `DecodeError`, and only on fewer than five bytes. -/
theorem decode_short {raw : Bytes} (h : raw.length < 5) :
    ∃ msg, decode raw = .error (.decodeError msg) := by
  match raw, h with
  | [], _ | [_], _ | [_, _], _ | [_, _, _], _ | [_, _, _, _], _ => exact ⟨_, rfl⟩
  | _ :: _ :: _ :: _ :: _ :: _, h =>
    simp only [List.length_cons] at h
    omega

/-- Encoding a decoded byte string gives it back. -/
theorem encode_of_decode (a p i s c : UInt8) (payload : Bytes) :
    encode { action := a.toNat, address := ⟨p.toNat, i.toNat, s.toNat, c.toNat⟩, payload }
      = .ok (a :: p :: i :: s :: c :: payload) := by
  have haction : bytesOfInts [(a.toNat : ℤ)] = .ok [a] := bytesOfInts_toNat [a]
  have haddress : bytesOfInts [(p.toNat : ℤ), i.toNat, s.toNat, c.toNat] = .ok [p, i, s, c] :=
    bytesOfInts_toNat [p, i, s, c]
  simp only [encode, Address.toBytes, Address.toList, haction, haddress]
  rfl

/-- A frame that fits is one that is decoded from five bytes and its payload. -/
theorem Fits.exists_bytes {f : Frame} (h : f.Fits) : ∃ a p i s c : UInt8,
    f = { action := a.toNat, address := ⟨p.toNat, i.toNat, s.toNat, c.toNat⟩,
          payload := f.payload } := by
  obtain ⟨haction, haddress⟩ := h
  obtain ⟨action, address, payload⟩ := f
  obtain ⟨a, rfl⟩ := exists_byte haction
  obtain ⟨p, i, s, c, rfl⟩ := Address.exists_bytes haddress
  exact ⟨a, p, i, s, c, rfl⟩

/-- The bytes of a frame that fits: at least five, and they decode to the frame. -/
theorem Fits.exists_encode {f : Frame} (h : f.Fits) :
    ∃ raw : Bytes, f.encode = .ok raw ∧ 5 ≤ raw.length ∧ decode raw = .ok f := by
  obtain ⟨a, p, i, s, c, hf⟩ := h.exists_bytes
  refine ⟨a :: p :: i :: s :: c :: f.payload, ?_, ?_, ?_⟩
  · rw [hf]
    exact encode_of_decode a p i s c _
  · simp only [List.length_cons]
    omega
  · rw [decode_cons, ← hf]

end Frame

/-! ## The reference -/

/-- What a stripped line decodes to; `none` when it is dropped. -/
def decodeLine (line : Bytes) : Option Frame :=
  (Base64.decode? line).bind fun raw => (Frame.decode raw).toOption

/-- The complete lines of a stream, stripped, without the blank ones. -/
def nonBlankLines (stream : Bytes) : List Bytes :=
  ((Lines.lines lineTerminator stream).map bytesStrip).filter (· ≠ [])

/-- What decoding a stream yields: frames, number of dropped lines, unterminated tail. -/
structure Decoded where
  frames : List Frame
  dropped : ℕ
  pending : Bytes

/-- The reference: split the whole stream, then decode line by line. -/
def reference (stream : Bytes) : Decoded where
  frames := (nonBlankLines stream).filterMap decodeLine
  dropped := (nonBlankLines stream).countP fun line => (decodeLine line).isNone
  pending := Lines.tail lineTerminator stream

theorem nonBlankLines_append (s t : Bytes) :
    nonBlankLines (s ++ t)
      = nonBlankLines s ++ nonBlankLines (Lines.tail lineTerminator s ++ t) := by
  rw [nonBlankLines, Lines.lines_append, List.map_append, List.filter_append]
  rfl

theorem frames_append (s t : Bytes) : (reference (s ++ t)).frames
    = (reference s).frames ++ (reference ((reference s).pending ++ t)).frames := by
  rw [reference, nonBlankLines_append, List.filterMap_append]
  rfl

theorem dropped_append (s t : Bytes) : (reference (s ++ t)).dropped
    = (reference s).dropped + (reference ((reference s).pending ++ t)).dropped := by
  rw [reference, nonBlankLines_append, List.countP_append]
  rfl

theorem pending_append (s t : Bytes) : (reference (s ++ t)).pending
    = (reference ((reference s).pending ++ t)).pending :=
  Lines.tail_append lineTerminator s t

/-- Every non-blank line yields a frame or is counted. -/
theorem frames_add_dropped (s : Bytes) :
    (reference s).frames.length + (reference s).dropped = (nonBlankLines s).length := by
  show ((nonBlankLines s).filterMap decodeLine).length
      + (nonBlankLines s).countP (fun line => (decodeLine line).isNone) = (nonBlankLines s).length
  induction nonBlankLines s with
  | nil => rfl
  | cons line rest ih =>
    cases h : decodeLine line with
    | none =>
      simp only [List.filterMap_cons, List.countP_cons, List.length_cons, h, Option.isNone_none,
        if_true]
      omega
    | some f =>
      simp only [List.filterMap_cons, List.countP_cons, List.length_cons, h, Option.isNone_some,
        Bool.false_eq_true, if_false]
      omega

namespace LineDecoder

/-! ## The loop computes the reference -/

/-- The treatment of one non-blank line inside the loop. -/
theorem feedLoop_line (fuel : ℕ) (d : LineDecoder) (frames : List Frame) {stop : ℕ}
    (hstop : d.buf.idxOf? lineTerminator = some stop)
    (hline : bytesStrip (d.buf.take stop) ≠ []) :
    feedLoop (fuel + 1) d frames = match decodeLine (bytesStrip (d.buf.take stop)) with
      | some f => feedLoop fuel { d with buf := d.buf.drop (stop + 1) } (frames ++ [f])
      | none => feedLoop fuel
          { buf := d.buf.drop (stop + 1), dropped := d.dropped + 1 } frames := by
  simp only [feedLoop, hstop, if_neg hline, b64decode, decodeLine]
  cases hraw : Base64.decode? (bytesStrip (d.buf.take stop)) with
  | none => rfl
  | some raw =>
    simp only [orRaise, Option.bind_some]
    by_cases hlen : raw.length < 5
    · obtain ⟨msg, hmsg⟩ := Frame.decode_short hlen
      rw [hmsg]
      rfl
    · obtain ⟨a, p, i, s, c, payload, rfl⟩ := Frame.exists_cons_of_five_le (Nat.le_of_not_lt hlen)
      rw [Frame.decode_cons]
      rfl

/-- With enough fuel the loop consumes every complete line of the buffer and adds what the
reference finds in it. -/
theorem feedLoop_eq (fuel : ℕ) (d : LineDecoder) (frames : List Frame)
    (hfuel : d.buf.length < fuel) :
    feedLoop fuel d frames = .ok (frames ++ (reference d.buf).frames,
      { buf := (reference d.buf).pending
        dropped := d.dropped + (reference d.buf).dropped }) := by
  -- every round takes at least the terminator out of the buffer, so the fuel lasts
  induction fuel generalizing d frames with
  | zero => omega
  | succ fuel ih =>
    cases hstop : d.buf.idxOf? lineTerminator with
    | none =>
      obtain ⟨hlines, htail⟩ := Lines.lines_of_idxOf?_eq_none lineTerminator hstop
      simp [feedLoop, hstop, reference, nonBlankLines, hlines, htail]
    | some stop =>
      obtain ⟨hlines, htail⟩ := Lines.lines_of_idxOf?_eq_some lineTerminator hstop
      obtain ⟨hlt, -, -⟩ := List.idxOf?_eq_some_iff.mp hstop
      have hshort : (d.buf.drop (stop + 1)).length < fuel := by
        rw [List.length_drop]
        omega
      by_cases hline : bytesStrip (d.buf.take stop) = []
      · have hblank : nonBlankLines d.buf = nonBlankLines (d.buf.drop (stop + 1)) := by
          simp [nonBlankLines, hlines, hline]
        simp only [feedLoop, hstop, if_pos hline]
        rw [ih _ _ hshort]
        simp [reference, hblank, htail]
      · have hcons : nonBlankLines d.buf
            = bytesStrip (d.buf.take stop) :: nonBlankLines (d.buf.drop (stop + 1)) := by
          simp [nonBlankLines, hlines, hline]
        rw [feedLoop_line fuel d frames hstop hline]
        cases hdec : decodeLine (bytesStrip (d.buf.take stop)) with
        | none =>
          simp only []
          rw [ih _ _ hshort]
          simp only [reference, hcons, htail, List.filterMap_cons, List.countP_cons, hdec,
            Option.isNone_none, if_true]
          rw [Nat.add_assoc, Nat.add_comm 1]
        | some f =>
          simp only []
          rw [ih _ _ hshort]
          simp [reference, hcons, htail, hdec]

/-- One call of `feed`. -/
theorem feed_eq (d : LineDecoder) (data : Bytes) :
    feed d data = .ok ((reference (d.buf ++ data)).frames,
      { buf := (reference (d.buf ++ data)).pending
        dropped := d.dropped + (reference (d.buf ++ data)).dropped }) := by
  rw [feed]
  have := feedLoop_eq ((d.buf ++ data).length + 1) { d with buf := d.buf ++ data } []
    (Nat.lt_succ_self _)
  simpa using this

/-- Feeding chunks from any decoder without a complete line in its buffer. -/
theorem feedAll_eq (chunks : List Bytes) (d : LineDecoder)
    (hd : Lines.tail lineTerminator d.buf = d.buf) :
    ∃ lists, feedAll d chunks = .ok (lists,
        { buf := (reference (d.buf ++ chunks.flatten)).pending
          dropped := d.dropped + (reference (d.buf ++ chunks.flatten)).dropped })
      ∧ lists.flatten = (reference (d.buf ++ chunks.flatten)).frames := by
  induction chunks generalizing d with
  | nil =>
    have hlines := Lines.lines_of_tail_eq lineTerminator hd
    refine ⟨[], ?_, ?_⟩
    · simp [feedAll, reference, nonBlankLines, hlines, hd]
    · simp [reference, nonBlankLines, hlines]
  | cons chunk rest ih =>
    -- what is left after a chunk has no terminator, so the induction goes on from there
    have hpending : Lines.tail lineTerminator (reference (d.buf ++ chunk)).pending
        = (reference (d.buf ++ chunk)).pending := Lines.tail_tail lineTerminator _
    obtain ⟨lists, hrest, hlists⟩ := ih
      { buf := (reference (d.buf ++ chunk)).pending
        dropped := d.dropped + (reference (d.buf ++ chunk)).dropped } hpending
    refine ⟨(reference (d.buf ++ chunk)).frames :: lists, ?_, ?_⟩
    · rw [feedAll, feed_eq]
      simp only [bind, Except.bind, hrest, pure, Except.pure]
      rw [List.flatten_cons, ← List.append_assoc, pending_append (d.buf ++ chunk),
        dropped_append (d.buf ++ chunk), Nat.add_assoc]
    · rw [List.flatten_cons, hlists, List.flatten_cons, ← List.append_assoc,
        frames_append (d.buf ++ chunk)]

/-- Decoding is independent of chunking: feeding chunks to a fresh decoder gives the frames,
the drop count and the pending bytes that the reference finds in their concatenation, and
every non-blank line is a frame or a drop. -/
theorem feedAll_fresh (chunks : List Bytes) :
    ∃ lists d, feedAll {} chunks = .ok (lists, d)
      ∧ lists.flatten = (reference chunks.flatten).frames
      ∧ d.dropped = (reference chunks.flatten).dropped
      ∧ d.pending = (reference chunks.flatten).pending
      ∧ lists.flatten.length + d.dropped = (nonBlankLines chunks.flatten).length := by
  obtain ⟨lists, hall, hlists⟩ := feedAll_eq chunks {} rfl
  rw [List.nil_append] at hall hlists
  refine ⟨lists, _, hall, hlists, Nat.zero_add _, rfl, ?_⟩
  rw [hlists, Nat.zero_add]
  exact frames_add_dropped chunks.flatten

end LineDecoder

/-! ## Round trip over the wire -/

/-- Encoded lines hold no terminator. -/
theorem lineTerminator_not_mem_encode (raw : Bytes) : lineTerminator ∉ Base64.encode raw := by
  intro h
  have := (Base64.mem_encode h).lt
  simp [lineTerminator] at this

/-- Stripping does not change base64 characters. -/
theorem bytesStrip_of_isChar {p : Bytes} (h : ∀ b ∈ p, Base64.IsChar b) : bytesStrip p = p := by
  apply stripBy_eq_self
  intro b hb
  have := (h b hb).lt
  simp only [isByteSpace, Bool.or_eq_false_iff, Bool.and_eq_false_iff, decide_eq_false_iff_not,
    beq_eq_false_iff_ne, ne_eq]
  omega

theorem bytesStrip_encode (raw : Bytes) : bytesStrip (Base64.encode raw) = Base64.encode raw :=
  bytesStrip_of_isChar fun _ => Base64.mem_encode

theorem encode_ne_nil {raw : Bytes} (h : 5 ≤ raw.length) : Base64.encode raw ≠ [] := by
  intro hnil
  have := Base64.length_encode raw
  rw [hnil, List.length_nil] at this
  omega

/-- A line written for a frame is read as that frame. -/
theorem decodeLine_encode {f : Frame} {raw : Bytes} (h : Frame.decode raw = .ok f) :
    decodeLine (Base64.encode raw) = some f := by
  rw [decodeLine, Base64.decode?_encode, Option.bind_some, h]
  rfl

/-- The line written for a frame that fits. -/
theorem Frame.Fits.exists_line {f : Frame} (h : f.Fits) :
    ∃ raw : Bytes, f.encodeLine = .ok (Base64.encode raw ++ [lineTerminator])
      ∧ 5 ≤ raw.length ∧ Frame.decode raw = .ok f := by
  obtain ⟨raw, hraw, hlen, hdec⟩ := h.exists_encode
  refine ⟨raw, ?_, hlen, hdec⟩
  rw [Frame.encodeLine, hraw]
  rfl

/-- The reference reads it as that one frame. -/
theorem Frame.Fits.exists_reference {f : Frame} (h : f.Fits) :
    ∃ line : Bytes, f.encodeLine = .ok line ∧ (reference line).frames = [f] := by
  obtain ⟨raw, hline, hlen, hdec⟩ := h.exists_line
  have hlines := Lines.lines_line lineTerminator (lineTerminator_not_mem_encode raw) []
  refine ⟨_, hline, ?_⟩
  rw [Lines.lines_nil] at hlines
  have hkeep : [Base64.encode raw].filter (· ≠ []) = [Base64.encode raw] :=
    List.filter_cons_of_pos (decide_eq_true (encode_ne_nil hlen))
  rw [reference, nonBlankLines, hlines, List.map_singleton, bytesStrip_encode, hkeep]
  exact List.filterMap_cons_some (decodeLine_encode hdec)

/-- What a peer may write: a frame, or a garbage line that is blank or decodes to nothing. -/
inductive WireItem
  | frame (f : Frame) (fits : f.Fits)
  | garbage (line : Bytes) (unterminated : lineTerminator ∉ line)
      (bad : bytesStrip line = [] ∨ decodeLine (bytesStrip line) = none)

namespace WireItem

/-- The bytes written for an item. -/
def write : WireItem → Except PyErr Bytes
  | frame f _ => f.encodeLine
  | garbage line _ _ => .ok (line ++ [lineTerminator])

/-- The frame of an item. -/
def frame? : WireItem → Option Frame
  | frame f _ => some f
  | garbage .. => none

/-- Whether the item is a garbage line that is not blank. -/
def isDropped : WireItem → Bool
  | frame .. => false
  | garbage line _ _ => bytesStrip line ≠ []

/-- An item is one line; its stripped form is blank, the item's frame, or dropped. -/
theorem exists_line (item : WireItem) : ∃ line : Bytes,
    item.write = .ok (line ++ [lineTerminator]) ∧ lineTerminator ∉ line
      ∧ (bytesStrip line = [] → item.frame? = none ∧ item.isDropped = false)
      ∧ (bytesStrip line ≠ [] → decodeLine (bytesStrip line) = item.frame?
          ∧ item.isDropped = item.frame?.isNone) := by
  cases item with
  | frame f fits =>
    obtain ⟨raw, hline, hlen, hdec⟩ := fits.exists_line
    refine ⟨Base64.encode raw, hline, lineTerminator_not_mem_encode raw, ?_, ?_⟩
    · intro hblank
      rw [bytesStrip_encode] at hblank
      exact absurd hblank (encode_ne_nil hlen)
    · intro _
      rw [bytesStrip_encode, decodeLine_encode hdec]
      exact ⟨rfl, rfl⟩
  | garbage line unterminated bad =>
    refine ⟨line, rfl, unterminated, fun hblank => ⟨rfl, by simp [isDropped, hblank]⟩, ?_⟩
    intro hne
    exact ⟨bad.resolve_left hne, by simp [isDropped, hne, frame?]⟩

/-- The lines of a list of items: what the reference reads off them. -/
theorem exists_lines (items : List WireItem) : ∃ lines : List Bytes,
    items.mapM write = .ok (lines.map (· ++ [lineTerminator]))
      ∧ (∀ line ∈ lines, lineTerminator ∉ line)
      ∧ (((lines.map bytesStrip).filter (· ≠ [])).filterMap decodeLine) = items.filterMap frame?
      ∧ ((lines.map bytesStrip).filter (· ≠ [])).countP (fun line => (decodeLine line).isNone)
          = items.countP isDropped := by
  induction items with
  | nil => exact ⟨[], rfl, by simp, rfl, rfl⟩
  | cons item items ih =>
    obtain ⟨lines, hwrite, hmem, hframes, hdropped⟩ := ih
    obtain ⟨line, hitem, hline, hblank, hfull⟩ := item.exists_line
    refine ⟨line :: lines, ?_, ?_, ?_, ?_⟩
    · rw [List.mapM_cons, hitem, hwrite]
      rfl
    · intro l hl
      rcases List.mem_cons.mp hl with rfl | hl
      · exact hline
      · exact hmem l hl
    · rw [List.filterMap_cons, ← hframes, List.map_cons]
      by_cases hstrip : bytesStrip line = []
      · simp [hstrip, (hblank hstrip).1]
      · obtain ⟨hdec, -⟩ := hfull hstrip
        cases hf : item.frame? <;> simp [hstrip, hdec, hf]
    · rw [List.countP_cons, ← hdropped, List.map_cons]
      by_cases hstrip : bytesStrip line = []
      · simp [hstrip, (hblank hstrip).2]
      · obtain ⟨hdec, hdrop⟩ := hfull hstrip
        cases hf : item.frame? <;> simp [hstrip, hdec, hdrop, hf]

/-- Items written one after another and cut into chunks in any way are read back: exactly
the frames, in order, with every non-blank garbage line counted and nothing left over. And
the bytes of any decodable frame are what encoding it gives. -/
theorem feedAll_items (items : List WireItem) :
    (∃ pieces, items.mapM write = .ok pieces
      ∧ ∀ chunks : List Bytes, chunks.flatten = pieces.flatten →
        ∃ lists d, LineDecoder.feedAll {} chunks = .ok (lists, d)
          ∧ lists.flatten = items.filterMap frame?
          ∧ d.pending = [] ∧ d.dropped = items.countP isDropped)
    ∧ ∀ raw : Bytes, 5 ≤ raw.length → ∃ f, Frame.decode raw = .ok f ∧ f.encode = .ok raw := by
  constructor
  · obtain ⟨lines, hwrite, hmem, hframes, hdropped⟩ := exists_lines items
    refine ⟨_, hwrite, fun chunks hchunks => ?_⟩
    obtain ⟨lists, hall, hlists⟩ := LineDecoder.feedAll_eq chunks {} rfl
    -- the stream splits into the lines it was made of, with nothing behind the last
    have hlines := Lines.lines_flatten lineTerminator hmem (t := []) List.not_mem_nil
    have htail := Lines.tail_flatten lineTerminator hmem (t := []) List.not_mem_nil
    rw [List.append_nil, ← hchunks] at hlines htail
    rw [List.nil_append] at hall hlists
    refine ⟨lists, _, hall, ?_, htail, ?_⟩
    · rw [hlists, ← hframes, reference, nonBlankLines, hlines]
    · rw [Nat.zero_add, ← hdropped, reference, nonBlankLines, hlines]
  · intro raw hraw
    obtain ⟨a, p, i, s, c, payload, rfl⟩ := Frame.exists_cons_of_five_le hraw
    exact ⟨_, Frame.decode_cons a p i s c payload, Frame.encode_of_decode a p i s c payload⟩

end WireItem

end Ddmp
