import Ddmp.Lib.Fallible
import Ddmp.Protocol.LineDecoderTheorems

/-!
# Streams of whole lines

A stream carries frames when it consists of their lines. Then a decoder reads these frames and
drops nothing, and from a part of the stream it reads the first ones.
-/

namespace Ddmp

open Lib Lib.Fallible

/-! ## Lines that could be written -/

/-- Integers that have become bytes were in range. -/
theorem fits_of_bytesOfInts {ns : List ℤ} {bs : Bytes} (h : bytesOfInts ns = .ok bs) :
    ∀ n ∈ ns, 0 ≤ n ∧ n < 256 := by
  have hrel := mapM_eq_ok.mp h
  clear h
  induction hrel with
  | nil => simp
  | @cons n b ns bs hn _ ih =>
    have hfit : 0 ≤ n ∧ n < 256 := by
      by_contra hne
      rw [if_neg hne] at hn
      exact nomatch hn
    intro m hm
    rcases List.mem_cons.mp hm with rfl | hm
    · exact hfit
    · exact ih m hm

/-- A frame that is encoded fits. -/
theorem Frame.fits_of_encodeLine {f : Frame} {line : Bytes} (h : f.encodeLine = .ok line) :
    f.Fits := by
  obtain ⟨raw, hraw, -⟩ := bind_eq_ok.mp h
  obtain ⟨action, haction, hraw⟩ := bind_eq_ok.mp hraw
  obtain ⟨address, haddress, -⟩ := bind_eq_ok.mp hraw
  exact ⟨fits_of_bytesOfInts haction f.action List.mem_cons_self, fits_of_bytesOfInts haddress⟩

/-- The line of a frame: base64 of bytes that decode to it, and the terminator. -/
theorem Frame.exists_line_of_encodeLine {f : Frame} {line : Bytes} (h : f.encodeLine = .ok line) :
    ∃ raw : Bytes, line = Base64.encode raw ++ [lineTerminator] ∧ 5 ≤ raw.length
      ∧ Frame.decode raw = .ok f := by
  obtain ⟨raw, hline, hlen, hdec⟩ := (Frame.fits_of_encodeLine h).exists_line
  exact ⟨raw, Except.ok.inj (h.symm.trans hline), hlen, hdec⟩

/-- A frame that was decoded fits. -/
theorem Frame.fits_of_decode {f : Frame} {raw : Bytes} (h : decode raw = .ok f) : f.Fits := by
  have hlen : 5 ≤ raw.length := by
    by_contra hshort
    obtain ⟨msg, hmsg⟩ := decode_short (Nat.lt_of_not_le hshort)
    exact nomatch hmsg.symm.trans h
  obtain ⟨a, p, i, s, c, payload, rfl⟩ := exists_cons_of_five_le hlen
  rw [decode_cons] at h
  have hencode := encode_of_decode a p i s c payload
  rw [Except.ok.inj h] at hencode
  have hline : f.encodeLine
      = .ok (Base64.encode (a :: p :: i :: s :: c :: payload) ++ [lineTerminator]) := by
    rw [encodeLine, hencode]
    rfl
  exact fits_of_encodeLine hline

theorem Action.fits (action : Action) : 0 ≤ action.value ∧ action.value < 256 := by
  cases action <;> decide

/-! ## Carried frames -/

/-- The stream is made of the lines of these frames. -/
def Carries (stream : Bytes) (frames : List Frame) : Prop :=
  ∃ lines, frames.mapM Frame.encodeLine = .ok lines ∧ lines.flatten = stream

theorem carries_nil : Carries [] [] := ⟨[], rfl, rfl⟩

theorem Carries.append {s t : Bytes} {fs gs : List Frame} (hs : Carries s fs)
    (ht : Carries t gs) : Carries (s ++ t) (fs ++ gs) := by
  obtain ⟨ls, hls, rfl⟩ := hs
  obtain ⟨lt, hlt, rfl⟩ := ht
  refine ⟨ls ++ lt, ?_, List.flatten_append⟩
  rw [mapM_eq_ok] at hls hlt ⊢
  exact List.rel_append hls hlt

theorem carries_line {f : Frame} {line : Bytes} (h : f.encodeLine = .ok line) :
    Carries line [f] := by
  refine ⟨[line], ?_, List.flatten_singleton⟩
  rw [mapM_eq_ok]
  exact .cons h .nil

/-- Carried frames fit. -/
theorem Carries.fits {stream : Bytes} {frames : List Frame} (h : Carries stream frames) :
    ∀ f ∈ frames, f.Fits := by
  obtain ⟨lines, hlines, -⟩ := h
  have hrel := mapM_eq_ok.mp hlines
  clear hlines
  induction hrel with
  | nil => exact fun _ hf => absurd hf List.not_mem_nil
  | cons hline _ ih => exact List.forall_mem_cons.mpr ⟨Frame.fits_of_encodeLine hline, ih⟩

/-- The reference reads a line as its frame. -/
theorem Frame.reference_of_encodeLine {f : Frame} {line : Bytes} (h : f.encodeLine = .ok line) :
    (reference line).frames = [f] ∧ (reference line).dropped = 0
      ∧ (reference line).pending = [] := by
  obtain ⟨raw, rfl, hlen, hdec⟩ := f.exists_line_of_encodeLine h
  have hmem := lineTerminator_not_mem_encode raw
  have hlines := Lines.lines_line lineTerminator hmem []
  have hkeep : [Base64.encode raw].filter (· ≠ []) = [Base64.encode raw] :=
    List.filter_cons_of_pos (decide_eq_true (encode_ne_nil hlen))
  have hnonBlank : nonBlankLines (Base64.encode raw ++ [lineTerminator])
      = [Base64.encode raw] := by
    rw [Lines.lines_nil] at hlines
    rw [nonBlankLines, hlines, List.map_singleton, bytesStrip_encode, hkeep]
  refine ⟨?_, ?_, Lines.tail_line lineTerminator hmem []⟩
  · rw [reference, hnonBlank]
    exact List.filterMap_cons_some (decodeLine_encode hdec)
  · rw [reference, hnonBlank, List.countP_singleton, decodeLine_encode hdec]
    rfl

/-- The reference reads the frames that a stream carries, and nothing else. -/
theorem Carries.reference {stream : Bytes} {frames : List Frame} (h : Carries stream frames) :
    (reference stream).frames = frames ∧ (reference stream).dropped = 0
      ∧ (reference stream).pending = [] := by
  obtain ⟨lines, hlines, rfl⟩ := h
  have hrel := mapM_eq_ok.mp hlines
  clear hlines
  induction hrel with
  | nil => exact ⟨rfl, rfl, rfl⟩
  | @cons f line frames lines hline _ ih =>
    obtain ⟨hframes, hdropped, hpending⟩ := f.reference_of_encodeLine hline
    obtain ⟨ihframes, ihdropped, ihpending⟩ := ih
    rw [List.flatten_cons, frames_append, dropped_append, pending_append, hframes, hdropped,
      hpending, List.nil_append, ihframes, ihdropped, ihpending]
    exact ⟨rfl, rfl, rfl⟩

/-- From a part of a carried stream the reference reads the first frames, and drops nothing. -/
theorem Carries.reference_prefix {part stream : Bytes} {frames : List Frame}
    (h : Carries stream frames) (hpart : part <+: stream) :
    (Ddmp.reference part).frames <+: frames ∧ (Ddmp.reference part).dropped = 0 := by
  obtain ⟨rest, rfl⟩ := hpart
  obtain ⟨hframes, hdropped, -⟩ := h.reference
  rw [frames_append] at hframes
  rw [dropped_append] at hdropped
  exact ⟨⟨_, hframes⟩, (Nat.add_eq_zero_iff.mp hdropped).1⟩

/-- A decoder reads the frames that a stream carries, however it is cut. -/
theorem Carries.feedAll {stream : Bytes} {frames : List Frame} (h : Carries stream frames)
    {chunks : List Bytes} (hchunks : chunks.flatten = stream) :
    ∃ lists, LineDecoder.feedAll {} chunks = .ok (lists, {}) ∧ lists.flatten = frames := by
  obtain ⟨hframes, hdropped, hpending⟩ := h.reference
  obtain ⟨lists, hall, hlists⟩ := LineDecoder.feedAll_eq chunks {} rfl
  rw [List.nil_append, hchunks, hpending, hdropped] at hall
  rw [List.nil_append, hchunks, hframes] at hlists
  exact ⟨lists, hall, hlists⟩

/-! ## A decoder in the middle of a stream -/

/-- The decoder has read this much of a stream. -/
structure Decodes (stream : Bytes) (d : LineDecoder) : Prop where
  buf : d.buf = (reference stream).pending
  dropped : d.dropped = (reference stream).dropped

theorem decodes_nil : Decodes [] {} := ⟨rfl, rfl⟩

/-- The next bytes bring the frames that the stream read so far does not have. -/
theorem Decodes.next {stream : Bytes} {d : LineDecoder} (h : Decodes stream d) (data : Bytes) :
    (reference (stream ++ data)).frames
        = (reference stream).frames ++ (reference (d.buf ++ data)).frames
      ∧ Decodes (stream ++ data)
        { buf := (reference (d.buf ++ data)).pending
          dropped := d.dropped + (reference (d.buf ++ data)).dropped } := by
  rw [h.buf, h.dropped]
  exact ⟨frames_append stream data, (pending_append stream data).symm,
    (dropped_append stream data).symm⟩

end Ddmp
