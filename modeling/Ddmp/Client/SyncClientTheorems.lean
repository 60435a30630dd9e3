import Ddmp.Client.SyncClient
import Ddmp.Protocol.StreamTheorems
import Ddmp.Protocol.Topics

/-!
# What the cooler reads

A failing `sendall` may leave a part of a line in the stream, and `send` does not keep the
client from writing the next line behind it. The joined line is dropped by the peer as long as
it is no valid base64: `decoded_sublist` says for which runs that is so. Whether pads behind
whole groups are valid depends on the interpreter, so it says it for both readers.
-/

namespace Ddmp

open Lib Lib.Fallible

/-! ## One line behind the remains of others -/

/-- The bytes after the last terminator cannot be the beginning of a valid line that `line`
completes: with a `=` in them, or with a number that leaves the characters of the joined line
in no whole groups, whether or not its pads are counted. -/
def Harmless (pending line : Bytes) : Prop :=
  pending = [] ∨ Base64.pad ∈ pending
    ∨ pending.length % 4 ≠ 0 ∧ pending.length % 4 ≠ line.count Base64.pad

/-- A reader that passes over pads behind whole groups reads every line of the stream as the
strict one does. -/
def Unambiguous (stream : Bytes) : Prop :=
  ∀ line ∈ nonBlankLines stream, Base64.decodeExcess? line = Base64.decode? line

/-- What a line behind harmless remains decodes to: the frame, or nothing. Both readers agree. -/
theorem decodeLine_behind {pending raw : Bytes} {f : Frame}
    (hpending : Harmless pending (Base64.encode raw ++ [lineTerminator])) (hlen : 5 ≤ raw.length)
    (hdec : Frame.decode raw = .ok f) :
    (decodeLine (pending ++ Base64.encode raw) = none
        ∨ decodeLine (pending ++ Base64.encode raw) = some f)
      ∧ Base64.decodeExcess? (pending ++ Base64.encode raw)
        = Base64.decode? (pending ++ Base64.encode raw) := by
  have hcount : (Base64.encode raw ++ [lineTerminator]).count Base64.pad
      = (Base64.encode raw).count Base64.pad := by
    rw [List.count_append]
    rfl
  rw [Harmless, hcount] at hpending
  rcases hpending with rfl | hspoilt
  · have hread := Base64.decode?_encode raw
    refine ⟨.inr (decodeLine_encode hdec), ?_⟩
    rw [List.nil_append, hread, Base64.decodeExcess?_of_decode? hread]
  · -- the joined line is base64 for neither reader
    have hne : raw ≠ [] := List.ne_nil_of_length_pos (by omega)
    obtain ⟨hstrict, hexcess⟩ := Base64.decodeExcess?_append hne hspoilt
    refine ⟨.inl ?_, hexcess.trans hstrict.symm⟩
    rw [decodeLine, hstrict]
    rfl

/-- Text without a terminator adds to the pending bytes only. -/
theorem reference_of_not_mem {p : Bytes} (h : lineTerminator ∉ p) :
    nonBlankLines p = [] ∧ (reference p).pending = p := by
  refine ⟨?_, Lines.tail_of_not_mem lineTerminator h⟩
  rw [nonBlankLines, Lines.lines_of_not_mem lineTerminator h]
  rfl

/-- Characters that are not blank and end in a terminator are one line. -/
theorem reference_line {p : Bytes} (hchars : ∀ b ∈ p, Base64.IsChar b) (hne : p ≠ []) :
    nonBlankLines (p ++ [lineTerminator]) = [p]
      ∧ (reference (p ++ [lineTerminator])).pending = [] := by
  have hmem : lineTerminator ∉ p := by
    intro h
    have := (hchars _ h).lt
    simp [lineTerminator] at this
  have hlines : Lines.lines lineTerminator (p ++ [lineTerminator]) = [p] :=
    Lines.lines_line lineTerminator hmem []
  have hstrip : bytesStrip p = p := bytesStrip_of_isChar hchars
  refine ⟨?_, Lines.tail_line lineTerminator hmem []⟩
  rw [nonBlankLines, hlines]
  simp [hstrip, hne]

/-- Base64 text behind base64 remains is pending with them. -/
theorem reference_append_part {stream part : Bytes}
    (hchars : ∀ b ∈ (reference stream).pending ++ part, Base64.IsChar b) :
    nonBlankLines (stream ++ part) = nonBlankLines stream
      ∧ (reference (stream ++ part)).pending = (reference stream).pending ++ part := by
  have hmem : lineTerminator ∉ (reference stream).pending ++ part := by
    intro hcr
    have := (hchars _ hcr).lt
    simp [lineTerminator] at this
  obtain ⟨hlines, hpending⟩ := reference_of_not_mem hmem
  refine ⟨?_, by rw [pending_append, hpending]⟩
  rw [nonBlankLines_append]
  exact (congrArg (nonBlankLines stream ++ ·) hlines).trans (List.append_nil _)

/-- A line completed behind harmless remains leaves nothing pending, and it is read as its
frame or not at all, by either reader. -/
theorem reference_append_line {stream raw : Bytes} {f : Frame}
    (hchars : ∀ b ∈ (reference stream).pending ++ Base64.encode raw, Base64.IsChar b)
    (hharmless : Harmless (reference stream).pending (Base64.encode raw ++ [lineTerminator]))
    (hlen : 5 ≤ raw.length) (hdec : Frame.decode raw = .ok f) (hstream : Unambiguous stream) :
    (reference (stream ++ (Base64.encode raw ++ [lineTerminator]))).pending = []
      ∧ (reference (stream ++ (Base64.encode raw ++ [lineTerminator]))).frames.Sublist
        ((reference stream).frames ++ [f])
      ∧ Unambiguous (stream ++ (Base64.encode raw ++ [lineTerminator])) := by
  have hne : (reference stream).pending ++ Base64.encode raw ≠ [] := fun hnil =>
    encode_ne_nil hlen (List.append_eq_nil_iff.mp hnil).2
  -- the remains and the encoding are one line of the stream, behind those before
  obtain ⟨hlast, hpending⟩ := reference_line hchars hne
  rw [List.append_assoc] at hlast hpending
  have hlines : nonBlankLines (stream ++ (Base64.encode raw ++ [lineTerminator]))
      = nonBlankLines stream ++ [(reference stream).pending ++ Base64.encode raw] :=
    (nonBlankLines_append _ _).trans (congrArg _ hlast)
  obtain ⟨hread, hagree⟩ := decodeLine_behind hharmless hlen hdec
  refine ⟨by rw [pending_append, hpending], ?_, ?_⟩
  · rw [reference, hlines, List.filterMap_append]
    refine (List.Sublist.refl _).append ?_
    rcases hread with hnone | hsome
    · rw [List.filterMap_cons_none hnone]
      exact List.nil_sublist _
    · rw [List.filterMap_cons_some hsome]
      exact List.Sublist.refl _
  · intro line hline
    rw [hlines] at hline
    rcases List.mem_append.mp hline with hline | hline
    · exact hstream line hline
    · rw [List.mem_singleton.mp hline]
      exact hagree

namespace Connection

/-- What holds of a connection whose sends have all been safe: the remains are base64, the
frames read are among those passed, in order, and both readers read them. -/
structure Inv (s : Connection) : Prop where
  chars : ∀ b ∈ (reference s.stream).pending, Base64.IsChar b
  frames : (reference s.stream).frames.Sublist s.passed
  unambiguous : Unambiguous s.stream

/-- A line is completed only behind harmless remains. -/
def Safe (s : Connection) : Act → Prop
  | .send frame outcome => s.client.connected = true →
      ∀ line, frame.encodeLine = .ok line → outcome.written line = line →
        Harmless (reference s.stream).pending line
  | .setClosed => True

/-- What one call of `send` adds to the stream: nothing, or a line or a part of it. -/
theorem stream_send (c : SyncClient) (frame : Frame) (outcome : SendAll) :
    (c.send frame outcome).2.sock = c.sock
      ∨ c.connected = true ∧ ∃ line, frame.encodeLine = .ok line
        ∧ (c.send frame outcome).2.sock = some (c.sock.getD [] ++ outcome.written line) := by
  obtain ⟨host, port, sock, closed⟩ := c
  cases sock with
  | none => exact .inl rfl
  | some written =>
    cases closed with
    | true => exact .inl rfl
    | false =>
      cases hline : frame.encodeLine with
      | error e => exact .inl (by rw [SyncClient.send]; simp only [hline])
      | ok line =>
        refine .inr ⟨rfl, line, rfl, ?_⟩
        rw [SyncClient.send]
        simp only [hline]
        cases outcome <;> rfl

/-- A written part of a line that is not the whole line is a part of its base64 text. -/
theorem written_of_ne {text : Bytes} {outcome : SendAll}
    (h : outcome.written (text ++ [lineTerminator]) ≠ text ++ [lineTerminator]) :
    ∃ n, outcome.written (text ++ [lineTerminator]) = text.take n := by
  cases outcome with
  | done => exact absurd rfl h
  | fails n reason =>
    refine ⟨n, ?_⟩
    have hn : n ≤ text.length := by
      by_contra hlt
      refine h (List.take_of_length_le ?_)
      rw [List.length_append, List.length_singleton]
      omega
    exact List.take_append_of_le_length hn

theorem Inv.chars_append {s : Connection} (hs : s.Inv) {part raw : Bytes}
    (hpart : part ⊆ Base64.encode raw) :
    ∀ b ∈ (reference s.stream).pending ++ part, Base64.IsChar b := by
  intro b hb
  rcases List.mem_append.mp hb with hb | hb
  · exact hs.chars b hb
  · exact Base64.mem_encode (hpart hb)

theorem step_inv {s s' : Connection} {act : Act} (hs : s.Inv) (hsafe : s.Safe act)
    (h : step s act = some s') : s'.Inv := by
  cases act with
  | setClosed =>
    rw [← Option.some.inj h]
    exact ⟨hs.chars, hs.frames, hs.unambiguous⟩
  | send frame outcome =>
    rw [← Option.some.inj h]
    rcases stream_send s.client frame outcome with hsock | ⟨hconn, line, hline, hsock⟩
    -- nothing is written
    · have hstream : (s.send frame outcome).stream = s.stream := by
        rw [stream, stream, send, hsock]
      constructor
      · rw [hstream]
        exact hs.chars
      · rw [hstream]
        exact hs.frames.trans (List.sublist_append_left _ _)
      · rw [hstream]
        exact hs.unambiguous
    · obtain ⟨raw, rfl, hlen, hdec⟩ := Frame.exists_line_of_encodeLine hline
      have hstream : (s.send frame outcome).stream
          = s.stream ++ outcome.written (Base64.encode raw ++ [lineTerminator]) := by
        rw [stream, send, hsock]
        rfl
      by_cases hwhole : outcome.written (Base64.encode raw ++ [lineTerminator])
          = Base64.encode raw ++ [lineTerminator]
      · -- the line is completed
        have hchars := hs.chars_append (List.Subset.refl (Base64.encode raw))
        obtain ⟨hpending, hframes, hunambiguous⟩ := reference_append_line hchars
          (hsafe hconn _ hline hwhole) hlen hdec hs.unambiguous
        constructor
        · rw [hstream, hwhole, hpending]
          exact fun b hb => absurd hb List.not_mem_nil
        · rw [hstream, hwhole]
          exact hframes.trans (hs.frames.append (List.Sublist.refl _))
        · rw [hstream, hwhole]
          exact hunambiguous
      · -- a part of the line is left behind
        obtain ⟨n, hpart⟩ := written_of_ne hwhole
        have hchars := hs.chars_append (List.take_subset n (Base64.encode raw))
        obtain ⟨hlines, hpending⟩ := reference_append_part hchars
        constructor
        · rw [hstream, hpart, hpending]
          exact hchars
        · rw [hstream, hpart, reference, hlines]
          exact hs.frames.trans (List.sublist_append_left _ _)
        · rw [hstream, hpart, Unambiguous, hlines]
          exact hs.unambiguous

theorem inv_opened (host : String) : (opened host).Inv where
  chars := fun _ hb => absurd hb List.not_mem_nil
  frames := List.Sublist.refl _
  unambiguous := fun _ hline => absurd hline List.not_mem_nil

/-- In a run in which every line is completed behind harmless remains, whatever the network
does otherwise, the frames that the peer decodes from the stream, in whatever chunks it reads
it, are among those passed to `send`, in call order. A peer whose interpreter passes over pads
behind whole groups decodes the same, line by line. -/
theorem decoded_sublist {host : String} {acts : List Act} {s : Connection}
    (hrun : Machine.run step (opened host) acts = some s)
    (hsafe : Machine.Along step Safe (opened host) acts) {chunks : List Bytes}
    (hchunks : chunks.flatten = s.stream) :
    ∃ lists d, LineDecoder.feedAll {} chunks = .ok (lists, d)
      ∧ lists.flatten.Sublist s.passed ∧ Unambiguous s.stream := by
  have hinv : s.Inv := Machine.run_preserves_along
    (fun _ _ _ hs hsafe hstep => step_inv hs hsafe hstep) hrun hsafe (inv_opened host)
  obtain ⟨lists, hall, hlists⟩ := LineDecoder.feedAll_eq chunks {} rfl
  refine ⟨lists, _, hall, ?_, hinv.unambiguous⟩
  rw [hlists, List.nil_append, hchunks]
  exact hinv.frames

/-- A SUBSCRIBE for `ctemp`. -/
def subscribeCtemp : Frame := { action := Action.SUBSCRIBE.value, address := mccc 0x04 }

/-- A send that fails after three characters, and a second attempt. -/
theorem decoded_sublist_after_three :
    ∃ lists d, LineDecoder.feedAll {} [bytesLit "EgQEgQAABo=\r"] = .ok (lists, d)
      ∧ lists.flatten.Sublist [subscribeCtemp, subscribeCtemp]
      ∧ Unambiguous (bytesLit "EgQEgQAABo=\r") := by
  let first : Act := .send subscribeCtemp (.fails 3 "timed out")
  let second : Act := .send subscribeCtemp .done
  have hrun : Machine.run step (opened "cooler") [first, second]
      = some (((opened "cooler").send subscribeCtemp (.fails 3 "timed out")).send
          subscribeCtemp .done) := rfl
  have hsafe : Machine.Along step Safe (opened "cooler") [first, second] := by
    -- the second line is completed behind three characters and has one pad
    refine ⟨fun _ _ _ _ => .inl rfl,
      fun s' hs' => ⟨fun _ line hline _ => .inr (.inr ?_), fun _ _ => trivial⟩⟩
    rw [← Option.some.inj hs', ← Except.ok.inj hline]
    decide
  exact decoded_sublist hrun hsafe rfl

/-- When the first attempt fails after four characters, `send` raises but the client stays
connected, and the second attempt makes the peer read a frame that was never sent. -/
theorem foreign_frame_after_four :
    ((opened "cooler").client.send subscribeCtemp (.fails 4 "timed out")).1
        = .error (.connectionClosed [.lit "timed out"])
      ∧ Machine.run step (opened "cooler")
          [.send subscribeCtemp (.fails 4 "timed out"), .send subscribeCtemp .done]
        = some (((opened "cooler").send subscribeCtemp (.fails 4 "timed out")).send
            subscribeCtemp .done)
      ∧ (((opened "cooler").send subscribeCtemp (.fails 4 "timed out")).send
          subscribeCtemp .done).stream = bytesLit "EgQAEgQAABo=\r"
      ∧ ∃ d, LineDecoder.feedAll {} [bytesLit "EgQAEgQAABo=\r"]
          = .ok ([[{ action := 0x12, address := ⟨0x04, 0, 0x12, 0x04⟩, payload := [0, 0, 0x1A] }]], d)
        ∧ ¬ ({ action := 0x12, address := ⟨0x04, 0, 0x12, 0x04⟩, payload := [0, 0, 0x1A] } : Frame)
            ∈ [subscribeCtemp, subscribeCtemp] :=
  ⟨rfl, rfl, rfl, _, rfl, by decide⟩

end Connection

end Ddmp
