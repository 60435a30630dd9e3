import Ddmp.Protocol.RoundTripTheorems
import Ddmp.Session.HistoryTheorems

/-!
# Publishing what was decoded

A value that some payload of a topic decodes to can be published again: `publish_frame`
accepts it, and a session that reads the line gives one event, with the value.
-/

namespace Ddmp

open Lib

/-- The frames for the addresses of the table fit their bytes. -/
theorem fits_publish {t : Topic} (ht : t ∈ topics) (payload : Bytes) :
    Frame.Fits ⟨Action.PUBLISH.value, t.address, payload⟩ := by
  have haction : 0 ≤ Action.PUBLISH.value ∧ Action.PUBLISH.value < 256 := by decide
  have hall : ∀ t ∈ topics, ∀ n ∈ t.address.toList, 0 ≤ n ∧ n < 256 := by decide
  exact ⟨haction, hall t ht⟩

/-- The event of a PUBLISH for a topic of the table. -/
theorem eventOf_publish {t : Topic} (ht : t ∈ topics) {payload : Bytes} {v : Value}
    (hdecode : t.codec.decode payload = .ok v) :
    eventOf ⟨Action.PUBLISH.value, t.address, payload⟩
      = .publish t.address (some t) v payload := by
  have hpub : Frame.IsPublish ⟨Action.PUBLISH.value, t.address, payload⟩ := rfl
  rw [eventOf, if_pos hpub, topicByAddress_self ht, ← t.stored_of_decode hdecode]

/-- Every value that a topic has decoded is encoded again, decodes to the same, and is read
back as one event from the line published for it. -/
theorem publishFrame_decoded {t : Topic} (ht : t ∈ topics) {payload : Bytes} {v : Value}
    (hdecode : t.codec.decode payload = .ok v) :
    ∃ again, t.codec.encode v = .ok again ∧ t.codec.decode again = .ok v
      ∧ ∃ f line, publishFrame (.topic t) v = .ok f ∧ f.encodeLine = .ok line
        ∧ ∀ s : Session, s.decoder.pending = [] →
          ∃ s', s.feed line = .ok ([.publish t.address (some t) v again], s') := by
  obtain ⟨again, hencode, hagain⟩ := (Codec.decoded_of_decode hdecode).roundTrips
  obtain ⟨line, hline, hframes⟩ := (fits_publish ht again).exists_reference
  refine ⟨again, hencode, hagain, ⟨Action.PUBLISH.value, t.address, again⟩, line, ?_, hline, ?_⟩
  · rw [publishFrame, topic, Fallible.ok_bind, hencode]
    rfl
  · intro s hpending
    have hbuf : s.decoder.buf = [] := hpending
    rw [s.feed_eq line, hbuf, List.nil_append, hframes, List.map_singleton,
      eventOf_publish ht hagain]
    exact ⟨_, rfl⟩

/-- The product name, published with a NUL and blanks around it. -/
theorem publishFrame_decoded_name :
    ∃ again, Codec.str.encode (.str "CFX") = .ok again
      ∧ Codec.str.decode again = .ok (.str "CFX") := by
  have hmem : ⟨"product_name", prod 0x01, .str, false, false⟩ ∈ topics := by decide
  have hdecode : Codec.str.decode [32, 67, 70, 88, 32, 0, 65] = .ok (.str "CFX") := by
    rfl
  obtain ⟨again, hencode, hagain, -⟩ := publishFrame_decoded hmem hdecode
  exact ⟨again, hencode, hagain⟩

end Ddmp
