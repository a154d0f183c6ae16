import FeedMux.Shred.Duplicates
import FeedMux.Shred.Layout

/-!
# Arbitrary packets (`src/shred/parse.rs`, `src/shred/reassembly.rs`)

Cutting a packet behind its headers and its declared size changes nothing for
the parser (`accepted_take`), so two packets that agree up to there are parsed
alike. A data-complete shred that is accepted always completes its set.
-/

namespace FeedMux.Shred
open FeedMux.Library

/-! ## Cut packets -/

section
variable {packet : Bytes} {n : Nat}

theorem field_take {lo hi : Nat} (h : hi ≤ n) :
    field (packet.take n) lo hi = field packet lo hi := by
  unfold field
  rw [List.take_take, Nat.min_eq_left h]

theorem declaredSize_take (h : sizeOfDataHeaders ≤ n) :
    declaredSize (packet.take n) = declaredSize packet := by
  have h88 : 88 ≤ n := h
  unfold declaredSize
  rw [field_take h88]

theorem getD_take {i : Nat} (h : i < n) : (packet.take n).getD i 0 = packet.getD i 0 := by
  rw [List.getD_eq_getElem?_getD, List.getD_eq_getElem?_getD, List.getElem?_take_of_lt h]

/-- Behind the declared size nothing is decoded. -/
theorem decodeShred_take (h : sizeOfDataHeaders ≤ n) (hd : declaredSize packet ≤ n) :
    decodeShred (packet.take n) = decodeShred packet := by
  have h88 : 88 ≤ n := h
  have hend := payloadEnd_le (declaredSize packet)
  unfold decodeShred flagsByte
  rw [field_take (by omega), field_take (by omega), field_take (by omega), getD_take (by omega),
    declaredSize_take h, List.take_take, Nat.min_eq_left (hend.trans hd)]

theorem wellFormed_take (h : sizeOfDataHeaders ≤ n) :
    WellFormed (packet.take n) ↔ WellFormed packet ∧ declaredSize packet ≤ n := by
  unfold WellFormed
  rw [declaredSize_take h, List.length_take]
  omega

theorem accepted_take (h : sizeOfDataHeaders ≤ n) (hd : declaredSize packet ≤ n) :
    accepted (packet.take n) = accepted packet := by
  have h88 : 88 ≤ n := h
  have hvariant : variantByte (packet.take n) = variantByte packet := getD_take (by omega)
  unfold accepted
  simp only [wellFormed_take h, decodeShred_take h hd, hvariant, hd, and_true]

end

/-- Packets that declare one size and agree up to there are parsed alike. -/
theorem accepted_congr {packet other : Bytes} (hd : declaredSize other = declaredSize packet)
    (ht : other.take (declaredSize packet) = packet.take (declaredSize packet)) :
    accepted other = accepted packet := by
  by_cases h : sizeOfDataHeaders ≤ declaredSize packet
  · rw [← accepted_take h (le_refl _), ← ht, accepted_take h (le_of_eq hd)]
  · have hnone {p : Bytes} (hp : ¬ sizeOfDataHeaders < declaredSize p) : accepted p = none :=
      if_neg fun hw => hp hw.1.2.1
    rw [hnone (by omega), hnone (by omega)]

/-- The payload is what stands between the headers and the proof. -/
theorem accepted_payload {packet : Bytes} {shred : ParsedDataShred}
    (h : accepted packet = some shred) :
    ∃ len, 0 < len ∧ sizeOfDataHeaders + len ≤ declaredSize packet ∧
      declaredSize packet ≤ packet.length ∧ shred.payload.length = len ∧
      shred.payload = (packet.drop sizeOfDataHeaders).take len := by
  obtain ⟨hw, -, rfl⟩ := accepted_eq_some.mp h
  have hlt := lt_payloadEnd hw.2.1
  have hle := payloadEnd_le (declaredSize packet)
  have hlen := hw.2.2
  refine ⟨payloadEnd (declaredSize packet) - sizeOfDataHeaders, by omega, by omega, hlen, ?_, ?_⟩
  · simp only [decodeShred, List.length_drop, List.length_take]
    omega
  · rw [List.take_drop]
    have hsum : sizeOfDataHeaders + (payloadEnd (declaredSize packet) - sizeOfDataHeaders) =
        payloadEnd (declaredSize packet) := by omega
    rw [hsum]
    rfl

/-- What is written for an index is part of the bytes. -/
theorem FecSetBuffer.payload_within (buf : FecSetBuffer) (shred : ParsedDataShred) :
    shred.payload <:+: (buf.add shred).bytes := by
  refine List.infix_of_mem_flatten (mem_valuesInOrder.mpr ⟨shred.index, ?_⟩)
  exact Std.ExtTreeMap.getElem?_insert_self

/-- A data-complete shred with bytes completes its set, whatever is buffered. -/
theorem ShredReassembler.push_completes (r : ShredReassembler) {shred : ParsedDataShred}
    (hp : shred.payload ≠ []) (hc : shred.dataComplete = true) :
    ∃ batch, (r.push shred).2 = some batch ∧ shred.payload <:+: batch.bytes := by
  have hinfix := (r.buffer shred.key).payload_within shred
  have hbytes : ((r.buffer shred.key).add shred).bytes ≠ [] := by
    intro hnil
    rw [hnil, List.infix_nil] at hinfix
    exact hp hinfix
  refine ⟨⟨shred.slot, shred.fecSetIndex, ((r.buffer shred.key).add shred).bytes⟩, ?_, hinfix⟩
  rw [push_eq]
  show (r.untrimmed shred).2 = _
  rw [untrimmed_output, if_pos ⟨hc, hbytes⟩]

/-- **Arbitrary bytes.** The parser never panics, cuts its payload out of the
declared size, looks at nothing behind it, and what it accepts completes sets. -/
theorem parser_safe (packet : Bytes) :
    (∃ parsed, parseDataShred packet = .ok parsed) ∧
      (∀ shred, parseDataShred packet = .ok (some shred) →
        ∃ len, 0 < len ∧ sizeOfDataHeaders + len ≤ declaredSize packet ∧
          declaredSize packet ≤ packet.length ∧ shred.payload.length = len ∧
          shred.payload = (packet.drop sizeOfDataHeaders).take len) ∧
      (∀ other, declaredSize other = declaredSize packet →
        other.take (declaredSize packet) = packet.take (declaredSize packet) →
          parseDataShred other = parseDataShred packet) ∧
      ∀ (r : ShredReassembler) (shred : ParsedDataShred),
        parseDataShred packet = .ok (some shred) → shred.dataComplete = true →
          ∃ batch, (r.push shred).2 = some batch ∧ shred.payload <:+: batch.bytes := by
  simp only [parseDataShred_eq]
  refine ⟨⟨_, rfl⟩, ?_, ?_, ?_⟩
  · intro shred h
    exact accepted_payload (Except.ok.inj h)
  · intro other hd ht
    rw [accepted_congr hd ht]
  · intro r shred h hc
    exact r.push_completes (accepted_payload_ne_nil (Except.ok.inj h)) hc

/-- A shred of one byte completes its set at once. -/
theorem parser_safe_sample :
    ∃ batch, ((ShredReassembler.new 16).push ⟨42, 7, 3, true, false, [9]⟩).2 = some batch ∧
      [9] <:+: batch.bytes :=
  (parser_safe (sampleDataShred 42 7 3 [9] true)).2.2.2 (.new 16) ⟨42, 7, 3, true, false, [9]⟩
    (parse_sampleDataShred 42 7 3 [9] true (by decide) (by decide)) rfl

end FeedMux.Shred
