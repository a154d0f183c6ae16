import FeedMux.Shred.ParserSafety
import FeedMux.Upstream.TritonShred

/-!
# Datagrams with a provider prefix (`src/upstream/triton_shred.rs`)

The loop receives into a buffer of `MAX_DATAGRAM_SIZE` bytes and strips the
configured number of leading bytes afterwards. So the prefix takes its room from
the shred: `lead_transparent_iff` says which shreds still parse as they would
without it.
-/

namespace FeedMux.Upstream
open FeedMux.Library FeedMux.Shred

/-- The slice of the receive buffer that `run_udp_loop` hands to the parser. -/
def passedPacket (udpPrefixSkip : Nat) (datagram : Bytes) : Except Panic Bytes :=
  let buf := recvFrom datagram
  let size := buf.length
  let start := min udpPrefixSkip size
  slice buf start size

theorem udpBody_passed (cfg : UdpConfig) (st : UdpState) (d : Datagram) :
    udpBody cfg st d = do
      let packet ← passedPacket cfg.udpPrefixSkip d.bytes
      return udpHandle cfg st d (← parseDataShred packet) := rfl

theorem passedPacket_eq (udpPrefixSkip : Nat) (datagram : Bytes) :
    passedPacket udpPrefixSkip datagram = .ok ((recvFrom datagram).drop udpPrefixSkip) := by
  unfold passedPacket
  rw [slice_ok _ (Nat.min_le_right ..) (Nat.le_refl _), List.take_length, drop_min_length]

/-- Behind a prefix the buffer has room for the rest of a datagram only. -/
theorem drop_recvFrom (lead packet : Bytes) :
    (recvFrom (lead ++ packet)).drop lead.length =
      packet.take (maxDatagramSize - lead.length) := by
  unfold recvFrom
  rw [List.drop_take, List.drop_left]

/-- What is left of a packet parses only if its headers and its declared size are. -/
theorem accepted_take_room {packet : Bytes} {n : Nat} {shred : ParsedDataShred}
    (h : accepted (packet.take n) = some shred) :
    sizeOfDataHeaders ≤ n ∧ declaredSize packet ≤ n := by
  have hw := (accepted_eq_some.mp h).1
  have hlen : sizeOfDataHeaders ≤ n := by
    have hl := hw.1
    rw [List.length_take] at hl
    omega
  exact ⟨hlen, ((wellFormed_take hlen).mp hw).2⟩

/-- A cut packet parses as before if the cut is behind its declared size, or it
did not parse anyway. -/
theorem accepted_take_iff (packet : Bytes) (n : Nat) :
    accepted (packet.take n) = accepted packet ↔
      ((accepted packet).isSome → declaredSize packet ≤ n) := by
  constructor
  · intro heq hsome
    rw [← heq] at hsome
    obtain ⟨shred, hshred⟩ := Option.isSome_iff_exists.mp hsome
    exact (accepted_take_room hshred).2
  · intro h
    cases ha : accepted packet with
    | some shred =>
      have hd : declaredSize packet ≤ n := h (by rw [ha]; rfl)
      have hw := (accepted_eq_some.mp ha).1
      have hlt := hw.2.1
      rw [accepted_take (by omega) hd, ha]
    | none =>
      cases hcut : accepted (packet.take n) with
      | none => rfl
      | some shred =>
        obtain ⟨hlen, hd⟩ := accepted_take_room hcut
        rw [accepted_take hlen hd, ha] at hcut
        cases hcut

theorem lead_parses (lead packet : Bytes) :
    (passedPacket lead.length (lead ++ packet)).bind parseDataShred =
      .ok (accepted (packet.take (maxDatagramSize - lead.length))) := by
  rw [passedPacket_eq, drop_recvFrom]
  exact parseDataShred_eq _

/-- **Prefixes.** One is transparent for a packet exactly when the packet is no
well-formed data shred, or prefix and declared size fit the buffer together. -/
theorem lead_transparent_iff (lead packet : Bytes) :
    (passedPacket lead.length (lead ++ packet)).bind parseDataShred = parseDataShred packet ↔
      (WellFormed packet → shredKind (variantByte packet) = .data →
        lead.length + declaredSize packet ≤ maxDatagramSize) := by
  rw [lead_parses, parseDataShred_eq, Except.ok.injEq, accepted_take_iff]
  constructor
  · intro h hw hk
    have hsome : (accepted packet).isSome := by
      rw [accepted_eq_some.mpr ⟨hw, hk, rfl⟩]
      rfl
    have hd := h hsome
    have hlt := hw.2.1
    omega
  · intro h hsome
    obtain ⟨shred, hshred⟩ := Option.isSome_iff_exists.mp hsome
    obtain ⟨hw, hk, -⟩ := accepted_eq_some.mp hshred
    have hd := h hw hk
    omega

/-- The largest shred, which fills the buffer alone. -/
def largestShred : Bytes := sampleDataShred 42 7 3 (List.replicate 1144 7) true

/-- Behind a prefix of one byte it does not parse any more. -/
theorem largest_shred_lost :
    largestShred.length ≤ maxDatagramSize ∧
      (passedPacket 1 ([0xff] ++ largestShred)).bind parseDataShred ≠
        parseDataShred largestShred := by
  have hlen : (List.replicate 1144 (7 : UInt8)).length = 1144 := List.length_replicate
  have hmax : (List.replicate 1144 (7 : UInt8)).length ≤ maxDatagramSize - sizeOfDataHeaders := by
    rw [hlen]
    decide
  have hne : List.replicate 1144 (7 : UInt8) ≠ [] := List.ne_nil_of_length_pos (by omega)
  have hsize : declaredSize largestShred = 1232 := by
    unfold largestShred
    rw [sample_declaredSize 42 7 3 _ true hmax, hlen]
    rfl
  have hlength : largestShred.length = 1232 := by
    unfold largestShred
    rw [sampleDataShred_eq, List.length_append, sampleHeader_length, hlen]
    rfl
  have hsome : (accepted largestShred).isSome := by
    have hparses := parse_sampleDataShred 42 7 3 (List.replicate 1144 7) true hne hmax
    rw [parseDataShred_eq, Except.ok.injEq] at hparses
    unfold largestShred
    rw [hparses]
    rfl
  refine ⟨le_of_eq hlength, ?_⟩
  intro h
  have hcut := lead_parses [0xff] largestShred
  rw [List.length_singleton] at hcut
  rw [hcut, parseDataShred_eq, Except.ok.injEq, accepted_take_iff] at h
  have hroom := h hsome
  rw [hsize] at hroom
  exact absurd hroom (by decide)

end FeedMux.Upstream
