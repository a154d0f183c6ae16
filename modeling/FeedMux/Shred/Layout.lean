import FeedMux.Shred.Parse

/-!
# Packets as the builder and the layout write them

`sampleDataShred` is the packet builder of the source's tests, with the header
values as arguments. The parser gives its fields back, and its payload up to
the proof-trimming heuristic (`parse_sampleDataShred`), so it undoes the
builder for payloads of at most 400 bytes and for no longer ones.

The second half states how Agave's non-resigned layout reads the variant and
the flags byte, and when the parser reads a packet the same way.
-/

namespace FeedMux.Shred
open FeedMux.Library

/-! ## The builder -/

def sampleDataShred (slot : UInt64) (index fecSetIndex : UInt32) (payload : Bytes)
    (dataComplete : Bool) : Bytes :=
  let packet : Bytes := List.replicate (sizeOfDataHeaders + payload.length) 0
  let packet := packet.set 64 0x96
  let packet := writeAt packet 65 (leBytes 8 slot.toNat)
  let packet := writeAt packet 73 (leBytes 4 index.toNat)
  let packet := writeAt packet 79 (leBytes 4 fecSetIndex.toNat)
  let packet := packet.set 85 (if dataComplete then shredDataCompleteFlag else 0)
  let size := UInt16.ofNat (sizeOfDataHeaders + payload.length)
  let packet := writeAt packet 86 (leBytes 2 size.toNat)
  writeAt packet sizeOfDataHeaders payload

/-- The 88 header bytes of `sampleDataShred`. -/
def sampleHeader (slot : UInt64) (index fecSetIndex : UInt32) (flags : UInt8) (size : Nat) :
    Bytes :=
  List.replicate 64 0 ++ [0x96] ++ leBytes 8 slot.toNat ++ leBytes 4 index.toNat ++ [0, 0] ++
    leBytes 4 fecSetIndex.toNat ++ [0, 0] ++ [flags] ++ leBytes 2 size

theorem drop_take_header (header payload : Bytes) (k : Nat)
    (h : header.length = sizeOfDataHeaders) :
    ((header ++ payload).take (sizeOfDataHeaders + k)).drop sizeOfDataHeaders =
      payload.take k := by
  simp [← h, List.take_append]

theorem sampleHeader_length (slot : UInt64) (index fecSetIndex : UInt32) (flags : UInt8)
    (size : Nat) : (sampleHeader slot index fecSetIndex flags size).length = sizeOfDataHeaders :=
  rfl

/-- The builder writes the header, then the payload. -/
theorem sampleDataShred_eq (slot : UInt64) (index fecSetIndex : UInt32) (payload : Bytes)
    (dataComplete : Bool) :
    sampleDataShred slot index fecSetIndex payload dataComplete =
      sampleHeader slot index fecSetIndex (if dataComplete then shredDataCompleteFlag else 0)
        (UInt16.ofNat (sizeOfDataHeaders + payload.length)).toNat ++ payload := by
  have hz : List.replicate (sizeOfDataHeaders + payload.length) (0 : UInt8) =
      List.replicate sizeOfDataHeaders 0 ++ List.replicate payload.length 0 :=
    List.replicate_add ..
  simp only [sampleDataShred, hz]
  generalize hh : sampleHeader slot index fecSetIndex
    (if dataComplete then shredDataCompleteFlag else 0)
    (UInt16.ofNat (sizeOfDataHeaders + payload.length)).toNat = header
  have hl : header.length = sizeOfDataHeaders := by rw [← hh]; rfl
  have hw : writeAt (header ++ List.replicate payload.length 0) sizeOfDataHeaders payload =
      header ++ payload := by
    simp [writeAt, ← hl]
  rw [← hw, ← hh]
  rfl

section
variable (slot : UInt64) (index fecSetIndex : UInt32) (payload : Bytes) (dataComplete : Bool)

theorem sample_declaredSize (h : payload.length ≤ maxDatagramSize - sizeOfDataHeaders) :
    declaredSize (sampleDataShred slot index fecSetIndex payload dataComplete) =
      sizeOfDataHeaders + payload.length := by
  have hs : sizeOfDataHeaders + payload.length < 65536 := by
    unfold maxDatagramSize sizeOfDataHeaders at *
    omega
  have hf : field (sampleDataShred slot index fecSetIndex payload dataComplete) 86 88 =
      fromLeBytes (leBytes 2 (UInt16.ofNat (sizeOfDataHeaders + payload.length)).toNat) := by
    rw [sampleDataShred_eq]
    rfl
  rw [declaredSize, hf, fromLeBytes_leBytes _ _ (UInt16.toNat_lt _)]
  simp [Nat.mod_eq_of_lt hs]

/-- **Parsing a built packet.** Every header field comes back; the payload
comes back without its last `merkleProofBytes payload.length` bytes. -/
theorem parse_sampleDataShred (h0 : payload ≠ [])
    (h : payload.length ≤ maxDatagramSize - sizeOfDataHeaders) :
    parseDataShred (sampleDataShred slot index fecSetIndex payload dataComplete) =
      .ok (some ⟨slot, index, fecSetIndex, dataComplete, false,
        payload.take (payload.length - merkleProofBytes payload.length)⟩) := by
  have hpos : 0 < payload.length := List.length_pos_iff.mpr h0
  have hsize := sample_declaredSize slot index fecSetIndex payload dataComplete h
  have hlen : (sampleDataShred slot index fecSetIndex payload dataComplete).length =
      sizeOfDataHeaders + payload.length := by
    rw [sampleDataShred_eq, List.length_append, sampleHeader_length]
  have hw : WellFormed (sampleDataShred slot index fecSetIndex payload dataComplete) :=
    ⟨by omega, by omega, by omega⟩
  have hv : variantByte (sampleDataShred slot index fecSetIndex payload dataComplete) = 0x96 := by
    rw [sampleDataShred_eq]
    rfl
  have hf : flagsByte (sampleDataShred slot index fecSetIndex payload dataComplete) =
      if dataComplete then shredDataCompleteFlag else 0 := by
    rw [sampleDataShred_eq]
    rfl
  have hslot : field (sampleDataShred slot index fecSetIndex payload dataComplete) 65 73 =
      fromLeBytes (leBytes 8 slot.toNat) := by
    rw [sampleDataShred_eq]
    rfl
  have hindex : field (sampleDataShred slot index fecSetIndex payload dataComplete) 73 77 =
      fromLeBytes (leBytes 4 index.toNat) := by
    rw [sampleDataShred_eq]
    rfl
  have hfec : field (sampleDataShred slot index fecSetIndex payload dataComplete) 79 83 =
      fromLeBytes (leBytes 4 fecSetIndex.toNat) := by
    rw [sampleDataShred_eq]
    rfl
  have hpay : ((sampleDataShred slot index fecSetIndex payload dataComplete).take
      (payloadEnd (sizeOfDataHeaders + payload.length))).drop sizeOfDataHeaders =
      payload.take (payload.length - merkleProofBytes payload.length) := by
    have hm := merkleProofBytes_lt hpos
    have he : payloadEnd (sizeOfDataHeaders + payload.length) =
        sizeOfDataHeaders + (payload.length - merkleProofBytes payload.length) := by
      rw [payloadEnd, Nat.add_sub_cancel_left]
      omega
    rw [he, sampleDataShred_eq]
    exact drop_take_header _ _ _ (sampleHeader_length ..)
  rw [parseDataShred_eq]
  have ha : accepted (sampleDataShred slot index fecSetIndex payload dataComplete) =
      some (decodeShred (sampleDataShred slot index fecSetIndex payload dataComplete)) :=
    if_pos ⟨hw, by rw [hv]; rfl⟩
  rw [ha]
  unfold decodeShred
  rw [hsize, hf, hslot, hindex, hfec, hpay, fromLeBytes_u64, fromLeBytes_u32, fromLeBytes_u32]
  cases dataComplete <;> rfl

theorem take_untrimmed_eq_self (h0 : payload ≠ []) :
    payload.take (payload.length - merkleProofBytes payload.length) = payload ↔
      payload.length ≤ 400 := by
  have hpos : 0 < payload.length := List.length_pos_iff.mpr h0
  rw [List.take_eq_self_iff]
  unfold merkleProofBytes
  split
  · omega
  · split <;> omega

theorem short_of_restored (h0 : payload ≠ [])
    (h : payload.length ≤ maxDatagramSize - sizeOfDataHeaders)
    (hp : parseDataShred (sampleDataShred slot index fecSetIndex payload dataComplete) =
      .ok (some ⟨slot, index, fecSetIndex, dataComplete, false, payload⟩)) :
    payload.length ≤ 400 := by
  rw [parse_sampleDataShred slot index fecSetIndex payload dataComplete h0 h] at hp
  apply (take_untrimmed_eq_self payload h0).mp
  injection hp with hp
  injection hp with hp
  injection hp

/-- The parser undoes the builder exactly for payloads of at most 400 bytes. -/
theorem parse_undoes_build (h0 : payload ≠ [])
    (h : payload.length ≤ maxDatagramSize - sizeOfDataHeaders) :
    parseDataShred (sampleDataShred slot index fecSetIndex payload dataComplete) =
        .ok (some ⟨slot, index, fecSetIndex, dataComplete, false, payload⟩) ↔
      payload.length ≤ 400 := by
  constructor
  · exact short_of_restored slot index fecSetIndex payload dataComplete h0 h
  · intro hs
    rw [parse_sampleDataShred slot index fecSetIndex payload dataComplete h0 h,
      (take_untrimmed_eq_self payload h0).mpr hs]

end

theorem parse_undoes_build_hello :
    parseDataShred (sampleDataShred 42 7 3 [104, 101, 108, 108, 111] false) =
      .ok (some ⟨42, 7, 3, false, false, [104, 101, 108, 108, 111]⟩) :=
  (parse_undoes_build 42 7 3 [104, 101, 108, 108, 111] false (by simp) (by decide)).mpr (by decide)

def longPayload : Bytes := List.replicate 401 7

/-- A payload of 401 bytes loses its tail. -/
theorem long_payload_not_restored :
    longPayload ≠ [] ∧ longPayload.length ≤ maxDatagramSize - sizeOfDataHeaders ∧
    parseDataShred (sampleDataShred 42 7 3 longPayload true) ≠
      .ok (some ⟨42, 7, 3, true, false, longPayload⟩) := by
  have hl : longPayload.length = 401 := List.length_replicate
  have h0 : longPayload ≠ [] := List.ne_nil_of_length_pos (by omega)
  have h : longPayload.length ≤ maxDatagramSize - sizeOfDataHeaders := by
    rw [hl]
    decide
  refine ⟨h0, h, ?_⟩
  intro hp
  have := short_of_restored 42 7 3 longPayload true h0 h hp
  omega

/-! ## Agave's non-resigned layout -/

/-- `0xa5` is the legacy data shred; high nibbles 8 and 9 are Merkle data
shreds, the low nibble being the proof size. -/
def isDataVariant (variant : UInt8) : Bool :=
  variant == 0xa5 || variant >>> 4 == 0x8 || variant >>> 4 == 0x9

def isCodingVariant (variant : UInt8) : Bool :=
  variant == 0x5a || variant >>> 4 == 0x4 || variant >>> 4 == 0x6

/-- Bit `0x40` of the flags byte; the low six bits are the reference tick. -/
def layoutDataComplete (flags : UInt8) : Bool := flags &&& 0x40 != 0

/-- Both bits of `0xc0`. -/
def layoutLastInSlot (flags : UInt8) : Bool := flags &&& 0xc0 == 0xc0

/-- The parser accepts the packet iff its variant is a data variant, and then
reads the two flags where the layout has them. -/
def AgreesWithLayout (packet : Bytes) : Prop :=
  ∃ parsed, parseDataShred packet = .ok parsed ∧
    (parsed.isSome ↔ isDataVariant (variantByte packet)) ∧
    ∀ shred, parsed = some shred →
      shred.dataComplete = layoutDataComplete (flagsByte packet) ∧
      shred.lastInSlot = layoutLastInSlot (flagsByte packet)

/-- The variants and flag bytes the parser reads as the layout does: coding
variants other than `0x5a` and `0x69`; the data variants `0xa5` and `0x96` when
bit `0x01` equals bit `0x40` and bit `0x80` comes only with bit `0x40`. -/
def ReadAlike (variant flags : UInt8) : Prop :=
  (isCodingVariant variant ∧ variant ≠ 0x5a ∧ variant ≠ 0x69) ∨
    ((variant = 0xa5 ∨ variant = 0x96) ∧
      (flags &&& 0x01 != 0) = (flags &&& 0x40 != 0) ∧
      (flags &&& 0x80 ≠ 0 → flags &&& 0x40 ≠ 0))

theorem forall_byte {P : UInt8 → Prop} (h : ∀ b : Fin 256, P (UInt8.ofFin b)) (b : UInt8) :
    P b := h b.toFin

theorem lastInSlot_iff (flags : UInt8) :
    (flags &&& 0b10000000 != 0) = layoutLastInSlot flags ↔
      (flags &&& 0x80 ≠ 0 → flags &&& 0x40 ≠ 0) := by
  revert flags
  exact forall_byte (by unfold layoutLastInSlot; decide +kernel)

/-- Which layout variants the source takes for data, in one table. -/
theorem shredKind_on_layout (variant : UInt8) :
    isDataVariant variant ∨ isCodingVariant variant →
    ((shredKind variant = .data ↔ isDataVariant variant) ↔
      (isCodingVariant variant ∧ variant ≠ 0x5a ∧ variant ≠ 0x69) ∨
        variant = 0xa5 ∨ variant = 0x96) ∧
    (shredKind variant = .data → isDataVariant variant → variant = 0xa5 ∨ variant = 0x96) ∧
    (isCodingVariant variant → ¬ isDataVariant variant) := by
  revert variant
  exact forall_byte (by unfold isDataVariant isCodingVariant shredKind; decide +kernel)

theorem agreesWithLayout_iff {packet : Bytes} (hw : WellFormed packet) :
    AgreesWithLayout packet ↔
      (shredKind (variantByte packet) = .data ↔ isDataVariant (variantByte packet)) ∧
      (shredKind (variantByte packet) = .data →
        (flagsByte packet &&& 0x01 != 0) = layoutDataComplete (flagsByte packet) ∧
        (flagsByte packet &&& 0b10000000 != 0) = layoutLastInSlot (flagsByte packet)) := by
  rw [AgreesWithLayout, parseDataShred_eq]
  by_cases hk : shredKind (variantByte packet) = .data
  · have ha : accepted packet = some (decodeShred packet) := if_pos ⟨hw, hk⟩
    simp [ha, hk, decodeShred, shredDataCompleteFlag]
  · have ha : accepted packet = none := if_neg fun h => hk h.2
    simp [ha, hk]

/-- The parser agrees with the layout exactly on the packets `ReadAlike` names. -/
theorem parser_agrees_iff (packet : Bytes) (hw : WellFormed packet)
    (hv : isDataVariant (variantByte packet) ∨ isCodingVariant (variantByte packet)) :
    AgreesWithLayout packet ↔ ReadAlike (variantByte packet) (flagsByte packet) := by
  obtain ⟨hkind, hdata, hcoding⟩ := shredKind_on_layout (variantByte packet) hv
  rw [agreesWithLayout_iff hw, hkind, lastInSlot_iff]
  unfold ReadAlike layoutDataComplete
  constructor
  · rintro ⟨hc | hd, hflags⟩
    · exact Or.inl hc
    · have hk : shredKind (variantByte packet) = .data := by
        rcases hd with h | h <;> rw [h] <;> rfl
      exact Or.inr ⟨hd, hflags hk⟩
  · rintro (hc | ⟨hd, hflags⟩)
    · refine ⟨Or.inl hc, fun hk => absurd ?_ (hcoding hc.1)⟩
      exact (hkind.mpr (Or.inl hc)).mp hk
    · exact ⟨Or.inr hd, fun _ => hflags⟩

/-- A legacy data shred whose flags byte has no bit set. -/
def legacyPacket : Bytes :=
  (sampleDataShred 42 7 3 [1, 2, 3] false).set 64 0xa5

theorem parser_agrees_legacy : AgreesWithLayout legacyPacket :=
  (parser_agrees_iff legacyPacket (by decide +kernel) (by decide +kernel)).mpr
    (Or.inr ⟨by decide +kernel, by decide +kernel, by decide +kernel⟩)

/-- A legacy coding shred. -/
def codingPacket : Bytes :=
  (sampleDataShred 42 7 3 [1, 2, 3] false).set 64 0x5a

/-- The parser takes the legacy coding variant for data. -/
theorem coding_packet_accepted :
    WellFormed codingPacket ∧ isCodingVariant (variantByte codingPacket) ∧
      ¬ AgreesWithLayout codingPacket := by
  have hw : WellFormed codingPacket := by decide +kernel
  have hv : variantByte codingPacket = 0x5a := by decide +kernel
  refine ⟨hw, by rw [hv]; decide, ?_⟩
  intro h
  have hk := ((agreesWithLayout_iff hw).mp h).1
  rw [hv] at hk
  exact absurd (hk.mp (by decide)) (by decide)

end FeedMux.Shred
