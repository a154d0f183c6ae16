import FeedMux.Library.Bytes

/-!
# Data shred headers (`src/shred/parse.rs`)

`parseDataShred` follows the source statement by statement, with Rust's
panicking slices. `parseDataShred_eq` gives its closed form: no slice is out of
range, and a packet is decoded exactly when it is `WellFormed` and its variant
byte is one the source takes for a data shred.
-/

namespace FeedMux.Shred
open FeedMux.Library

def maxDatagramSize : Nat := 1232
def sizeOfDataHeaders : Nat := 88
def shredDataCompleteFlag : UInt8 := 0b00000001

inductive ShredKind where
  | data
  | coding
  | unknown
  deriving DecidableEq, Repr

structure ParsedDataShred where
  slot : UInt64
  index : UInt32
  fecSetIndex : UInt32
  dataComplete : Bool
  lastInSlot : Bool
  payload : Bytes
  deriving DecidableEq, Repr

def shredKind (variant : UInt8) : ShredKind :=
  if variant = 0x5a ∨ variant = 0xa5 then .data
  else if variant = 0x69 ∨ variant = 0x96 then .data
  else if variant = 0x4b ∨ variant = 0xb4 then .coding
  else if variant = 0x78 ∨ variant = 0x87 then .coding
  else .unknown

def merkleProofBytes (bodyLen : Nat) : Nat :=
  if bodyLen > 600 then 80
  else if bodyLen > 400 then 40
  else 0

/-- Strip trailing Merkle proof bytes when present. -/
def merklePayloadEnd (packet : Bytes) (declaredSize : Nat) : Except Panic (Option Nat) := do
  if declaredSize ≤ sizeOfDataHeaders then return none
  let body ← slice packet sizeOfDataHeaders declaredSize
  if body.length ≤ 20 then return some declaredSize
  return some (declaredSize - merkleProofBytes body.length)

def parseDataShred (packet : Bytes) : Except Panic (Option ParsedDataShred) := do
  if packet.length < sizeOfDataHeaders then return none
  let some variant := packet[64]? | return none
  if shredKind variant ≠ .data then return none
  let some slot := toArray 8 (← slice packet 65 73) | return none
  let some index := toArray 4 (← slice packet 73 77) | return none
  let some fecSetIndex := toArray 4 (← slice packet 79 83) | return none
  let some flags := packet[85]? | throw .sliceOutOfRange
  let some declaredSize := toArray 2 (← slice packet 86 88) | return none
  let stop := (UInt16.ofNat (fromLeBytes declaredSize)).toNat
  if stop > packet.length ∨ stop ≤ sizeOfDataHeaders then return none
  let some payloadEnd ← merklePayloadEnd packet stop | return none
  let payload ← slice packet sizeOfDataHeaders payloadEnd
  return some
    { slot := UInt64.ofNat (fromLeBytes slot)
      index := UInt32.ofNat (fromLeBytes index)
      fecSetIndex := UInt32.ofNat (fromLeBytes fecSetIndex)
      dataComplete := flags &&& shredDataCompleteFlag != 0
      lastInSlot := flags &&& 0b10000000 != 0
      payload := payload }

/-! ## Closed form -/

/-- The number stored little-endian in `packet[lo..hi]`. -/
def field (packet : Bytes) (lo hi : Nat) : Nat := fromLeBytes ((packet.take hi).drop lo)

/-- The size field of the data header. -/
def declaredSize (packet : Bytes) : Nat := (UInt16.ofNat (field packet 86 88)).toNat

/-- Where the source ends the payload of a packet of this declared size. -/
def payloadEnd (size : Nat) : Nat := size - merkleProofBytes (size - sizeOfDataHeaders)

def variantByte (packet : Bytes) : UInt8 := packet.getD 64 0
def flagsByte (packet : Bytes) : UInt8 := packet.getD 85 0

/-- All headers are there and the size field lies in `(88, packet.len()]`. -/
def WellFormed (packet : Bytes) : Prop :=
  sizeOfDataHeaders ≤ packet.length ∧
    sizeOfDataHeaders < declaredSize packet ∧ declaredSize packet ≤ packet.length

instance (packet : Bytes) : Decidable (WellFormed packet) := instDecidableAnd

def decodeShred (packet : Bytes) : ParsedDataShred where
  slot := UInt64.ofNat (field packet 65 73)
  index := UInt32.ofNat (field packet 73 77)
  fecSetIndex := UInt32.ofNat (field packet 79 83)
  dataComplete := flagsByte packet &&& shredDataCompleteFlag != 0
  lastInSlot := flagsByte packet &&& 0b10000000 != 0
  payload := (packet.take (payloadEnd (declaredSize packet))).drop sizeOfDataHeaders

/-- What the parser accepts, and as what. -/
def accepted (packet : Bytes) : Option ParsedDataShred :=
  if WellFormed packet ∧ shredKind (variantByte packet) = .data then some (decodeShred packet)
  else none

theorem merkleProofBytes_lt {bodyLen : Nat} (h : 0 < bodyLen) :
    merkleProofBytes bodyLen < bodyLen := by
  unfold merkleProofBytes
  split
  · omega
  · split <;> omega

theorem merkleProofBytes_small {bodyLen : Nat} (h : bodyLen ≤ 400) :
    merkleProofBytes bodyLen = 0 := by
  rw [merkleProofBytes, if_neg (by omega), if_neg (by omega)]

theorem lt_payloadEnd {size : Nat} (h : sizeOfDataHeaders < size) :
    sizeOfDataHeaders < payloadEnd size := by
  have : merkleProofBytes (size - sizeOfDataHeaders) < size - sizeOfDataHeaders :=
    merkleProofBytes_lt (by omega)
  unfold payloadEnd
  omega

theorem payloadEnd_le (size : Nat) : payloadEnd size ≤ size := Nat.sub_le _ _

theorem merklePayloadEnd_eq {packet : Bytes} {size : Nat} (h : sizeOfDataHeaders < size)
    (h' : size ≤ packet.length) : merklePayloadEnd packet size = .ok (some (payloadEnd size)) := by
  have hl : ((packet.take size).drop sizeOfDataHeaders).length = size - sizeOfDataHeaders := by
    simp only [List.length_drop, List.length_take]
    omega
  rw [merklePayloadEnd, if_neg (by omega), slice_ok packet (by omega) h']
  by_cases hs : size - sizeOfDataHeaders ≤ 20
  · have hm : merkleProofBytes (size - sizeOfDataHeaders) = 0 :=
      merkleProofBytes_small (by omega)
    simp only [Bind.bind, Except.bind, hl, hs, ↓reduceIte, payloadEnd, hm, Nat.sub_zero]
    rfl
  · simp only [Bind.bind, Except.bind, hl, hs, ↓reduceIte, payloadEnd]
    rfl

/-- **Parser, closed form.** No access is out of range. -/
theorem parseDataShred_eq (packet : Bytes) : parseDataShred packet = .ok (accepted packet) := by
  by_cases hlen : packet.length < sizeOfDataHeaders
  · have ha : accepted packet = none := if_neg fun h => by have := h.1.1; omega
    rw [ha]
    rw [parseDataShred, if_pos hlen]
    rfl
  have hlen' : 88 ≤ packet.length := Nat.le_of_not_lt hlen
  have h64 : packet[64]? = some (variantByte packet) := by
    simp [variantByte, List.getElem?_eq_getElem (show 64 < packet.length by omega)]
  have h85 : packet[85]? = some (flagsByte packet) := by
    simp [flagsByte, List.getElem?_eq_getElem (show 85 < packet.length by omega)]
  by_cases hk : shredKind (variantByte packet) = .data
  case neg =>
    have ha : accepted packet = none := if_neg fun h => hk h.2
    rw [ha]
    rw [parseDataShred, if_neg hlen, h64]
    simp only
    rw [if_pos hk]
    rfl
  have hbody : parseDataShred packet =
      if declaredSize packet > packet.length ∨ declaredSize packet ≤ sizeOfDataHeaders
        then .ok none
        else (do
          let some stop ← merklePayloadEnd packet (declaredSize packet) | return none
          let payload ← slice packet sizeOfDataHeaders stop
          return some { decodeShred packet with payload := payload }) := by
    rw [parseDataShred, if_neg hlen, h64]
    simp only
    rw [if_neg (not_not_intro hk),
      slice_ok packet (show 65 ≤ 73 by omega) (by omega),
      slice_ok packet (show 73 ≤ 77 by omega) (by omega),
      slice_ok packet (show 79 ≤ 83 by omega) (by omega),
      slice_ok packet (show 86 ≤ 88 by omega) hlen']
    simp only [Bind.bind, Except.bind, h85,
      toArray_slice packet (show 65 + 8 = 73 by omega) (by omega),
      toArray_slice packet (show 73 + 4 = 77 by omega) (by omega),
      toArray_slice packet (show 79 + 4 = 83 by omega) (by omega),
      toArray_slice packet (show 86 + 2 = 88 by omega) hlen']
    rfl
  rw [hbody]
  by_cases hs : declaredSize packet > packet.length ∨ declaredSize packet ≤ sizeOfDataHeaders
  · have ha : accepted packet = none := if_neg fun h => by have := h.1.2; omega
    rw [if_pos hs, ha]
  · have hw : WellFormed packet := ⟨hlen', by omega, by omega⟩
    have ha : accepted packet = some (decodeShred packet) := if_pos ⟨hw, hk⟩
    have hend := payloadEnd_le (declaredSize packet)
    have hlt := lt_payloadEnd hw.2.1
    rw [if_neg hs, ha, merklePayloadEnd_eq hw.2.1 hw.2.2]
    simp only [Bind.bind, Except.bind]
    rw [slice_ok packet (by omega) (by omega)]
    rfl

theorem accepted_eq_some {packet : Bytes} {shred : ParsedDataShred} :
    accepted packet = some shred ↔
      WellFormed packet ∧ shredKind (variantByte packet) = .data ∧ decodeShred packet = shred := by
  unfold accepted
  split <;> simp_all

/-- An accepted shred carries at least one byte. -/
theorem accepted_payload_ne_nil {packet : Bytes} {shred : ParsedDataShred}
    (h : accepted packet = some shred) : shred.payload ≠ [] := by
  obtain ⟨hw, _, rfl⟩ := accepted_eq_some.mp h
  have hlt := lt_payloadEnd hw.2.1
  have hle := payloadEnd_le (declaredSize packet)
  have hp := hw.2.2
  intro he
  have hl := congrArg List.length he
  simp only [decodeShred, List.length_drop, List.length_take, List.length_nil] at hl
  omega

end FeedMux.Shred
