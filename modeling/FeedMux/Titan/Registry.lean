import FeedMux.Library.OrderedMap
import FeedMux.Library.Run
import FeedMux.Titan.Value

/-!
# Hunt ladders and the stream registry (`src/titan_quote.rs`)

A hunt ladder is a strictly ascending list of sizes (`parseHuntSizes_sorted`).
The registry chains two maps, request to size and stream to size.
-/

namespace FeedMux.Titan
open FeedMux.Library Std

/-! ## Hunt ladders -/

def defaultHuntSizesLamports : List UInt64 :=
  [250000000, 500000000, 1000000000, 2500000000, 5000000000]

/-- `str::parse::<u64>`: an optional plus sign, then digits, without overflow. -/
def parseU64 (s : List Char) : Option UInt64 :=
  let digits := match s with
    | '+' :: rest => rest
    | _ => s
  if digits.isEmpty || !digits.all Char.isDigit then none
  else
    let n := Nat.ofDigits 10 (digits.reverse.map fun c => c.toNat - '0'.toNat)
    if n < 2 ^ 64 then some (UInt64.ofNat n) else none

def parseHuntSizes (raw : Option String) : List UInt64 :=
  match (raw.map fun raw => trim raw.toList).filter (!·.isEmpty) with
  | none => defaultHuntSizesLamports
  | some raw =>
    let sizes := ((raw.splitOn ',').filterMap fun part => parseU64 (trim part)).filter (0 < ·)
    let sizes := (sizes.insertionSort (· ≤ ·)).destutter (· ≠ ·)
    if sizes.isEmpty then defaultHuntSizesLamports else sizes

theorem destutter_sort_sorted (l : List UInt64) :
    ((l.insertionSort (· ≤ ·)).destutter (· ≠ ·)).Pairwise (· < ·) := by
  have : Std.Total fun a b : UInt64 => a ≤ b := ⟨fun _ _ => UInt64.le_total _ _⟩
  have : IsTrans UInt64 fun a b => a ≤ b := ⟨fun _ _ _ => UInt64.le_trans⟩
  have : IsTrans UInt64 fun a b => a < b := ⟨fun _ _ _ => UInt64.lt_trans⟩
  have hle := (List.pairwise_insertionSort (· ≤ ·) l).sublist
    (List.destutter_sublist (· ≠ ·) (l.insertionSort (· ≤ ·)))
  have hne := List.isChain_destutter (· ≠ ·) (l.insertionSort (· ≤ ·))
  rw [← List.isChain_iff_pairwise, List.isChain_iff_getElem]
  intro i hi
  exact UInt64.lt_of_le_of_ne (hle.isChain.getElem i hi) (hne.getElem i hi)

/-- **Ladders are strictly ascending.** -/
theorem parseHuntSizes_sorted (raw : Option String) :
    (parseHuntSizes raw).Pairwise (· < ·) := by
  unfold parseHuntSizes
  split
  · decide
  · simp only
    split
    · decide
    · exact destutter_sort_sorted _

/-- A ladder has no rung of size 0. -/
theorem zero_notMem_parseHuntSizes (raw : Option String) : 0 ∉ parseHuntSizes raw := by
  unfold parseHuntSizes
  split
  · decide
  · simp only
    split
    · decide
    · intro h
      have hmem := (List.perm_insertionSort _ _).mem_iff.mp
        ((List.destutter_sublist (· ≠ ·) _).subset h)
      simpa using (List.mem_filter.mp hmem).2

/-! ## The registry -/

/-- Request ids are `idx + 2` for an index into a ladder, far below `2^64`. -/
structure TitanStreamRegistry where
  requestToSize : ExtTreeMap Nat UInt64 := ∅
  streamToSize : ExtTreeMap UInt32 UInt64 := ∅

namespace TitanStreamRegistry

def clear (_ : TitanStreamRegistry) : TitanStreamRegistry := {}

def registerPendingRequest (reg : TitanStreamRegistry) (requestId : Nat)
    (sizeLamports : UInt64) : TitanStreamRegistry :=
  { reg with requestToSize := reg.requestToSize.insert requestId sizeLamports }

def confirmStream (reg : TitanStreamRegistry) (requestId : Nat) (streamId : UInt32) :
    TitanStreamRegistry :=
  match reg.requestToSize[requestId]? with
  | some size => { reg with streamToSize := reg.streamToSize.insert streamId size }
  | none => reg

def sizeForStream (reg : TitanStreamRegistry) (streamId : UInt32) : Option UInt64 :=
  reg.streamToSize[streamId]?

def sizeForPendingRequest (reg : TitanStreamRegistry) (requestId : Nat) : Option UInt64 :=
  reg.requestToSize[requestId]?

end TitanStreamRegistry

/-- The request id and the stream id that a response names. -/
def responseStream (value : Value) : Option (Nat × UInt32) := do
  let response ← mapGet value "Response"
  let requestId ← (mapGet response "requestId").bind valueAsU64
  let data ← mapGet response "data"
  let stream ← mapGet response "stream" <|> mapGet response "StreamStart" <|>
    mapGet data "stream" <|> mapGet data "StreamStart"
  let streamId ← (mapGet stream "id").bind valueAsU32
  return (requestId.toNat, streamId)

def registerStreamFromResponse (value : Value) (reg : TitanStreamRegistry) :
    TitanStreamRegistry :=
  match responseStream value with
  | some (requestId, streamId) => reg.confirmStream requestId streamId
  | none => reg

end FeedMux.Titan
