import FeedMux.Titan.Registry

/-!
# Where a stream confirmation is found (`src/titan_quote.rs`)

A response may name its stream in four places. The chain of alternatives takes
the first place that is there, whether or not it holds an id, and it is reached
only if the response has a data field (`confirmation_recorded_iff`).
-/

namespace FeedMux.Titan
open FeedMux.Library Std

/-! ## A chain of alternatives -/

section Chain

variable {α β : Type*}

/-- The first place that is there. -/
def firstPresent (places : List (Option α)) : Option α := places.findSome? id

/-- What can be read at the first place where something can be read. -/
def firstUsable (read : α → Option β) (places : List (Option α)) : Option β :=
  places.findSome? (·.bind read)

theorem firstUsable_of_present {read : α → Option β} {places : List (Option α)} {place : α}
    {b : β} (h : firstPresent places = some place) (hb : read place = some b) :
    firstUsable read places = some b := by
  induction places with
  | nil => cases h
  | cons first places ih =>
    cases first with
    | none => exact ih h
    | some other =>
      obtain rfl : other = place := Option.some.inj h
      simp [firstUsable, hb]

/-- The chain finds what can be read if the first place that is there holds it. -/
theorem present_bind_iff {read : α → Option β} {places : List (Option α)} {b : β}
    (h : firstUsable read places = some b) :
    (firstPresent places).bind read = some b ↔
      ((firstPresent places).bind read).isSome := by
  constructor
  · intro hb
    rw [hb]
    rfl
  · intro hsome
    obtain ⟨c, hc⟩ := Option.isSome_iff_exists.mp hsome
    obtain ⟨place, hplace, hread⟩ := Option.bind_eq_some_iff.mp hc
    rw [hc, ← h, firstUsable_of_present hplace hread]

end Chain

/-! ## The four places -/

/-- `response.stream`, `response.StreamStart`, `data.stream`, `data.StreamStart`. -/
def streamPlaces (response : Value) : List (Option Value) :=
  let data := mapGet response "data"
  [mapGet response "stream", mapGet response "StreamStart",
    data.bind (mapGet · "stream"), data.bind (mapGet · "StreamStart")]

/-- The id in a place, if the place is a map with a `u32` id. -/
def streamIdOf (place : Value) : Option UInt32 := (mapGet place "id").bind valueAsU32

theorem responseStream_eq {value response : Value} {requestId : UInt64}
    (hresp : mapGet value "Response" = some response)
    (hreq : (mapGet response "requestId").bind valueAsU64 = some requestId) :
    responseStream value = if (mapGet response "data").isSome then
        ((firstPresent (streamPlaces response)).bind streamIdOf).map (requestId.toNat, ·)
      else none := by
  have hchain : ∀ a b c d : Option Value,
      (a <|> b <|> c <|> d) = firstPresent [a, b, c, d] := by
    intro a b c d
    cases a <;> cases b <;> cases c <;> cases d <;> rfl
  unfold responseStream streamPlaces
  simp only [hresp, hreq, Option.bind_eq_bind, Option.bind_some]
  cases hdata : mapGet response "data" with
  | none => rfl
  | some data =>
    simp only [Option.bind_some, Option.isSome_some, ↓reduceIte, hchain]
    cases hfirst : firstPresent [mapGet response "stream", mapGet response "StreamStart",
        mapGet data "stream", mapGet data "StreamStart"] with
    | none => rfl
    | some place =>
      simp only [Option.bind_some, streamIdOf]
      cases (mapGet place "id").bind valueAsU32 <;> rfl

/-- The response has a data field, and the first place that is there holds an id. -/
def Reachable (response : Value) : Prop :=
  (mapGet response "data").isSome ∧
    ((firstPresent (streamPlaces response)).bind streamIdOf).isSome

theorem sizeForStream_confirm {reg : TitanStreamRegistry} {requestId : Nat} {size : UInt64}
    (h : reg.sizeForPendingRequest requestId = some size) (id : UInt32) :
    (reg.confirmStream requestId id).sizeForStream id = some size := by
  unfold TitanStreamRegistry.sizeForPendingRequest at h
  unfold TitanStreamRegistry.confirmStream TitanStreamRegistry.sizeForStream
  rw [h]
  exact ExtTreeMap.getElem?_insert_self

/-- **Confirmations.** The first valid id is recorded exactly when the chain
reaches it, unless it was recorded before. -/
theorem confirmation_recorded_iff {value response : Value} {reg : TitanStreamRegistry}
    {requestId size : UInt64} {id : UInt32}
    (hresp : mapGet value "Response" = some response)
    (hreq : (mapGet response "requestId").bind valueAsU64 = some requestId)
    (hsize : reg.sizeForPendingRequest requestId.toNat = some size)
    (hid : firstUsable streamIdOf (streamPlaces response) = some id) :
    (registerStreamFromResponse value reg).sizeForStream id = some size ↔
      Reachable response ∨ reg.sizeForStream id = some size := by
  unfold registerStreamFromResponse
  rw [responseStream_eq hresp hreq]
  by_cases hreach : Reachable response
  · have hbind := (present_bind_iff hid).mpr hreach.2
    simp only [hreach.1, ↓reduceIte, hbind, Option.map_some, hreach, true_or, iff_true]
    exact sizeForStream_confirm hsize id
  · have hnone : (if (mapGet response "data").isSome then
        ((firstPresent (streamPlaces response)).bind streamIdOf).map (requestId.toNat, ·)
        else none) = none := by
      split
      · rename_i hdata
        rw [Option.map_eq_none_iff, ← Option.not_isSome_iff_eq_none]
        exact fun hsome => hreach ⟨hdata, hsome⟩
      · rfl
    simp only [hnone, hreach, false_or]

/-! ## Samples -/

def keyed (text : String) (value : Value) : Value × Value := (.string (.valid text), value)

def startOf (id : UInt64) : Value := .map [keyed "id" (.integer (.posInt id))]

/-- A response to request 2. -/
def responseTo (fields : List (Value × Value)) : Value :=
  .map (keyed "requestId" (.integer (.posInt 2)) :: fields)

def message (response : Value) : Value := .map [keyed "Response" response]

def pendingRegistry : TitanStreamRegistry :=
  TitanStreamRegistry.registerPendingRequest {} 2 500000000

theorem pendingRegistry_size : pendingRegistry.sizeForPendingRequest 2 = some 500000000 :=
  ExtTreeMap.getElem?_insert_self

theorem pendingRegistry_stream (id : UInt32) : pendingRegistry.sizeForStream id = none :=
  ExtTreeMap.getElem?_empty

theorem confirmation_recorded_sample :
    (registerStreamFromResponse
      (message (responseTo [keyed "data" (.map [keyed "StreamStart" (startOf 7)])]))
      pendingRegistry).sizeForStream 7 = some 500000000 :=
  (confirmation_recorded_iff rfl rfl pendingRegistry_size rfl).mpr (.inl ⟨rfl, rfl⟩)

/-- The first place is there, but nil. -/
def shadowed : Value :=
  responseTo [keyed "stream" .nil, keyed "data" (.map [keyed "stream" (startOf 7)])]

/-- The stream stands in the response, and there is no data field. -/
def dataless : Value := responseTo [keyed "stream" (startOf 7)]

/-- Either response holds id 7 in one of the four places, and it is not recorded. -/
theorem confirmation_missed :
    (∀ response ∈ [shadowed, dataless],
      mapGet (message response) "Response" = some response ∧
        (mapGet response "requestId").bind valueAsU64 = some 2 ∧
        firstUsable streamIdOf (streamPlaces response) = some 7 ∧
        (registerStreamFromResponse (message response) pendingRegistry).sizeForStream 7 = none) ∧
      pendingRegistry.sizeForPendingRequest 2 = some 500000000 := by
  refine ⟨?_, pendingRegistry_size⟩
  intro response hmem
  have hnone : responseStream (message response) = none := by
    rcases List.mem_pair.mp hmem with rfl | rfl <;> rfl
  refine ⟨rfl, ?_, ?_, ?_⟩
  · rcases List.mem_pair.mp hmem with rfl | rfl <;> rfl
  · rcases List.mem_pair.mp hmem with rfl | rfl <;> rfl
  · rw [registerStreamFromResponse, hnone]
    exact pendingRegistry_stream 7

end FeedMux.Titan
