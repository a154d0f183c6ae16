import FeedMux.Titan.Quote

/-!
# The size board (`src/titan_quote.rs`)

The board keeps a pin per quoted size, the hunt sizes, and the sizes marked
unsubscribed. A document merges the three (`doc_sizes`, `doc_pin`): strictly
ascending sizes, one pin for each quoted and each hunt size.
-/

namespace FeedMux.Titan
open FeedMux.Library Std

structure SizeBoardPin where
  sizeLamports : UInt64
  hop1AgeMs : UInt64
  hop1FreshMs : UInt64
  provider : String
  venueLabel : String
  routeInAmount : UInt64
  routeOutAmount : UInt64
  status : Option String
  deriving DecidableEq, Repr

structure TitanSizeBoard where
  pins : ExtTreeMap UInt64 SizeBoardPin := ∅
  huntSizes : List UInt64 := []
  unsubscribed : ExtTreeMap UInt64 Unit := ∅

structure TitanSizeBoardDoc where
  schema : String
  pair : String
  base : String
  mid : String
  updatedMs : UInt64
  pins : List SizeBoardPin
  deriving DecidableEq, Repr

structure TitanHop1Row where
  schema : String
  pair : String
  base : String
  mid : String
  sizeLamports : UInt64
  /-- Publish timestamp: consumers derive the hop-1 age from this plus key TTL. -/
  tsMs : UInt64
  provider : String
  routeInAmount : UInt64
  routeOutAmount : UInt64
  slippageBps : UInt16
  quoteId : Option String
  streamId : UInt32
  streamSeq : UInt32
  hop1 : Hop1Leg
  deriving DecidableEq, Repr

/-- The order in which a hash map iterates. -/
structure IterationOrder where
  arrange : {α : Type} → List α → List α
  perm : ∀ {α : Type} (l : List α), (arrange l).Perm l

def rowOf (quote : ParsedHop1Quote) (tsMs : UInt64) : TitanHop1Row where
  schema := "mux.titan.hop1.v1"
  pair := quote.pair
  base := quote.base
  mid := quote.mid
  sizeLamports := quote.sizeLamports
  tsMs := tsMs
  provider := quote.provider
  routeInAmount := quote.routeInAmount
  routeOutAmount := quote.routeOutAmount
  slippageBps := quote.slippageBps
  quoteId := quote.quoteId
  streamId := quote.streamId
  streamSeq := quote.streamSeq
  hop1 := quote.hop1

/-- The pin filed for a row. -/
def pinOf (row : TitanHop1Row) : SizeBoardPin where
  sizeLamports := row.sizeLamports
  hop1AgeMs := 0
  hop1FreshMs := row.tsMs
  provider := row.provider
  venueLabel := row.hop1.label
  routeInAmount := row.routeInAmount
  routeOutAmount := row.routeOutAmount
  status := none

def SizeBoardPin.aged (now : UInt64) (pin : SizeBoardPin) : SizeBoardPin :=
  { pin with hop1AgeMs := if pin.hop1FreshMs ≤ now then now - pin.hop1FreshMs else 0 }

/-- The pin of a hunt size without a quote. -/
def emptyPin (sizeLamports : UInt64) (unsubscribed : Bool) : SizeBoardPin where
  sizeLamports := sizeLamports
  hop1AgeMs := 0
  hop1FreshMs := 0
  provider := ""
  venueLabel := ""
  routeInAmount := 0
  routeOutAmount := 0
  status := if unsubscribed then some "unsubscribed" else none

namespace TitanSizeBoard

def clear (_ : TitanSizeBoard) : TitanSizeBoard := {}

def initHuntSizes (board : TitanSizeBoard) (sizes : List UInt64) : TitanSizeBoard :=
  { board with huntSizes := sizes }

def markUnsubscribed (board : TitanSizeBoard) (sizeLamports : UInt64) : TitanSizeBoard :=
  { board with unsubscribed := board.unsubscribed.insert sizeLamports () }

/-- What publishing a row does to the board. -/
def record (board : TitanSizeBoard) (row : TitanHop1Row) : TitanSizeBoard :=
  { board with
    unsubscribed := board.unsubscribed.erase row.sizeLamports
    pins := board.pins.insert row.sizeLamports (pinOf row) }

end TitanSizeBoard

def buildSizeBoardDocWithPair (board : TitanSizeBoard) (order : IterationOrder) (now : UInt64)
    (pair base mid : String) : TitanSizeBoardDoc :=
  let pins := (order.arrange (valuesInOrder board.pins)).map (SizeBoardPin.aged now)
  let missing := board.huntSizes.filter fun size => !board.pins.contains size
  let pins := pins ++ missing.map fun size => emptyPin size (board.unsubscribed.contains size)
  { schema := "mux.titan.size_board.v1"
    pair := pair
    base := base
    mid := mid
    updatedMs := now
    pins := sortByKey SizeBoardPin.sizeLamports pins }

/-! ## Documents -/

/-- Every pin is filed under its own size. -/
def TitanSizeBoard.Filed (board : TitanSizeBoard) : Prop :=
  ∀ (size : UInt64) (pin : SizeBoardPin), board.pins[size]? = some pin → pin.sizeLamports = size

section
variable {board : TitanSizeBoard} {order : IterationOrder} {now : UInt64} {pair base mid : String}

theorem mem_doc {pin : SizeBoardPin} :
    pin ∈ (buildSizeBoardDocWithPair board order now pair base mid).pins ↔
      (∃ (size : UInt64) (filed : SizeBoardPin),
          board.pins[size]? = some filed ∧ filed.aged now = pin) ∨
        ∃ size ∈ board.huntSizes, board.pins[size]? = none ∧
          emptyPin size (board.unsubscribed.contains size) = pin := by
  unfold buildSizeBoardDocWithPair
  simp only [(sortByKey_perm _ _).mem_iff, List.mem_append, List.mem_map, (order.perm _).mem_iff,
    mem_valuesInOrder, List.mem_filter, ← ExtTreeMap.isSome_getElem?_eq_contains,
    Bool.not_eq_true', Option.isSome_eq_false_iff, Option.isNone_iff_eq_none]
  constructor
  · rintro (⟨filed, ⟨size, hs⟩, rfl⟩ | ⟨size, ⟨hm, hn⟩, rfl⟩)
    · exact .inl ⟨size, filed, hs, rfl⟩
    · exact .inr ⟨size, hm, hn, rfl⟩
  · rintro (⟨size, filed, hs, rfl⟩ | ⟨size, hm, hn, rfl⟩)
    · exact .inl ⟨filed, ⟨size, hs⟩, rfl⟩
    · exact .inr ⟨size, ⟨hm, hn⟩, rfl⟩

theorem filed_sizes (h : board.Filed) :
    (valuesInOrder board.pins).map SizeBoardPin.sizeLamports =
      (entries board.pins).map Prod.fst := by
  rw [valuesInOrder, List.map_map]
  exact List.map_congr_left fun e he => h e.1 e.2 (mem_entries.mp he)

/-- **Document sizes.** They are strictly ascending. -/
theorem doc_sorted (h : board.Filed) (hl : board.huntSizes.Nodup) :
    ((buildSizeBoardDocWithPair board order now pair base mid).pins.map
      SizeBoardPin.sizeLamports).Pairwise (· < ·) := by
  rw [buildSizeBoardDocWithPair, List.pairwise_map]
  refine (sortByKey_sorted ?_).imp fun h => compare_eq_lt.mp h
  have hfiled : ((order.arrange (valuesInOrder board.pins)).map (SizeBoardPin.aged now)).map
      SizeBoardPin.sizeLamports =
      (order.arrange (valuesInOrder board.pins)).map SizeBoardPin.sizeLamports := List.map_map ..
  have hmissing (sizes : List UInt64) :
      (sizes.map fun size => emptyPin size (board.unsubscribed.contains size)).map
        SizeBoardPin.sizeLamports = sizes := by
    rw [List.map_map]
    exact List.map_id _
  rw [List.map_append, hfiled, hmissing, (((order.perm _).map _).append_right _).nodup_iff,
    filed_sizes h, List.nodup_append]
  refine ⟨nodup_of_sorted (entries_sorted _), hl.filter _, ?_⟩
  rintro size hs size' hs' rfl
  obtain ⟨e, he, rfl⟩ := List.mem_map.mp hs
  have hc := (List.mem_filter.mp hs').2
  rw [← ExtTreeMap.isSome_getElem?_eq_contains, mem_entries.mp he] at hc
  cases hc

end

namespace TitanSizeBoard

/-! ## What the history of a session determines -/

/-- The board of a session: its ladder, the sizes marked unsubscribed, its rows. -/
def ofHistory (ladder marked : List UInt64) (rows : List TitanHop1Row) : TitanSizeBoard :=
  rows.foldl record
    { huntSizes := ladder, unsubscribed := insertAll ∅ (marked.map fun size => (size, ())) }

/-- The last row published for a size. -/
def lastRow (rows : List TitanHop1Row) (size : UInt64) : Option TitanHop1Row :=
  lastWrite (rows.map fun row => (row.sizeLamports, row)) size

variable (ladder marked : List UInt64) (rows : List TitanHop1Row)

theorem ofHistory_concat (row : TitanHop1Row) :
    ofHistory ladder marked (rows ++ [row]) = (ofHistory ladder marked rows).record row := by
  simp [ofHistory]

theorem ofHistory_huntSizes : (ofHistory ladder marked rows).huntSizes = ladder := by
  induction rows using List.reverseRecOn with
  | nil => rfl
  | append_singleton rows row ih => rw [ofHistory_concat]; exact ih

theorem lastRow_concat (row : TitanHop1Row) (size : UInt64) :
    lastRow (rows ++ [row]) size =
      if row.sizeLamports = size then some row else lastRow rows size := by
  unfold lastRow
  rw [List.map_append, List.map_singleton, lastWrite_concat]

theorem ofHistory_pins (size : UInt64) :
    (ofHistory ladder marked rows).pins[size]? = (lastRow rows size).map pinOf := by
  induction rows using List.reverseRecOn with
  | nil => rfl
  | append_singleton rows row ih =>
    rw [ofHistory_concat, lastRow_concat]
    rw [record, ExtTreeMap.getElem?_insert, ih]
    by_cases h : row.sizeLamports = size <;> simp [h]

/-- A size without a row is still marked if it was marked. -/
theorem ofHistory_unsubscribed {size : UInt64}
    (h : size ∉ rows.map TitanHop1Row.sizeLamports) :
    (ofHistory ladder marked rows).unsubscribed.contains size ↔ size ∈ marked := by
  induction rows using List.reverseRecOn with
  | nil =>
    have hm : (ofHistory ladder marked []).unsubscribed =
        insertAll ∅ (marked.map fun size => (size, ())) := rfl
    rw [hm, ← ExtTreeMap.isSome_getElem?_eq_contains, getElem?_insertAll, isSome_lastWrite]
    simp
  | append_singleton rows row ih =>
    simp only [List.map_append, List.map_singleton, List.mem_append, List.mem_singleton,
      not_or] at h
    rw [ofHistory_concat, ← ih h.1]
    simp [record, ExtTreeMap.contains_erase, Ne.symm h.2]

variable {rows}

theorem lastRow_size {size : UInt64} {row : TitanHop1Row} (h : lastRow rows size = some row) :
    row.sizeLamports = size := by
  obtain ⟨_, _, he⟩ := List.mem_map.mp (mem_of_lastWrite h)
  obtain ⟨hs, rfl⟩ := Prod.mk.inj he
  exact hs

theorem lastRow_isSome {size : UInt64} :
    (lastRow rows size).isSome ↔ size ∈ rows.map TitanHop1Row.sizeLamports := by
  rw [lastRow, isSome_lastWrite, List.map_map]
  rfl

theorem lastRow_eq_none {size : UInt64} :
    lastRow rows size = none ↔ size ∉ rows.map TitanHop1Row.sizeLamports := by
  rw [← lastRow_isSome, Option.not_isSome_iff_eq_none]

variable (rows)

theorem ofHistory_filed : (ofHistory ladder marked rows).Filed := by
  intro size pin h
  rw [ofHistory_pins] at h
  obtain ⟨row, hr, rfl⟩ := Option.map_eq_some_iff.mp h
  exact lastRow_size hr

end TitanSizeBoard

/-- The document tells this history of a session. -/
structure DocMatches (ladder marked : List UInt64) (rows : List TitanHop1Row)
    (doc : TitanSizeBoardDoc) : Prop where
  sorted : (doc.pins.map SizeBoardPin.sizeLamports).Pairwise (· < ·)
  sizes : ∀ size, size ∈ doc.pins.map SizeBoardPin.sizeLamports ↔
    size ∈ ladder ∨ size ∈ rows.map TitanHop1Row.sizeLamports
  quoted : ∀ pin ∈ doc.pins, ∀ row, TitanSizeBoard.lastRow rows pin.sizeLamports = some row →
    pin.provider = row.provider ∧ pin.venueLabel = row.hop1.label ∧
      pin.routeInAmount = row.routeInAmount ∧ pin.routeOutAmount = row.routeOutAmount ∧
      pin.hop1FreshMs = row.tsMs ∧ pin.status = none
  unquoted : ∀ pin ∈ doc.pins, pin.sizeLamports ∉ rows.map TitanHop1Row.sizeLamports →
    (pin.status = some "unsubscribed" ↔ pin.sizeLamports ∈ marked)

/-- **Documents tell the history.** -/
theorem doc_matches (ladder marked : List UInt64) (rows : List TitanHop1Row)
    (hl : ladder.Nodup) (order : IterationOrder) (now : UInt64) (pair base mid : String) :
    DocMatches ladder marked rows
      (buildSizeBoardDocWithPair (.ofHistory ladder marked rows) order now pair base mid) where
  sorted := doc_sorted (TitanSizeBoard.ofHistory_filed ladder marked rows)
    (by rwa [TitanSizeBoard.ofHistory_huntSizes])
  sizes size := by
    simp only [List.mem_map (f := SizeBoardPin.sizeLamports), mem_doc,
      TitanSizeBoard.ofHistory_huntSizes, TitanSizeBoard.ofHistory_pins]
    constructor
    · rintro ⟨pin, ⟨size, filed, hf, rfl⟩ | ⟨size, hm, _, rfl⟩, rfl⟩
      · obtain ⟨row, hr, rfl⟩ := Option.map_eq_some_iff.mp hf
        refine .inr (TitanSizeBoard.lastRow_isSome.mp ?_)
        show (TitanSizeBoard.lastRow rows row.sizeLamports).isSome
        rw [TitanSizeBoard.lastRow_size hr, hr]
        rfl
      · exact .inl hm
    · intro h
      cases hr : TitanSizeBoard.lastRow rows size with
      | some row =>
        exact ⟨_, .inl ⟨size, pinOf row, by simp [hr], rfl⟩, TitanSizeBoard.lastRow_size hr⟩
      | none =>
        have hm : size ∈ ladder := h.resolve_right (TitanSizeBoard.lastRow_eq_none.mp hr)
        exact ⟨_, .inr ⟨size, hm, by simp [hr], rfl⟩, rfl⟩
  quoted pin hp row hrow := by
    rcases mem_doc.mp hp with ⟨size, filed, hf, rfl⟩ | ⟨size, _, hn, rfl⟩
    · rw [TitanSizeBoard.ofHistory_pins] at hf
      obtain ⟨row', hr, rfl⟩ := Option.map_eq_some_iff.mp hf
      have hs : row'.sizeLamports = size := TitanSizeBoard.lastRow_size hr
      obtain rfl : row' = row := by
        have he : TitanSizeBoard.lastRow rows row'.sizeLamports = some row := hrow
        rw [hs, hr] at he
        exact Option.some.inj he
      exact ⟨rfl, rfl, rfl, rfl, rfl, rfl⟩
    · rw [TitanSizeBoard.ofHistory_pins, show TitanSizeBoard.lastRow rows size = some row from hrow]
        at hn
      cases hn
  unquoted pin hp hq := by
    rcases mem_doc.mp hp with ⟨size, filed, hf, rfl⟩ | ⟨size, _, _, rfl⟩
    · rw [TitanSizeBoard.ofHistory_pins] at hf
      obtain ⟨row, hr, rfl⟩ := Option.map_eq_some_iff.mp hf
      refine absurd (TitanSizeBoard.lastRow_isSome.mp ?_) hq
      show (TitanSizeBoard.lastRow rows row.sizeLamports).isSome
      rw [TitanSizeBoard.lastRow_size hr, hr]
      rfl
    · have hm : (TitanSizeBoard.ofHistory ladder marked rows).unsubscribed.contains size ↔
          size ∈ marked := TitanSizeBoard.ofHistory_unsubscribed ladder marked rows hq
      show (emptyPin size _).status = some "unsubscribed" ↔ size ∈ marked
      rw [← hm]
      simp [emptyPin]

end FeedMux.Titan
