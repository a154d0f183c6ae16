import FeedMux.RedisTasks
import FeedMux.Titan.Message

/-!
# What a frame publishes (`handle_titan_server_message` in `src/titan_quote.rs`)

A frame publishes at most one quote (`quoteOf`). `frameOps` is the sequence of
`RedisFanout` operations that handling the frame performs; the rows and board
documents it stores are those of its quote.
-/

namespace FeedMux.Titan
open FeedMux.Library FeedMux.Library.KeyValue

/-- The quote that a frame publishes. -/
def quoteOf (env : TitanEnv) (st : TitanState) (frame : TitanFrame) : Option ParsedHop1Quote :=
  (env.decode frame.data).bind fun value =>
    if mapContainsKey value "StreamData" then
      parseStreamDataHop1 env.bs58 (mapGet value "StreamData") st.registry
    else none

/-- The board document that a published quote stores. -/
def docOf (board : TitanSizeBoard) (quote : ParsedHop1Quote) (clock : FrameClock) :
    TitanSizeBoardDoc :=
  buildSizeBoardDocWithPair (board.record (rowOf quote clock.rowMs)) clock.order clock.boardMs
    quote.pair quote.base quote.mid

section
variable {env : TitanEnv} {st : TitanState} {frame : TitanFrame}

theorem handle_quote {quote : ParsedHop1Quote} (h : quoteOf env st frame = some quote) :
    handleTitanServerMessage env st frame =
      ({ st with board := st.board.record (rowOf quote frame.clock.rowMs) },
        ⟨.hop1Published, (publishHop1Quote env st.board quote frame.clock).2⟩) := by
  obtain ⟨value, hv, hq⟩ := Option.bind_eq_some_iff.mp h
  unfold handleTitanServerMessage
  rw [hv]
  by_cases hs : mapContainsKey value "StreamData"
  · simp only [hs, ↓reduceIte] at hq ⊢
    rw [hq]
    rfl
  · simp only [hs, Bool.false_eq_true, ↓reduceIte] at hq
    cases hq

/-- Without a quote the board stays, and at most one counter is bumped. -/
theorem handle_no_quote (h : quoteOf env st frame = none) :
    (handleTitanServerMessage env st frame).1.board = st.board ∧
      (handleTitanServerMessage env st frame).2.kind ≠ .hop1Published ∧
      ((handleTitanServerMessage env st frame).2.calls = [] ∨
        (handleTitanServerMessage env st frame).2.calls = env.fanout.incr MuxKeys.titanErrors ∨
        (handleTitanServerMessage env st frame).2.calls =
          env.fanout.incr MuxKeys.titanFellThrough) := by
  have ha := handle_answered env st frame
  generalize (handleTitanServerMessage env st frame).1 = next at ha ⊢
  generalize (handleTitanServerMessage env st frame).2 = out at ha ⊢
  cases ha with
  | failed kind hk =>
    refine ⟨rfl, ?_, .inr (.inl rfl)⟩
    rintro rfl
    exact absurd hk (by decide)
  | fellThrough kind hk =>
    refine ⟨rfl, ?_, .inr (.inr rfl)⟩
    rintro rfl
    exact absurd hk (by decide)
  | responded value hv hs hr => exact ⟨rfl, by simp, .inl rfl⟩
  | published value quote hv hq =>
    have hs : mapContainsKey value "StreamData" = true := by
      by_contra hs
      have hn : mapGet value "StreamData" = none := not_mapContainsKey (by simpa using hs)
      rw [hn] at hq
      cases hq
    rw [quoteOf, hv, Option.bind_some, if_pos hs, hq] at h
    cases h

/-! ## Operations -/

/-- Publishing a quote writes the row, the board document and the counters. -/
def publishOps (env : TitanEnv) (board : TitanSizeBoard) (quote : ParsedHop1Quote)
    (clock : FrameClock) : List (TitanOp TitanDocument) :=
  [.hop1 (.hop1Row (rowOf quote clock.rowMs)) quote.pair quote.sizeLamports env.hop1TtlSecs,
    .sizeBoard (.sizeBoard (docOf board quote clock)),
    .message .quotePublished clock.doneMs]

/-- The operations for a frame that publishes no quote. -/
def answerOps (kind : TitanMessageKind) (nowMs : UInt64) : List (TitanOp TitanDocument) :=
  match kind with
  | .decodeError => [.decodeError]
  | .error => [.message .rpcError nowMs]
  | .streamDataNoHop1 | .unhandled => [.message .unhandled nowMs]
  | .response | .hop1Published => []

def frameOps (env : TitanEnv) (st : TitanState) (frame : TitanFrame) :
    List (TitanOp TitanDocument) :=
  match quoteOf env st frame with
  | some quote => publishOps env st.board quote frame.clock
  | none => answerOps (handleTitanServerMessage env st frame).2.kind frame.clock.doneMs

/-- **Operations of a frame.** They make exactly the calls of the frame. -/
theorem frameOps_calls (env : TitanEnv) (st : TitanState) (frame : TitanFrame) :
    (frameOps env st frame).flatMap (TitanOp.calls env.fanout) =
      (handleTitanServerMessage env st frame).2.calls := by
  unfold frameOps
  cases hq : quoteOf env st frame with
  | some quote =>
    rw [handle_quote hq]
    simp [publishOps, TitanOp.calls, publishHop1Quote, publishSizeBoardSnapshot, docOf]
  | none =>
    have ha := handle_answered env st frame
    have hkind := (handle_no_quote hq).2.1
    generalize (handleTitanServerMessage env st frame).1 = next at ha
    generalize (handleTitanServerMessage env st frame).2 = out at ha hkind ⊢
    cases ha with
    | failed kind hk =>
      simp only [List.mem_cons, List.not_mem_nil, or_false] at hk
      rcases hk with rfl | rfl <;>
        simp [answerOps, TitanOp.calls, RedisFanout.recordTitanDecodeError,
          RedisFanout.recordTitanMessage]
    | fellThrough kind hk =>
      simp only [List.mem_cons, List.not_mem_nil, or_false] at hk
      rcases hk with rfl | rfl <;>
        simp [answerOps, TitanOp.calls, RedisFanout.recordTitanMessage]
    | responded value hv hs hr => rfl
    | published value quote hv hq => exact absurd rfl hkind

/-! ## What is stored -/

/-- The hop-1 row that a command writes to its key. -/
def storedRow : RedisCmd TitanDocument → Option TitanHop1Row
  | .setEx key (.doc (.row (.hop1Row row))) _ =>
    if key = MuxKeys.hop1RowKey row.pair row.sizeLamports then some row else none
  | _ => none

/-- The board document that a command stores. -/
def storedDoc : RedisCmd TitanDocument → Option TitanSizeBoardDoc
  | .set key (.doc (.row (.sizeBoard doc))) =>
    if key = MuxKeys.titanSizeBoard then some doc else none
  | _ => none

def rowsWritten (calls : List (RedisCall TitanDocument)) : List TitanHop1Row :=
  calls.flatten.filterMap storedRow

def docsStored (calls : List (RedisCall TitanDocument)) : List TitanSizeBoardDoc :=
  calls.flatten.filterMap storedDoc

theorem incr_stores (key : String) :
    rowsWritten (env.fanout.incr key) = [] ∧ docsStored (env.fanout.incr key) = [] := by
  unfold RedisFanout.incr RedisFanout.calls
  split <;> exact ⟨rfl, rfl⟩

/-- A published quote stores its row and one board document. -/
theorem quote_stores (hw : env.fanout.writes = true) (board : TitanSizeBoard)
    (quote : ParsedHop1Quote) (clock : FrameClock) :
    rowsWritten (publishHop1Quote env board quote clock).2 = [rowOf quote clock.rowMs] ∧
      docsStored (publishHop1Quote env board quote clock).2 = [docOf board quote clock] := by
  constructor
  · simp [publishHop1Quote, publishSizeBoardSnapshot, RedisFanout.publishTitanHop1,
      RedisFanout.publishTitanSizeBoard, RedisFanout.recordTitanMessage,
      RedisFanout.recordTitanQuoteSuccess, RedisFanout.calls_of_writes hw, rowsWritten, storedRow,
      RedisFanout.setMs, RedisFanout.setInt, rowOf]
  · simp [publishHop1Quote, publishSizeBoardSnapshot, RedisFanout.publishTitanHop1,
      RedisFanout.publishTitanSizeBoard, RedisFanout.recordTitanMessage,
      RedisFanout.recordTitanQuoteSuccess, RedisFanout.calls_of_writes hw, docsStored,
      RedisFanout.setMs, RedisFanout.setInt, docOf]
    rfl

theorem no_quote_stores {st : TitanState} {frame : TitanFrame} (h : quoteOf env st frame = none) :
    rowsWritten (handleTitanServerMessage env st frame).2.calls = [] ∧
      docsStored (handleTitanServerMessage env st frame).2.calls = [] := by
  rcases (handle_no_quote h).2.2 with h | h | h
  · rw [h]
    exact ⟨rfl, rfl⟩
  · rw [h]
    exact incr_stores _
  · rw [h]
    exact incr_stores _

theorem frame_rows (hw : env.fanout.writes = true) (st : TitanState) (frame : TitanFrame) :
    rowsWritten (handleTitanServerMessage env st frame).2.calls =
      (quoteOf env st frame).toList.map fun quote => rowOf quote frame.clock.rowMs := by
  cases hq : quoteOf env st frame with
  | some quote =>
    rw [handle_quote hq]
    exact (quote_stores hw st.board quote frame.clock).1
  | none => exact (no_quote_stores hq).1

theorem frame_docs (hw : env.fanout.writes = true) (st : TitanState) (frame : TitanFrame) :
    docsStored (handleTitanServerMessage env st frame).2.calls =
      (quoteOf env st frame).toList.map fun quote => docOf st.board quote frame.clock := by
  cases hq : quoteOf env st frame with
  | some quote =>
    rw [handle_quote hq]
    exact (quote_stores hw st.board quote frame.clock).2
  | none => exact (no_quote_stores hq).2

/-- Nothing is called in a dry run or without a connection. -/
theorem frame_silent (hw : env.fanout.writes = false) (st : TitanState) (frame : TitanFrame) :
    (handleTitanServerMessage env st frame).2.calls = [] := by
  cases hq : quoteOf env st frame with
  | some quote =>
    rw [handle_quote hq]
    simp [publishHop1Quote, publishSizeBoardSnapshot, RedisFanout.publishTitanHop1,
      RedisFanout.publishTitanSizeBoard, RedisFanout.recordTitanMessage,
      RedisFanout.recordTitanQuoteSuccess, RedisFanout.calls_of_not_writes hw]
  | none =>
    rcases (handle_no_quote hq).2.2 with h | h | h
    · exact h
    · rw [h]
      exact RedisFanout.calls_of_not_writes hw _
    · rw [h]
      exact RedisFanout.calls_of_not_writes hw _

end

/-! ## Runs of frames -/

/-- The quotes that frames publish, with the clocks of their frames. -/
def quotesOf (env : TitanEnv) (st : TitanState) (frames : List TitanFrame) :
    List (ParsedHop1Quote × FrameClock) :=
  collect (handleTitanServerMessage env)
    (fun st frame => (quoteOf env st frame).map fun quote => (quote, frame.clock)) st frames

theorem quotesOf_append (env : TitanEnv) (st : TitanState) (frames more : List TitanFrame) :
    quotesOf env st (frames ++ more) =
      quotesOf env st frames ++
        quotesOf env (runs (handleTitanServerMessage env) st frames).1 more :=
  collect_append ..

theorem quotesOf_concat (env : TitanEnv) (st : TitanState) (frames : List TitanFrame)
    (frame : TitanFrame) :
    quotesOf env st (frames ++ [frame]) =
      quotesOf env st frames ++
        (quoteOf env (runs (handleTitanServerMessage env) st frames).1 frame).toList.map
          fun quote => (quote, frame.clock) := by
  rw [quotesOf, collect_concat, ← Option.toList_map]
  rfl

/-- Every published quote was published by a frame. -/
theorem quotesOf_split {env : TitanEnv} {st : TitanState} {frames : List TitanFrame}
    {before after : List (ParsedHop1Quote × FrameClock)} {published : ParsedHop1Quote × FrameClock}
    (h : quotesOf env st frames = before ++ published :: after) :
    ∃ pre frame post, frames = pre ++ frame :: post ∧ quotesOf env st pre = before ∧
      quoteOf env (runs (handleTitanServerMessage env) st pre).1 frame = some published.1 ∧
      frame.clock = published.2 := by
  obtain ⟨pre, frame, post, rfl, hpre, hfound⟩ := collect_split h
  obtain ⟨quote, hquote, rfl⟩ := Option.map_eq_some_iff.mp hfound
  exact ⟨pre, frame, post, rfl, hpre, hquote, rfl⟩

end FeedMux.Titan
