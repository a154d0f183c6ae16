import FeedMux.Mints
import FeedMux.RedisFanout
import FeedMux.Titan.Board
import FeedMux.Titan.MessagePack

/-!
# Titan frames (`src/titan_quote.rs`)

`handleTitanServerMessage` answers one binary frame with its kind and the
Redis calls it makes. After the boot reset the counters in Redis count the
kinds (`frame_accounting`), for every decoder and every sequence of frames.
-/

namespace FeedMux.Titan
open FeedMux.Library FeedMux.Library.KeyValue

inductive TitanMessageKind where
  | hop1Published
  | streamDataNoHop1
  | decodeError
  | response
  | error
  | unhandled
  deriving DecidableEq, Repr

inductive TitanDocument where
  | hop1Row (row : TitanHop1Row)
  | sizeBoard (doc : TitanSizeBoardDoc)
  deriving DecidableEq, Repr

/-- `decode` is `rmpv::decode::read_value`. -/
structure TitanEnv where
  bs58 : Bs58
  decode : Bytes → Option Value
  fanout : RedisFanout
  hop1TtlSecs : UInt64

/-- The clock readings while a frame is handled, and the order in which the
board's map is iterated. -/
structure FrameClock where
  rowMs : UInt64
  boardMs : UInt64
  doneMs : UInt64
  order : IterationOrder

structure TitanFrame where
  data : Bytes
  clock : FrameClock

structure TitanState where
  registry : TitanStreamRegistry := {}
  board : TitanSizeBoard := {}

structure TitanOutput where
  kind : TitanMessageKind
  calls : List (RedisCall TitanDocument)

def publishSizeBoardSnapshot (fanout : RedisFanout) (board : TitanSizeBoard)
    (order : IterationOrder) (now : UInt64) (pair base mid : String) :
    List (RedisCall TitanDocument) :=
  fanout.publishTitanSizeBoard
    (.sizeBoard (buildSizeBoardDocWithPair board order now pair base mid))

/-- The board is updated first; then row, board document and counters are written. -/
def publishHop1Quote (env : TitanEnv) (board : TitanSizeBoard) (quote : ParsedHop1Quote)
    (clock : FrameClock) : TitanSizeBoard × List (RedisCall TitanDocument) :=
  let row := rowOf quote clock.rowMs
  let board := board.record row
  (board,
    env.fanout.publishTitanHop1 (.hop1Row row) quote.pair quote.sizeLamports env.hop1TtlSecs ++
      publishSizeBoardSnapshot env.fanout board clock.order clock.boardMs quote.pair quote.base
        quote.mid ++
      env.fanout.recordTitanMessage .quotePublished clock.doneMs)

def handleTitanServerMessage (env : TitanEnv) (st : TitanState) (frame : TitanFrame) :
    TitanState × TitanOutput :=
  let nowMs := frame.clock.doneMs
  match env.decode frame.data with
  | none => (st, ⟨.decodeError, env.fanout.recordTitanDecodeError⟩)
  | some value =>
    if mapContainsKey value "StreamData" then
      match parseStreamDataHop1 env.bs58 (mapGet value "StreamData") st.registry with
      | some quote =>
        let (board, calls) := publishHop1Quote env st.board quote frame.clock
        ({ st with board }, ⟨.hop1Published, calls⟩)
      | none => (st, ⟨.streamDataNoHop1, env.fanout.recordTitanMessage .unhandled nowMs⟩)
    else if mapContainsKey value "Response" then
      ({ st with registry := registerStreamFromResponse value st.registry }, ⟨.response, []⟩)
    else if mapContainsKey value "Error" then
      (st, ⟨.error, env.fanout.recordTitanMessage .rpcError nowMs⟩)
    else (st, ⟨.unhandled, env.fanout.recordTitanMessage .unhandled nowMs⟩)

/-! ## What one frame can do -/

/-- The calls behind each kind of answer. -/
inductive Answered (env : TitanEnv) (st : TitanState) (frame : TitanFrame) :
    TitanState → TitanOutput → Prop where
  | failed (kind : TitanMessageKind) (hk : kind ∈ [.decodeError, .error]) :
    Answered env st frame st ⟨kind, env.fanout.incr MuxKeys.titanErrors⟩
  | fellThrough (kind : TitanMessageKind) (hk : kind ∈ [.streamDataNoHop1, .unhandled]) :
    Answered env st frame st ⟨kind, env.fanout.incr MuxKeys.titanFellThrough⟩
  | responded (value : Value) (hv : env.decode frame.data = some value)
      (hs : mapContainsKey value "StreamData" = false)
      (hr : mapContainsKey value "Response" = true) :
    Answered env st frame
      { st with registry := registerStreamFromResponse value st.registry } ⟨.response, []⟩
  | published (value : Value) (quote : ParsedHop1Quote) (hv : env.decode frame.data = some value)
      (hq : parseStreamDataHop1 env.bs58 (mapGet value "StreamData") st.registry = some quote) :
    Answered env st frame { st with board := st.board.record (rowOf quote frame.clock.rowMs) }
      ⟨.hop1Published, (publishHop1Quote env st.board quote frame.clock).2⟩

theorem handle_answered (env : TitanEnv) (st : TitanState) (frame : TitanFrame) :
    Answered env st frame (handleTitanServerMessage env st frame).1
      (handleTitanServerMessage env st frame).2 := by
  unfold handleTitanServerMessage
  cases hv : env.decode frame.data with
  | none => exact .failed _ (by decide)
  | some value =>
    by_cases hs : mapContainsKey value "StreamData"
    · simp only [hs, ↓reduceIte]
      cases hq : parseStreamDataHop1 env.bs58 (mapGet value "StreamData") st.registry with
      | none => exact .fellThrough _ (by decide)
      | some quote => exact .published value quote hv hq
    · by_cases hr : mapContainsKey value "Response"
      · simp only [hs, hr, ↓reduceIte, Bool.false_eq_true]
        exact .responded value hv (by simpa using hs) hr
      · by_cases he : mapContainsKey value "Error"
        · simp only [hs, hr, he, ↓reduceIte, Bool.false_eq_true]
          exact .failed _ (by decide)
        · simp only [hs, hr, he, ↓reduceIte, Bool.false_eq_true]
          exact .fellThrough _ (by decide)

/-! ## Accounting -/

def titanCounters : List String :=
  [MuxKeys.titanFrames, MuxKeys.titanDecoded, MuxKeys.titanHop1Served, MuxKeys.titanErrors,
    MuxKeys.titanFellThrough, MuxKeys.titanServed]

/-- The kinds of answer that a counter counts. -/
def countedKinds (key : String) : List TitanMessageKind :=
  if key = MuxKeys.titanErrors then [.decodeError, .error]
  else if key = MuxKeys.titanFellThrough then [.streamDataNoHop1, .unhandled]
  else if key = MuxKeys.titanServed then []
  else [.hop1Published]

theorem counters_not_rows :
    ∀ key ∈ titanCounters, ¬ MuxKeys.hop1Prefix <+: key.toList := by decide

theorem failed_share : ∀ key ∈ titanCounters, ∀ kind ∈ [TitanMessageKind.decodeError, .error],
    (if MuxKeys.titanErrors = key then 1 else 0 : Int) =
      if kind ∈ countedKinds key then 1 else 0 := by decide

theorem fellThrough_share :
    ∀ key ∈ titanCounters, ∀ kind ∈ [TitanMessageKind.streamDataNoHop1, .unhandled],
      (if MuxKeys.titanFellThrough = key then 1 else 0 : Int) =
        if kind ∈ countedKinds key then 1 else 0 := by decide

theorem response_share : ∀ key ∈ titanCounters, TitanMessageKind.response ∉ countedKinds key := by
  decide

section
variable {env : TitanEnv} {key : String}

/-- Publishing a quote bumps the three quote counters once, in three places. -/
theorem publish_counts (hd : env.fanout.dryRun = false) (hc : env.fanout.connected = true)
    (hk : key ∈ titanCounters) (board : TitanSizeBoard) (quote : ParsedHop1Quote)
    (clock : FrameClock) :
    (∀ c ∈ (publishHop1Quote env board quote clock).2.flatten, ¬ c.Overwrites key) ∧
      increments key (publishHop1Quote env board quote clock).2.flatten =
        if .hop1Published ∈ countedKinds key then 1 else 0 := by
  have hrow : ¬ MuxKeys.hop1RowKey quote.pair quote.sizeLamports = key :=
    MuxKeys.hop1RowKey_ne (counters_not_rows key hk)
  have hcalls (cs : List (RedisCall TitanDocument)) : env.fanout.calls cs = cs := by
    simp [RedisFanout.calls, hd, hc]
  simp only [publishHop1Quote, publishSizeBoardSnapshot, RedisFanout.publishTitanHop1,
    RedisFanout.publishTitanSizeBoard, RedisFanout.recordTitanMessage,
    RedisFanout.recordTitanQuoteSuccess, hcalls, List.cons_append, List.nil_append,
    List.flatten_cons, List.flatten_nil, List.append_nil]
  constructor
  · have hother {other : String} (ho : other ∉ titanCounters) : ¬ other = key :=
      fun h => ho (h ▸ hk)
    simp only [List.forall_mem_cons, RedisFanout.setMs, RedisFanout.setInt, Cmd.Overwrites,
      Cmd.key, not_false_eq_true, true_and]
    refine ⟨hrow, hother (by decide), hother (by decide), hother (by decide),
      hother (by decide), hother (by decide), ?_⟩
    simp
  · simp only [increments_cons, increments_nil, Cmd.amount, RedisFanout.setMs,
      RedisFanout.setInt, zero_add, add_zero]
    simp only [titanCounters, List.mem_cons, List.not_mem_nil, or_false] at hk
    rcases hk with rfl | rfl | rfl | rfl | rfl | rfl <;> decide

theorem incr_counts (hd : env.fanout.dryRun = false) (hc : env.fanout.connected = true)
    (bumped key : String) :
    (∀ c ∈ (env.fanout.incr bumped : List (RedisCall TitanDocument)).flatten,
        ¬ c.Overwrites key) ∧
      increments key (env.fanout.incr bumped : List (RedisCall TitanDocument)).flatten =
        if bumped = key then 1 else 0 := by
  simp [RedisFanout.incr, RedisFanout.calls, hd, hc, Cmd.Overwrites, Cmd.amount]

/-- **One frame.** Its calls add one to the counters of its kind, nothing to the others. -/
theorem answered_counts (hd : env.fanout.dryRun = false) (hc : env.fanout.connected = true)
    (hk : key ∈ titanCounters) {st st' : TitanState} {frame : TitanFrame} {out : TitanOutput}
    (h : Answered env st frame st' out) :
    (∀ c ∈ out.calls.flatten, ¬ c.Overwrites key) ∧
      increments key out.calls.flatten = if out.kind ∈ countedKinds key then 1 else 0 := by
  cases h with
  | failed kind hkind =>
    obtain ⟨hov, hinc⟩ := incr_counts hd hc MuxKeys.titanErrors key
    exact ⟨hov, hinc.trans (failed_share key hk kind hkind)⟩
  | fellThrough kind hkind =>
    obtain ⟨hov, hinc⟩ := incr_counts hd hc MuxKeys.titanFellThrough key
    exact ⟨hov, hinc.trans (fellThrough_share key hk kind hkind)⟩
  | responded value hv hs hr => exact ⟨by simp, (if_neg (response_share key hk)).symm⟩
  | published value quote hv hq => exact publish_counts hd hc hk st.board quote frame.clock

/-- The boot reset sets every counter to zero. -/
theorem boot_counter (hd : env.fanout.dryRun = false) (hc : env.fanout.connected = true)
    (hk : key ∈ titanCounters) (redis : Redis TitanDocument) :
    counter (redis.after env.fanout.resetTitanStateAtBoot) key = some 0 := by
  have hcalls (cs : List (RedisCall TitanDocument)) : env.fanout.calls cs = cs := by
    simp [RedisFanout.calls, hd, hc]
  refine counter_eq_some.mpr ⟨none, ?_⟩
  rw [Redis.after, RedisFanout.resetTitanStateAtBoot, hcalls]
  refine exec_set ?_ ?_ redis
  · revert key
    decide
  · revert key
    decide

/-- Handle a frame and apply its Redis calls. -/
def accountedStep (env : TitanEnv) (s : TitanState × Redis TitanDocument) (frame : TitanFrame) :
    (TitanState × Redis TitanDocument) × TitanMessageKind :=
  let (st, out) := handleTitanServerMessage env s.1 frame
  ((st, s.2.after out.calls), out.kind)

/-- **Runs of frames.** Each counter counts its kinds. -/
theorem run_counts (hd : env.fanout.dryRun = false) (hc : env.fanout.connected = true)
    (hk : key ∈ titanCounters) {s : TitanState × Redis TitanDocument}
    (hs : counter s.2 key = some 0) (frames : List TitanFrame) :
    counter (runs (accountedStep env) s frames).1.2 key =
      some (((runs (accountedStep env) s frames).2.countP (· ∈ countedKinds key) : Nat) : Int) := by
  refine runs_history (R := fun _ kinds (s : TitanState × Redis TitanDocument) =>
    counter s.2 key = some ((kinds.countP (· ∈ countedKinds key) : Nat) : Int)) hs ?_ frames
  intro _ kinds s frame ih
  obtain ⟨hov, hinc⟩ := answered_counts hd hc hk (handle_answered env s.1 frame)
  have hstep := exec_counter hov ih
  rw [List.countP_append, List.countP_singleton]
  unfold accountedStep Redis.after
  rw [hstep, hinc]
  push_cast
  split <;> simp_all

end

theorem countP_one (a : TitanMessageKind) (kinds : List TitanMessageKind) :
    kinds.countP (· ∈ [a]) = kinds.count a := by
  unfold List.count
  congr 1
  funext kind
  simp [beq_eq_decide]

theorem countP_pair {a b : TitanMessageKind} (h : a ≠ b) (kinds : List TitanMessageKind) :
    kinds.countP (· ∈ [a, b]) = kinds.count a + kinds.count b := by
  induction kinds with
  | nil => rfl
  | cons kind kinds ih =>
    rw [List.countP_cons, List.count_cons, List.count_cons, ih]
    by_cases ha : kind = a
    · simp [ha, h]
      omega
    · by_cases hb : kind = b
      · simp [hb, h.symm]
        omega
      · simp [ha, hb]

theorem kinds_partition (kinds : List TitanMessageKind) :
    kinds.count .hop1Published + (kinds.count .decodeError + kinds.count .error) +
      (kinds.count .streamDataNoHop1 + kinds.count .unhandled) + kinds.count .response =
      kinds.length := by
  induction kinds with
  | nil => rfl
  | cons kind kinds ih =>
    cases kind <;> simp <;> omega

/-- **Frame accounting.** After the boot reset and any frames, the counters
count the answers, every frame is answered once, and `served` stays 0. -/
theorem frame_accounting (env : TitanEnv) (hd : env.fanout.dryRun = false)
    (hc : env.fanout.connected = true) (st : TitanState) (redis : Redis TitanDocument)
    (frames : List TitanFrame) :
    let boot := redis.after env.fanout.resetTitanStateAtBoot
    let redis' := (runs (accountedStep env) (st, boot) frames).1.2
    let kinds := (runs (accountedStep env) (st, boot) frames).2
    counter redis' MuxKeys.titanFrames = some (kinds.count .hop1Published : Int) ∧
      counter redis' MuxKeys.titanDecoded = some (kinds.count .hop1Published : Int) ∧
      counter redis' MuxKeys.titanHop1Served = some (kinds.count .hop1Published : Int) ∧
      counter redis' MuxKeys.titanErrors =
        some (kinds.count .decodeError + kinds.count .error : Int) ∧
      counter redis' MuxKeys.titanFellThrough =
        some (kinds.count .streamDataNoHop1 + kinds.count .unhandled : Int) ∧
      kinds.count .hop1Published + (kinds.count .decodeError + kinds.count .error) +
        (kinds.count .streamDataNoHop1 + kinds.count .unhandled) + kinds.count .response =
        frames.length ∧
      counter redis' MuxKeys.titanServed = some 0 := by
  intro boot redis' kinds
  have hcount (key : String) (hk : key ∈ titanCounters) :
      counter redis' key = some ((kinds.countP (· ∈ countedKinds key) : Nat) : Int) :=
    run_counts hd hc hk (boot_counter hd hc hk redis) frames
  refine ⟨?_, ?_, ?_, ?_, ?_, ?_, ?_⟩
  · rw [hcount _ (by decide), show countedKinds _ = [.hop1Published] by decide, countP_one]
  · rw [hcount _ (by decide), show countedKinds _ = [.hop1Published] by decide, countP_one]
  · rw [hcount _ (by decide), show countedKinds _ = [.hop1Published] by decide, countP_one]
  · rw [hcount _ (by decide), show countedKinds _ = [.decodeError, .error] by decide,
      countP_pair (by decide)]
    push_cast
    rfl
  · rw [hcount _ (by decide), show countedKinds _ = [.streamDataNoHop1, .unhandled] by decide,
      countP_pair (by decide)]
    push_cast
    rfl
  · rw [kinds_partition, runs_length]
  · rw [hcount _ (by decide), show countedKinds _ = [] by decide]
    simp

/-! The messages of a sample, and frames with their bytes. -/

def errorMessage : Value := .map [(textKey "Error", .nil)]

/-- A quote with one route, and without an amount or metadata. -/
def quoteMessage (input output : Bytes) (stream : UInt64) : Value :=
  let route : Value := .map [(textKey "outAmount", number 5)]
  let swapQuotes : Value :=
    .map [(textKey "inputMint", .binary input), (textKey "outputMint", .binary output),
      (textKey "quotes", .map [(textKey "provider", route)])]
  .map [(textKey "StreamData", .map [(textKey "id", number stream),
    (textKey "payload", .map [(textKey "SwapQuotes", swapQuotes)])])]

def sampleMint : Bytes := List.replicate 32 1

def sampleEnv : TitanEnv where
  bs58 := base58Codec
  decode := decodeAmong [errorMessage, quoteMessage sampleMint sampleMint 42]
  fanout := ⟨"feed:350", false, true⟩
  hop1TtlSecs := 2

def sampleClock : FrameClock := ⟨1, 2, 3, ⟨id, fun _ => .refl _⟩⟩

def frameOf (message : Value) : TitanFrame := ⟨message.packed, sampleClock⟩

/-- An empty frame does not decode. -/
def sampleFrames : List TitanFrame :=
  [⟨[], sampleClock⟩, frameOf (quoteMessage sampleMint sampleMint 42), frameOf errorMessage]

theorem frame_accounting_sample :
    let redis : Redis TitanDocument := fun _ => none
    let boot := redis.after sampleEnv.fanout.resetTitanStateAtBoot
    let redis' := (runs (accountedStep sampleEnv) ({}, boot) sampleFrames).1.2
    counter redis' MuxKeys.titanHop1Served = some 1 ∧
      counter redis' MuxKeys.titanErrors = some 2 ∧
      counter redis' MuxKeys.titanServed = some 0 := by
  intro redis boot redis'
  have h := frame_accounting sampleEnv rfl rfl {} redis sampleFrames
  have hk : (runs (accountedStep sampleEnv) ({}, boot) sampleFrames).2 =
      [.decodeError, .hop1Published, .error] := by decide +kernel
  simp only [boot] at hk
  simp only [hk] at h
  exact ⟨h.2.2.1, h.2.2.2.1, h.2.2.2.2.2.2⟩

end FeedMux.Titan
