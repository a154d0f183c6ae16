import FeedMux.Mints
import FeedMux.Titan.Published
import FeedMux.Titan.RowKeys
import FeedMux.Titan.Selection

/-!
# From a frame to its row (`parse_stream_data_hop1` in `src/titan_quote.rs`)

`quoteOf_eq` takes the parse apart: what the frame says before a route is
selected (`frameSource`), the route, and the quote made of both. From it follow
which numbers reach the row unchanged (`numbers_kept_iff`), what the leg of a
direct route is (`direct_leg`), and which frames are published
(`published_iff`).
-/

namespace FeedMux.Titan
open FeedMux.Library

/-- What a quote is made of before a route is selected. -/
structure QuoteSource where
  streamData : Value
  streamId : UInt32
  swapQuotes : Value
  inputMint : String
  outputMint : String
  quotesMap : Value

def quoteSource (bs58 : Bs58) (streamData : Value) : Option QuoteSource := do
  let streamId ← (mapGet streamData "id").bind valueAsU32
  let payload ← mapGet streamData "payload"
  let swapQuotes ← mapGet payload "SwapQuotes"
  let inputMint ← (mapGet swapQuotes "inputMint").bind (valueAsPubkeyBase58 bs58)
  let outputMint ← (mapGet swapQuotes "outputMint").bind (valueAsPubkeyBase58 bs58)
  let quotesMap ← mapGet swapQuotes "quotes"
  return { streamData, streamId, swapQuotes, inputMint, outputMint, quotesMap }

namespace QuoteSource

def amount (src : QuoteSource) : UInt64 := (u64At src.swapQuotes "amount").getD 0

/-- The quote of a selected route. -/
def quote (src : QuoteSource) (bs58 : Bs58) (reg : TitanStreamRegistry)
    (best : String × Value) (routeOutAmount : UInt64) : ParsedHop1Quote :=
  let label := mintPairLabel src.inputMint src.outputMint
  { pair := label.1
    base := label.2.1
    mid := label.2.2
    sizeLamports := (reg.sizeForStream src.streamId).getD src.amount
    provider := best.1
    routeInAmount := (u64At best.2 "inAmount").getD src.amount
    routeOutAmount
    slippageBps := ((u64At best.2 "slippageBps").map UInt64.toUInt16).getD 0
    quoteId := (mapGet src.swapQuotes "id").bind valueAsString
    streamId := src.streamId
    streamSeq := ((mapGet src.streamData "seq").bind valueAsU32).getD 0
    hop1 := extractHop1Leg bs58 best.2 }

def best (src : QuoteSource) : Option (String × Value) :=
  selectBestRoute src.quotesMap src.swapQuotes

end QuoteSource

theorem parse_eq (bs58 : Bs58) (streamData : Value) (reg : TitanStreamRegistry) :
    parseStreamDataHop1 bs58 (some streamData) reg =
      (quoteSource bs58 streamData).bind fun src => src.best.bind fun best =>
        (u64At best.2 "outAmount").map (src.quote bs58 reg best) := by
  unfold parseStreamDataHop1 quoteSource
  simp only [Option.bind_eq_bind, Option.pure_def, Option.bind_some]
  cases (mapGet streamData "id").bind valueAsU32 with
  | none => rfl
  | some streamId =>
    cases mapGet streamData "payload" with
    | none => rfl
    | some payload =>
      simp only [Option.bind_some]
      cases mapGet payload "SwapQuotes" with
      | none => rfl
      | some swapQuotes =>
        simp only [Option.bind_some]
        cases (mapGet swapQuotes "inputMint").bind (valueAsPubkeyBase58 bs58) with
        | none => rfl
        | some inputMint =>
          cases (mapGet swapQuotes "outputMint").bind (valueAsPubkeyBase58 bs58) with
          | none => rfl
          | some outputMint =>
            cases mapGet swapQuotes "quotes" with
            | none => rfl
            | some quotesMap =>
              simp only [Option.bind_some, QuoteSource.best]
              cases selectBestRoute quotesMap swapQuotes with
              | none => rfl
              | some best =>
                simp only [Option.bind_some]
                cases u64At best.2 "outAmount" <;> rfl

/-- What the frame says before a route is selected. -/
def frameSource (env : TitanEnv) (frame : TitanFrame) : Option QuoteSource :=
  (env.decode frame.data).bind fun value =>
    (mapGet value "StreamData").bind (quoteSource env.bs58)

theorem quoteOf_eq (env : TitanEnv) (st : TitanState) (frame : TitanFrame) :
    quoteOf env st frame =
      (frameSource env frame).bind fun src => src.best.bind fun best =>
        (u64At best.2 "outAmount").map (src.quote env.bs58 st.registry best) := by
  unfold quoteOf frameSource
  cases env.decode frame.data with
  | none => rfl
  | some value =>
    rw [Option.bind_some, Option.bind_some]
    cases hs : mapContainsKey value "StreamData" with
    | false =>
      rw [not_mapContainsKey hs]
      rfl
    | true =>
      simp only [↓reduceIte]
      cases mapGet value "StreamData" with
      | none => rfl
      | some streamData => exact parse_eq env.bs58 streamData st.registry

/-- A written row is the row of the frame's quote. -/
theorem mem_rowsWritten {env : TitanEnv} {st : TitanState} {frame : TitanFrame}
    {row : TitanHop1Row}
    (h : row ∈ rowsWritten (handleTitanServerMessage env st frame).2.calls) :
    ∃ quote, quoteOf env st frame = some quote ∧ rowOf quote frame.clock.rowMs = row := by
  cases hw : env.fanout.writes with
  | false =>
    rw [frame_silent hw] at h
    cases h
  | true =>
    rw [frame_rows hw] at h
    obtain ⟨quote, hq, rfl⟩ := List.mem_map.mp h
    exact ⟨quote, Option.mem_toList.mp hq, rfl⟩

/-- A row, and the parts of the frame that it was made of. -/
structure RowFrom (env : TitanEnv) (st : TitanState) (frame : TitanFrame) (src : QuoteSource)
    (best : String × Value) (row : TitanHop1Row) : Prop where
  written : row ∈ rowsWritten (handleTitanServerMessage env st frame).2.calls
  source : frameSource env frame = some src
  selected : src.best = some best

theorem RowFrom.eq {env : TitanEnv} {st : TitanState} {frame : TitanFrame} {src : QuoteSource}
    {best : String × Value} {row : TitanHop1Row} (h : RowFrom env st frame src best row) :
    ∃ out, u64At best.2 "outAmount" = some out ∧
      row = rowOf (src.quote env.bs58 st.registry best out) frame.clock.rowMs := by
  obtain ⟨quote, hq, rfl⟩ := mem_rowsWritten h.written
  rw [quoteOf_eq, h.source, Option.bind_some, h.selected, Option.bind_some,
    Option.map_eq_some_iff] at hq
  obtain ⟨out, hout, rfl⟩ := hq
  exact ⟨out, hout, rfl⟩

theorem rowFrom_quote {env : TitanEnv} {st : TitanState} {frame : TitanFrame}
    {src : QuoteSource} {best : String × Value} {out : UInt64} (hw : env.fanout.writes = true)
    (hsrc : frameSource env frame = some src) (hbest : src.best = some best)
    (hout : u64At best.2 "outAmount" = some out) :
    RowFrom env st frame src best
      (rowOf (src.quote env.bs58 st.registry best out) frame.clock.rowMs) := by
  refine ⟨?_, hsrc, hbest⟩
  rw [frame_rows hw, quoteOf_eq, hsrc, Option.bind_some, hbest, Option.bind_some, hout]
  exact List.mem_singleton.mpr rfl

/-- Every written row is made of such parts. -/
theorem exists_rowFrom {env : TitanEnv} {st : TitanState} {frame : TitanFrame}
    {row : TitanHop1Row}
    (h : row ∈ rowsWritten (handleTitanServerMessage env st frame).2.calls) :
    ∃ src best, RowFrom env st frame src best row := by
  obtain ⟨quote, hq, -⟩ := mem_rowsWritten h
  rw [quoteOf_eq] at hq
  obtain ⟨src, hsrc, hq⟩ := Option.bind_eq_some_iff.mp hq
  obtain ⟨best, hbest, -⟩ := Option.bind_eq_some_iff.mp hq
  exact ⟨src, best, h, hsrc, hbest⟩

/-! ## Numbers -/

/-- The first step of a route, if its steps are an array with an element. -/
def firstStep (route : Value) : Option Value :=
  ((mapGet route "steps").bind valueAsArray).bind List.head?

/-- The row holds every number that the frame carries. -/
structure KeepsNumbers (src : QuoteSource) (route : Value) (row : TitanHop1Row) : Prop where
  seq : ∀ n, u64At src.streamData "seq" = some n → row.streamSeq.toNat = n.toNat
  inAmount : ∀ n, u64At route "inAmount" = some n → row.routeInAmount = n
  outAmount : ∀ n, u64At route "outAmount" = some n → row.routeOutAmount = n
  slippageBps : ∀ n, u64At route "slippageBps" = some n → row.slippageBps.toNat = n.toNat
  stepInAmount : ∀ first, firstStep route = some first →
    ∀ n, u64At first "inAmount" = some n → row.hop1.inAmount = n
  stepOutAmount : ∀ first, firstStep route = some first →
    ∀ n, u64At first "outAmount" = some n → row.hop1.outAmount = n
  stepContextSlot : ∀ first, firstStep route = some first →
    ∀ n, u64At first "contextSlot" = some n → row.hop1.contextSlot = some n

theorem extractHop1Leg_step {bs58 : Bs58} {route first : Value}
    (h : firstStep route = some first) :
    (extractHop1Leg bs58 route).inAmount = (u64At first "inAmount").getD 0 ∧
      (extractHop1Leg bs58 route).outAmount = (u64At first "outAmount").getD 0 ∧
      (extractHop1Leg bs58 route).contextSlot = u64At first "contextSlot" := by
  unfold firstStep at h
  unfold extractHop1Leg
  rw [h]
  exact ⟨rfl, rfl, rfl⟩

/-- A sequence number is kept if it fits, and else replaced by 0. -/
theorem seq_kept_iff {value : Value} {n : UInt64} (h : u64At value "seq" = some n) :
    (((mapGet value "seq").bind valueAsU32).getD 0).toNat = n.toNat ↔ n.toNat < 2 ^ 32 := by
  have hbind : (mapGet value "seq").bind valueAsU32 =
      if n.toNat < 2 ^ 32 then some n.toUInt32 else none := by
    obtain ⟨seq, hseq, hn⟩ := Option.bind_eq_some_iff.mp h
    rw [hseq, Option.bind_some, valueAsU32, hn, Option.bind_some]
  rw [hbind]
  by_cases hlt : n.toNat < 2 ^ 32
  · simp only [hlt, ↓reduceIte, Option.getD_some, UInt64.toNat_toUInt32, iff_true]
    exact Nat.mod_eq_of_lt hlt
  · simp only [hlt, ↓reduceIte, Option.getD_none, iff_false]
    intro hz
    have hzero : (0 : UInt32).toNat = 0 := rfl
    omega

/-- The slippage is cut to 16 bits. -/
theorem slippage_kept_iff (n : UInt64) : n.toUInt16.toNat = n.toNat ↔ n.toNat < 2 ^ 16 := by
  rw [UInt64.toNat_toUInt16]
  omega

/-- **Numbers.** A row holds the numbers of its frame exactly when the sequence
number fits 32 bits and the slippage fits 16. -/
theorem numbers_kept_iff (env : TitanEnv) (st : TitanState) (frame : TitanFrame)
    (src : QuoteSource) (best : String × Value) (row : TitanHop1Row)
    (h : RowFrom env st frame src best row) :
    KeepsNumbers src best.2 row ↔
      (∀ n, u64At src.streamData "seq" = some n → n.toNat < 2 ^ 32) ∧
        ∀ n, u64At best.2 "slippageBps" = some n → n.toNat < 2 ^ 16 := by
  obtain ⟨out, hout, rfl⟩ := h.eq
  constructor
  · intro hk
    constructor
    · intro n hn
      exact (seq_kept_iff hn).mp (hk.seq n hn)
    · intro n hn
      have hcut := hk.slippageBps n hn
      simp only [rowOf, QuoteSource.quote, hn, Option.map_some, Option.getD_some] at hcut
      exact (slippage_kept_iff n).mp hcut
  · rintro ⟨hseq, hslip⟩
    constructor
    · intro n hn
      exact (seq_kept_iff hn).mpr (hseq n hn)
    · intro n hn
      simp [rowOf, QuoteSource.quote, hn]
    · intro n hn
      rw [hout] at hn
      exact Option.some.inj hn
    · intro n hn
      simp only [rowOf, QuoteSource.quote, hn, Option.map_some, Option.getD_some]
      exact (slippage_kept_iff n).mpr (hslip n hn)
    · intro first hf n hn
      exact (extractHop1Leg_step hf).1.trans (by rw [hn]; rfl)
    · intro first hf n hn
      exact (extractHop1Leg_step hf).2.1.trans (by rw [hn]; rfl)
    · intro first hf n hn
      exact (extractHop1Leg_step hf).2.2.trans hn

/-! A frame with one direct route, and no metadata but the winner's name. -/

def sampleSwap (winner : String) (quotes : List (Value × Value)) : Value :=
  .map [(textKey "inputMint", .binary (lowKey 1).bytes),
    (textKey "outputMint", .binary (lowKey 2).bytes),
    (textKey "metadata", .map [(textKey "ExpectedWinner", textKey winner)]),
    (textKey "amount", number 9), (textKey "quotes", .map quotes)]

def sampleStream (seq : UInt64) (swap : Value) : Value :=
  .map [(textKey "id", number 42), (textKey "seq", number seq),
    (textKey "payload", .map [(textKey "SwapQuotes", swap)])]

/-- An upstream that sends one StreamData message. -/
def streamEnv (streamData : Value) : TitanEnv where
  bs58 := base58Codec
  decode := decodeAmong [.map [(textKey "StreamData", streamData)]]
  fanout := ⟨"feed:350", false, true⟩
  hop1TtlSecs := 2

def streamFrame (streamData : Value) : TitanFrame :=
  frameOf (.map [(textKey "StreamData", streamData)])

theorem streamFrame_source (streamData : Value) :
    frameSource (streamEnv streamData) (streamFrame streamData) =
      quoteSource base58Codec streamData := by
  have hread : (streamEnv streamData).decode (streamFrame streamData).data =
      some (.map [(textKey "StreamData", streamData)]) := decodeAmong_head _ _
  rw [frameSource, hread]
  rfl

def sampleRoute (slippageBps : UInt64) : Value :=
  .map [(textKey "outAmount", number 5), (textKey "slippageBps", number slippageBps)]

def numbersSwap (slippageBps : UInt64) : Value :=
  sampleSwap "a" [(textKey "a", sampleRoute slippageBps)]

def numbersSource (seq slippageBps : UInt64) : QuoteSource where
  streamData := sampleStream seq (numbersSwap slippageBps)
  streamId := 42
  swapQuotes := numbersSwap slippageBps
  inputMint := base58Codec.encode (lowKey 1).bytes
  outputMint := base58Codec.encode (lowKey 2).bytes
  quotesMap := .map [(textKey "a", sampleRoute slippageBps)]

def numbersRow (seq slippageBps : UInt64) : TitanHop1Row :=
  rowOf ((numbersSource seq slippageBps).quote base58Codec {} ("a", sampleRoute slippageBps) 5) 1

theorem numbersRow_from (seq slippageBps : UInt64) :
    RowFrom (streamEnv (sampleStream seq (numbersSwap slippageBps))) {}
      (streamFrame (sampleStream seq (numbersSwap slippageBps))) (numbersSource seq slippageBps)
      ("a", sampleRoute slippageBps) (numbersRow seq slippageBps) :=
  rowFrom_quote rfl (streamFrame_source _) rfl rfl

theorem numbers_kept_sample :
    KeepsNumbers (numbersSource 7 50) (sampleRoute 50) (numbersRow 7 50) := by
  refine (numbers_kept_iff _ _ _ _ _ _ (numbersRow_from 7 50)).mpr ⟨?_, ?_⟩
  · rintro _ ⟨⟩
    decide
  · rintro _ ⟨⟩
    decide

/-- A slippage of 65537 becomes a slippage of 1. -/
theorem slippage_cut :
    RowFrom (streamEnv (sampleStream 7 (numbersSwap 65537))) {}
        (streamFrame (sampleStream 7 (numbersSwap 65537))) (numbersSource 7 65537)
        ("a", sampleRoute 65537) (numbersRow 7 65537) ∧
      ¬ KeepsNumbers (numbersSource 7 65537) (sampleRoute 65537) (numbersRow 7 65537) := by
  refine ⟨numbersRow_from 7 65537, ?_⟩
  intro h
  exact absurd (h.slippageBps 65537 rfl) (by decide)

/-! ## Direct routes -/

/-- The leg of the row is the whole swap. -/
structure LegIsRoute (src : QuoteSource) (row : TitanHop1Row) : Prop where
  inAmount : row.hop1.inAmount = row.routeInAmount
  outAmount : row.hop1.outAmount = row.routeOutAmount
  inputMint : row.hop1.inputMint = src.inputMint
  outputMint : row.hop1.outputMint = src.outputMint

theorem extractHop1Leg_direct {bs58 : Bs58} {route : Value} (h : firstStep route = none) :
    extractHop1Leg bs58 route =
      { label := "direct"
        ammKey := ""
        inputMint := ""
        outputMint := ""
        inAmount := (u64At route "inAmount").getD 0
        outAmount := (u64At route "outAmount").getD 0
        contextSlot := u64At route "contextSlot" } := by
  unfold firstStep at h
  unfold extractHop1Leg
  rw [h]

/-- The amounts of the leg are those of the route, where the route has them. -/
theorem direct_amounts {env : TitanEnv} {st : TitanState} {frame : TitanFrame}
    {src : QuoteSource} {best : String × Value} {row : TitanHop1Row}
    (h : RowFrom env st frame src best row) (hd : firstStep best.2 = none) :
    row.hop1.outAmount = row.routeOutAmount ∧
      (row.hop1.inAmount = row.routeInAmount ↔
        (u64At best.2 "inAmount").isSome ∨ src.amount = 0) := by
  obtain ⟨out, hout, rfl⟩ := h.eq
  simp only [rowOf, QuoteSource.quote, extractHop1Leg_direct hd, hout, Option.getD_some, true_and]
  cases u64At best.2 "inAmount" with
  | some n => simp
  | none => simpa using eq_comm

theorem quoteSource_mints {bs58 : Bs58} {streamData : Value} {src : QuoteSource}
    (h : quoteSource bs58 streamData = some src) :
    ∃ input output : Pubkey, src.inputMint = bs58.encode input.bytes ∧
      src.outputMint = bs58.encode output.bytes := by
  unfold quoteSource valueAsPubkeyBase58 at h
  simp only [Option.bind_eq_bind, Option.pure_def, Option.bind_eq_some_iff, Option.map_eq_some_iff,
    Option.some.injEq] at h
  obtain ⟨_, _, _, _, _, _, _, ⟨_, _, input, _, rfl⟩, _, ⟨_, _, output, _, rfl⟩, _, _, rfl⟩ := h
  exact ⟨input, output, rfl, rfl⟩

/-- **Direct routes.** The leg never names the mints of the swap. -/
theorem direct_leg (env : TitanEnv) (hb : env.bs58.IsBase58) (st : TitanState)
    (frame : TitanFrame) (src : QuoteSource) (best : String × Value) (row : TitanHop1Row)
    (h : RowFrom env st frame src best row) (hd : firstStep best.2 = none) :
    ¬ LegIsRoute src row := by
  intro hleg
  obtain ⟨out, -, rfl⟩ := h.eq
  obtain ⟨value, -, hsrc⟩ := Option.bind_eq_some_iff.mp h.source
  obtain ⟨streamData, -, hsrc⟩ := Option.bind_eq_some_iff.mp hsrc
  obtain ⟨input, output, hin, -⟩ := quoteSource_mints hsrc
  have hmint := hleg.inputMint
  simp only [rowOf, QuoteSource.quote, extractHop1Leg_direct hd] at hmint
  have hlong := hb.length_encode input
  rw [← hin, ← hmint] at hlong
  exact absurd hlong (by decide)

/-- In the sample the mints of the leg are empty. -/
theorem direct_leg_sample : ¬ LegIsRoute (numbersSource 7 50) (numbersRow 7 50) :=
  direct_leg _ base58Codec_isBase58 _ _ _ _ _ (numbersRow_from 7 50) rfl

theorem direct_leg_fails :
    RowFrom (streamEnv (sampleStream 7 (numbersSwap 50))) {}
        (streamFrame (sampleStream 7 (numbersSwap 50))) (numbersSource 7 50)
        ("a", sampleRoute 50) (numbersRow 7 50) ∧
      firstStep (sampleRoute 50) = none ∧ ¬ LegIsRoute (numbersSource 7 50) (numbersRow 7 50) := by
  refine ⟨numbersRow_from 7 50, rfl, ?_⟩
  intro h
  exact absurd h.inAmount (by decide)

/-! ## Frames that are published -/

/-- The frame has a `u32` stream, two mints and an eligible route. -/
def Publishable (env : TitanEnv) (frame : TitanFrame) : Prop :=
  ∃ src entries, frameSource env frame = some src ∧ valueAsMap src.quotesMap = some entries ∧
    ∃ e ∈ entries, (eligible e).isSome

/-- Handling the frame publishes a row. -/
def Publishes (env : TitanEnv) (st : TitanState) (frame : TitanFrame) : Prop :=
  (handleTitanServerMessage env st frame).2.kind = .hop1Published ∧
    (env.fanout.writes = true →
      ∃ row, rowsWritten (handleTitanServerMessage env st frame).2.calls = [row])

theorem publishes_iff {env : TitanEnv} {st : TitanState} {frame : TitanFrame} :
    Publishes env st frame ↔ (quoteOf env st frame).isSome := by
  cases hq : quoteOf env st frame with
  | none =>
    simp only [Option.isSome_none, Bool.false_eq_true, iff_false]
    intro h
    exact (handle_no_quote hq).2.1 h.1
  | some quote =>
    simp only [Option.isSome_some, iff_true]
    refine ⟨by rw [handle_quote hq], ?_⟩
    intro hw
    rw [frame_rows hw, hq]
    exact ⟨_, rfl⟩

theorem mapGet_of_map {value : Value} {entries : List (Value × Value)}
    (h : valueAsMap value = some entries) (name : String) :
    mapGet value name = (entries.find? fun e => mapKeyStr e.1 == some name).map Prod.snd := by
  unfold mapGet
  simp only [h, Option.bind_eq_bind, Option.bind_some, Option.pure_def]
  cases entries.find? (fun e => mapKeyStr e.1 == some name) <;> rfl

section
variable {src : QuoteSource} {entries : List (Value × Value)}

/-- The scan finds a route with an amount. -/
theorem scanned_amount (hm : valueAsMap src.quotesMap = some entries)
    (hno : NoWinner entries src.swapQuotes) (he : ∃ e ∈ entries, (eligible e).isSome) :
    (src.best.bind fun best => u64At best.2 "outAmount").isSome := by
  cases hs : src.best with
  | none =>
    obtain ⟨e, hmem, hsome⟩ := he
    rw [((select_none_iff hm).mp hs).2 e hmem] at hsome
    cases hsome
  | some best =>
    obtain ⟨pre, key, post, out, -, hel, -⟩ := select_last_best hm hno hs
    rw [Option.bind_some, (eligible_eq_some.mp hel).2.2]
    rfl

/-- The winner is selected, whether it has an amount or not. -/
theorem winner_selected (hm : valueAsMap src.quotesMap = some entries)
    (hw : ¬ NoWinner entries src.swapQuotes) :
    ∃ name route, winnerName src.swapQuotes = some name ∧
      mapGet src.quotesMap name = some route ∧ src.best = some (name, route) := by
  cases he : expectedWinner entries src.swapQuotes with
  | none => exact absurd (expectedWinner_eq_none.mp he) hw
  | some winner =>
    obtain ⟨hname, hfirst⟩ := expectedWinner_eq_some.mp he
    have hs : src.best = some (winner.1, winner.2) := select_winner hm hname hfirst
    obtain ⟨pre, key, post, hsplit, hk, hpre⟩ := hfirst
    refine ⟨winner.1, winner.2, hname, ?_, hs⟩
    rw [mapGet_of_map hm, find_key_eq_some.mpr ⟨pre, post, hsplit, hk, hpre⟩]
    rfl

/-- Whatever is selected has an amount, unless the expected winner has none. -/
theorem best_amount (hm : valueAsMap src.quotesMap = some entries)
    (he : ∃ e ∈ entries, (eligible e).isSome) :
    (src.best.bind fun best => u64At best.2 "outAmount").isSome ↔
      ∀ name, winnerName src.swapQuotes = some name →
        ∀ route, mapGet src.quotesMap name = some route → (u64At route "outAmount").isSome := by
  by_cases hno : NoWinner entries src.swapQuotes
  · simp only [scanned_amount hm hno he, true_iff]
    intro name hname route hroute
    rw [mapGet_of_map hm] at hroute
    obtain ⟨e, hf, -⟩ := Option.map_eq_some_iff.mp hroute
    have hkey : mapKeyStr e.1 = some name := by simpa using List.find?_some hf
    exact absurd hkey (hno name hname e (List.mem_of_find?_eq_some hf))
  · obtain ⟨winner, route, hname, hget, hs⟩ := winner_selected hm hno
    rw [hs, Option.bind_some]
    constructor
    · intro hout name hname' route' hroute
      obtain rfl := Option.some.inj (hname.symm.trans hname')
      obtain rfl := Option.some.inj (hget.symm.trans hroute)
      exact hout
    · intro h
      exact h winner hname route hget

end

/-- **Published frames.** Of the publishable frames exactly those are dropped whose
expected winner names a route without a `u64` amount. -/
theorem published_iff (env : TitanEnv) (st : TitanState) (frame : TitanFrame)
    (h : Publishable env frame) :
    Publishes env st frame ↔
      ∀ src, frameSource env frame = some src →
        ∀ name, winnerName src.swapQuotes = some name →
          ∀ route, mapGet src.quotesMap name = some route →
            (u64At route "outAmount").isSome := by
  obtain ⟨src, entries, hsrc, hm, he⟩ := h
  have hquote : (quoteOf env st frame).isSome =
      (src.best.bind fun best => u64At best.2 "outAmount").isSome := by
    rw [quoteOf_eq, hsrc, Option.bind_some]
    cases src.best with
    | none => rfl
    | some best => exact Option.isSome_map
  rw [publishes_iff, hquote, best_amount hm he]
  constructor
  · intro hall src' hsrc'
    obtain rfl := Option.some.inj (hsrc.symm.trans hsrc')
    exact hall
  · intro hall
    exact hall src hsrc

/-- Two routes, of which the second has no amount. -/
def winnerSwap (winner : String) : Value :=
  sampleSwap winner [(textKey "a", sampleRoute 50), (textKey "b", .map [])]

def winnerSource (winner : String) : QuoteSource where
  streamData := sampleStream 7 (winnerSwap winner)
  streamId := 42
  swapQuotes := winnerSwap winner
  inputMint := base58Codec.encode (lowKey 1).bytes
  outputMint := base58Codec.encode (lowKey 2).bytes
  quotesMap := .map [(textKey "a", sampleRoute 50), (textKey "b", .map [])]

theorem winnerSwap_publishable (winner : String) :
    Publishable (streamEnv (sampleStream 7 (winnerSwap winner)))
      (streamFrame (sampleStream 7 (winnerSwap winner))) :=
  ⟨winnerSource winner, _, streamFrame_source _, rfl, (textKey "a", sampleRoute 50), by simp, rfl⟩

theorem published_sample :
    Publishes (streamEnv (sampleStream 7 (winnerSwap "a"))) {}
      (streamFrame (sampleStream 7 (winnerSwap "a"))) := by
  refine (published_iff _ _ _ (winnerSwap_publishable "a")).mpr ?_
  rw [streamFrame_source]
  rintro _ ⟨⟩ _ ⟨⟩ _ ⟨⟩
  rfl

/-- Naming the route without an amount drops the frame. -/
theorem publishable_dropped :
    Publishable (streamEnv (sampleStream 7 (winnerSwap "b")))
        (streamFrame (sampleStream 7 (winnerSwap "b"))) ∧
      ¬ Publishes (streamEnv (sampleStream 7 (winnerSwap "b"))) {}
        (streamFrame (sampleStream 7 (winnerSwap "b"))) := by
  refine ⟨winnerSwap_publishable "b", ?_⟩
  intro h
  exact absurd h.1 (by decide +kernel)

end FeedMux.Titan
