import FeedMux.Titan.Published
import FeedMux.Upstream.TitanSubscribe

/-!
# What a Titan session publishes

The board of a session is that of the quotes its frames publish. A document is
labelled with the pair of the latest quote while pins are kept by size only, so
it speaks about one pair exactly as long as the pair changes only before a
second size is quoted (`one_pair_iff`). A row is filed under the size that its
stream was attributed to, or else under the amount of its frame (`row_sizes`).
-/

namespace FeedMux.Upstream
open FeedMux.Library FeedMux.Titan

/-- The board is that of the rows the session published. -/
theorem frames_board (env : TitanEnv) {st : TitanState} {ladder marked : List UInt64}
    (h : st.board = .ofHistory ladder marked []) (frames : List TitanFrame) :
    (runs (handleTitanServerMessage env) st frames).1.board =
      .ofHistory ladder marked (publishedRows (quotesOf env st frames)) := by
  induction frames using List.reverseRecOn with
  | nil => exact h
  | append_singleton frames frame ih =>
    rw [runs_concat, quotesOf_concat]
    cases hq : quoteOf env (runs (handleTitanServerMessage env) st frames).1 frame with
    | none =>
      rw [(handle_no_quote hq).1, ih]
      simp
    | some quote =>
      rw [handle_quote hq]
      simp only [Option.toList_some, List.map_cons, List.map_nil, publishedRows, List.map_append]
      rw [TitanSizeBoard.ofHistory_concat, ih]
      rfl

/-! ## One pair per document -/

/-- Every pin of the document with a quote was produced by a quote for the pair
of its label; `rows` are the rows of the session so far. -/
def OnePair (rows : List TitanHop1Row) (doc : TitanSizeBoardDoc) : Prop :=
  ∀ pin ∈ doc.pins, ∀ row ∈ TitanSizeBoard.lastRow rows pin.sizeLamports, row.pair = doc.pair

instance (rows : List TitanHop1Row) (doc : TitanSizeBoardDoc) : Decidable (OnePair rows doc) :=
  List.decidableBAll _ _

/-- The pins that the rows leave behind are all for the pair of the latest row. -/
def PinsAgree (rows : List TitanHop1Row) (latest : TitanHop1Row) : Prop :=
  ∀ size row, TitanSizeBoard.lastRow (rows ++ [latest]) size = some row → row.pair = latest.pair

theorem docOf_onePair_iff {board : TitanSizeBoard} {ladder marked : List UInt64}
    {rows : List TitanHop1Row} (h : board = .ofHistory ladder marked rows)
    (quote : ParsedHop1Quote) (clock : FrameClock) :
    OnePair (rows ++ [rowOf quote clock.rowMs]) (docOf board quote clock) ↔
      PinsAgree rows (rowOf quote clock.rowMs) := by
  unfold OnePair PinsAgree docOf
  rw [h, ← TitanSizeBoard.ofHistory_concat]
  constructor
  · intro hdoc size row hrow
    refine hdoc ((pinOf row).aged clock.boardMs) (mem_doc.mpr (.inl ⟨size, pinOf row, ?_, rfl⟩))
      row ?_
    · rw [TitanSizeBoard.ofHistory_pins, hrow]
      rfl
    · rw [← TitanSizeBoard.lastRow_size hrow] at hrow
      exact hrow
  · intro hagree pin _ row hrow
    exact hagree _ row hrow

/-- **Pins over a history.** All pins agree with the latest row at every point
exactly if the pair changes only while no other size has been quoted. -/
theorem pins_agree_iff (rows : List TitanHop1Row) :
    (∀ pre row post, rows = pre ++ row :: post → PinsAgree pre row) ↔
      ∀ pre row next post, rows = pre ++ row :: next :: post →
        next.pair = row.pair ∨ ∀ earlier ∈ pre ++ [row], earlier.sizeLamports = next.sizeLamports
    := by
  constructor
  · rintro hagree pre row next post rfl
    have hrow : PinsAgree pre row := hagree pre row (next :: post) rfl
    have hnext : PinsAgree (pre ++ [row]) next := hagree (pre ++ [row]) next post (by simp)
    by_contra! hne
    obtain ⟨hpair, earlier, he, hsize⟩ := hne
    have hsome : (TitanSizeBoard.lastRow (pre ++ [row]) earlier.sizeLamports).isSome :=
      TitanSizeBoard.lastRow_isSome.mpr (List.mem_map_of_mem he)
    obtain ⟨last, hlast⟩ := Option.isSome_iff_exists.mp hsome
    refine hpair ?_
    rw [← hrow _ last hlast]
    refine (hnext earlier.sizeLamports last ?_).symm
    rw [TitanSizeBoard.lastRow_concat, if_neg (Ne.symm hsize), hlast]
  · intro hchange pre
    induction pre using List.reverseRecOn with
    | nil =>
      intro row post _ size last hlast
      rw [TitanSizeBoard.lastRow_concat] at hlast
      split at hlast
      · rw [← Option.some.inj hlast]
      · cases hlast
    | append_singleton pre before ih =>
      intro row post hrows size last hlast
      have hsplit : rows = pre ++ before :: row :: post := by rw [hrows]; simp
      rw [TitanSizeBoard.lastRow_concat] at hlast
      split at hlast
      · rw [← Option.some.inj hlast]
      · rename_i hsize
        rw [ih before (row :: post) hsplit size last hlast]
        rcases hchange pre before row post hsplit with hpair | hsame
        · exact hpair.symm
        · have hs : size ∈ (pre ++ [before]).map TitanHop1Row.sizeLamports :=
            TitanSizeBoard.lastRow_isSome.mp (by rw [hlast]; rfl)
          obtain ⟨earlier, he, rfl⟩ := List.mem_map.mp hs
          exact absurd (hsame earlier he).symm hsize

/-- A session's documents speak about one pair each exactly if its pins always agree. -/
theorem docs_onePair_iff {env : TitanEnv} (hw : env.fanout.writes = true) {st : TitanState}
    {ladder marked : List UInt64} (h : st.board = .ofHistory ladder marked [])
    (frames : List TitanFrame) :
    (∀ pre frame post, frames = pre ++ frame :: post →
      ∀ doc ∈ docsStored (handleTitanServerMessage env
          (runs (handleTitanServerMessage env) st pre).1 frame).2.calls,
        OnePair (publishedRows (quotesOf env st (pre ++ [frame]))) doc) ↔
      ∀ before row after, publishedRows (quotesOf env st frames) = before ++ row :: after →
        PinsAgree before row := by
  constructor
  · intro hdocs before row after hrows
    obtain ⟨qs, qs', hqs, rfl, hsplit⟩ := List.map_eq_append_iff.mp hrows
    obtain ⟨⟨quote, clock⟩, rest, rfl, rfl, rfl⟩ := List.map_eq_cons_iff.mp hsplit
    obtain ⟨pre, frame, post, rfl, rfl, hquote, hclock⟩ := quotesOf_split hqs
    subst hclock
    have hdoc := hdocs pre frame post rfl
    rw [frame_docs hw, quotesOf_concat, hquote] at hdoc
    have hone := hdoc _ List.mem_cons_self
    rw [publishedRows, List.map_append] at hone
    exact (docOf_onePair_iff (frames_board env h pre) quote frame.clock).mp hone
  · rintro hagree pre frame post rfl doc hdoc
    rw [frame_docs hw] at hdoc
    obtain ⟨quote, hquote, rfl⟩ := List.mem_map.mp hdoc
    have hq := Option.mem_toList.mp hquote
    rw [quotesOf_concat, show quoteOf env _ frame = some quote from hq, publishedRows,
      List.map_append]
    refine (docOf_onePair_iff (frames_board env h pre) quote frame.clock).mpr ?_
    refine hagree _ _ (publishedRows (quotesOf env
      (runs (handleTitanServerMessage env) st (pre ++ [frame])).1 post)) ?_
    rw [List.append_cons, quotesOf_append, quotesOf_concat,
      show quoteOf env _ frame = some quote from hq]
    simp [publishedRows]

/-- **One pair per document.** If the session stores documents at all, each of
them speaks about the pair of its label exactly if the pair of its quotes
changes only while a single size has been quoted. -/
theorem one_pair_iff (env : TitanEnv) (wallet : Pubkey) (script : RungScript)
    (ladder : List UInt64) (earlier : TitanState)
    (h : (openSession wallet script ladder earlier).result = .ok ()) (frames : List TitanFrame) :
    let opened := (openSession wallet script ladder earlier).st
    let after (pre : List TitanFrame) := (runs (handleTitanServerMessage env) opened pre).1
    (∀ pre frame post, frames = pre ++ frame :: post →
      ∀ doc ∈ docsStored (handleTitanServerMessage env (after pre) frame).2.calls,
        OnePair (publishedRows (quotesOf env opened (pre ++ [frame]))) doc) ↔
      env.fanout.writes = false ∨
        ∀ pre row next post,
          publishedRows (quotesOf env opened frames) = pre ++ row :: next :: post →
          next.pair = row.pair ∨
            ∀ other ∈ pre ++ [row], other.sizeLamports = next.sizeLamports := by
  intro opened after
  cases hw : env.fanout.writes with
  | true =>
    rw [docs_onePair_iff hw (open_board h) frames, pins_agree_iff]
    exact ⟨.inr, fun h => h.resolve_left (by simp)⟩
  | false =>
    simp only [true_or, iff_true]
    intro pre frame post _ doc hdoc
    rw [docsStored, frame_silent hw] at hdoc
    cases hdoc

def solBytes : Bytes := ((base58Codec.decode solMint).toOption).getD []

def usdcBytes : Bytes := ((base58Codec.decode usdcMint).toOption).getD []

def pairEnv : TitanEnv :=
  { sampleEnv with
    decode := decodeAmong [responseMessage 2 9, responseMessage 3 10,
      quoteMessage solBytes usdcBytes 9, quoteMessage solBytes usdcBytes 10,
      quoteMessage usdcBytes solBytes 10] }

/-- A quote of the first stream for SOL-USDC, one of the second, and the pair reversed. -/
def firstQuote : TitanFrame := frameOf (quoteMessage solBytes usdcBytes 9)

def secondQuote : TitanFrame := frameOf (quoteMessage solBytes usdcBytes 10)

def reversedQuote : TitanFrame := frameOf (quoteMessage usdcBytes solBytes 10)

/-- Every rung is granted. -/
def grantingScript : RungScript := ⟨fun _ => true, fun _ => none⟩

/-- Both streams are attributed, then the first one quotes SOL-USDC. -/
def attributedFrames : List TitanFrame :=
  [frameOf (responseMessage 2 9), frameOf (responseMessage 3 10), firstQuote]

def pairOpened : TitanState := (openSession sampleWallet grantingScript [5, 7] {}).st

theorem one_pair_sample :
    ∃ doc ∈ docsStored (handleTitanServerMessage pairEnv
        (runs (handleTitanServerMessage pairEnv) pairOpened attributedFrames).1
        secondQuote).2.calls,
      OnePair (publishedRows (quotesOf pairEnv pairOpened (attributedFrames ++ [secondQuote])))
        doc := by
  have hdocs : docsStored (handleTitanServerMessage pairEnv
      (runs (handleTitanServerMessage pairEnv) pairOpened attributedFrames).1
      secondQuote).2.calls ≠ [] := by decide +kernel
  have hpairs : ∀ row ∈ publishedRows (quotesOf pairEnv pairOpened
      (attributedFrames ++ [secondQuote])), row.pair = "SOL-USDC" := by decide +kernel
  unfold pairOpened at hdocs hpairs ⊢
  have hone := (one_pair_iff pairEnv sampleWallet grantingScript [5, 7] {} rfl
    (attributedFrames ++ [secondQuote])).mpr (.inr ?_) attributedFrames secondQuote [] rfl
  · dsimp only at hone
    obtain ⟨doc, hdoc⟩ := List.exists_mem_of_ne_nil _ hdocs
    exact ⟨doc, hdoc, hone doc hdoc⟩
  · intro pre row next post hrows
    rw [hrows] at hpairs
    have hrow := hpairs row (by simp)
    have hnext := hpairs next (by simp)
    exact .inl (hnext.trans hrow.symm)

/-- A quote for USDC-SOL then labels a document that still shows the SOL-USDC pin. -/
theorem one_pair_fails :
    ¬ ∀ pre frame post, attributedFrames ++ [reversedQuote] = pre ++ frame :: post →
      ∀ doc ∈ docsStored (handleTitanServerMessage pairEnv
          (runs (handleTitanServerMessage pairEnv) pairOpened pre).1 frame).2.calls,
        OnePair (publishedRows (quotesOf pairEnv pairOpened (pre ++ [frame]))) doc := by
  intro h
  exact absurd (h attributedFrames reversedQuote [] rfl) (by decide +kernel)

/-! ## The size of a row -/

/-- The amount that a StreamData frame carries, 0 without one. -/
def amountOf (env : TitanEnv) (frame : TitanFrame) : UInt64 :=
  ((env.decode frame.data).bind fun value => do
    let streamData ← mapGet value "StreamData"
    let payload ← mapGet streamData "payload"
    let swapQuotes ← mapGet payload "SwapQuotes"
    u64At swapQuotes "amount").getD 0

theorem quoteOf_size {env : TitanEnv} {st : TitanState} {frame : TitanFrame}
    {quote : ParsedHop1Quote} (h : quoteOf env st frame = some quote) :
    quote.sizeLamports =
      (st.registry.sizeForStream quote.streamId).getD (amountOf env frame) := by
  obtain ⟨value, hv, hq⟩ := Option.bind_eq_some_iff.mp h
  split at hq
  · rw [amountOf, hv]
    unfold parseStreamDataHop1 at hq
    simp only [Option.bind_eq_bind, Option.bind_eq_some_iff] at hq
    obtain ⟨streamData, hs, streamId, _, payload, hp, swapQuotes, hsq, _, _, _, _, _, _, _, _, _, _,
      hquote⟩ := hq
    obtain rfl := Option.some.inj hquote
    simp [hs, hp, hsq]
  · cases hq

/-- A response of the session has attributed the stream to a granted rung. -/
def Attributed (env : TitanEnv) (granted : Nat → Bool) (ladder : List UInt64)
    (frames : List TitanFrame) (stream : UInt32) : Prop :=
  ∃ frame ∈ frames, ∃ size, Attributes env granted ladder frame stream size

theorem attributed_iff {env : TitanEnv} {granted : Nat → Bool} {ladder : List UInt64}
    {frames : List TitanFrame} {stream : UInt32} :
    Attributed env granted ladder frames stream ↔
      (lastWrite (frames.filterMap (attribution env granted ladder)) stream).isSome := by
  rw [isSome_lastWrite]
  simp only [List.mem_map, List.mem_filterMap, Prod.exists, attribution_eq_some, Attributed]
  constructor
  · rintro ⟨frame, hf, size, ha⟩
    exact ⟨stream, size, ⟨frame, hf, ha⟩, rfl⟩
  · rintro ⟨_, size, ⟨frame, hf, ha⟩, rfl⟩
    exact ⟨frame, hf, size, ha⟩

theorem attributed_size {env : TitanEnv} {granted : Nat → Bool} {ladder : List UInt64}
    {frames : List TitanFrame} {stream : UInt32} {size : UInt64}
    (h : lastWrite (frames.filterMap (attribution env granted ladder)) stream = some size) :
    size ∈ ladder := by
  obtain ⟨frame, _, ha⟩ := List.mem_filterMap.mp (mem_of_lastWrite h)
  obtain ⟨idx, _, _, hsize⟩ := attribution_eq_some.mp ha
  exact List.mem_of_getElem? hsize

/-- Every row that the frames of a session write, and every pin of its board at
any point, has a size of the ladder. -/
structure SizesSubscribed (env : TitanEnv) (opened : TitanState) (ladder : List UInt64)
    (frames : List TitanFrame) : Prop where
  rows : ∀ pre frame post, frames = pre ++ frame :: post →
    ∀ row ∈ rowsWritten (handleTitanServerMessage env
        (runs (handleTitanServerMessage env) opened pre).1 frame).2.calls,
      row.sizeLamports ∈ ladder
  pins : ∀ pre, pre <+: frames → ∀ (size : UInt64) (pin : SizeBoardPin),
    (runs (handleTitanServerMessage env) opened pre).1.board.pins[size]? = some pin →
      pin.sizeLamports ∈ ladder

theorem sizesSubscribed_iff {env : TitanEnv} {opened : TitanState} {ladder marked : List UInt64}
    (h : opened.board = .ofHistory ladder marked []) (frames : List TitanFrame) :
    SizesSubscribed env opened ladder frames ↔
      ∀ pre frame post, frames = pre ++ frame :: post →
        ∀ quote ∈ quoteOf env (runs (handleTitanServerMessage env) opened pre).1 frame,
          quote.sizeLamports ∈ ladder := by
  constructor
  · rintro ⟨_, hpins⟩ pre frame post rfl quote hquote
    have hb := frames_board env h (pre ++ [frame])
    rw [quotesOf_concat, show quoteOf env _ frame = some quote from hquote, Option.toList_some,
      List.map_singleton, publishedRows, List.map_append, List.map_singleton] at hb
    refine hpins (pre ++ [frame]) (by simp) quote.sizeLamports
      (pinOf (rowOf quote frame.clock.rowMs)) ?_
    rw [hb, TitanSizeBoard.ofHistory_pins, TitanSizeBoard.lastRow_concat]
    simp [rowOf]
  · intro hquotes
    constructor
    case rows =>
      rintro pre frame post rfl row hrow
      cases hw : env.fanout.writes with
      | false =>
        rw [frame_silent hw] at hrow
        cases hrow
      | true =>
        rw [frame_rows hw] at hrow
        obtain ⟨quote, hquote, rfl⟩ := List.mem_map.mp hrow
        exact hquotes pre frame post rfl quote (Option.mem_toList.mp hquote)
    case pins =>
      rintro pre ⟨post, rfl⟩ size pin hpin
      rw [frames_board env h, TitanSizeBoard.ofHistory_pins] at hpin
      obtain ⟨row, hrow, rfl⟩ := Option.map_eq_some_iff.mp hpin
      obtain ⟨_, hmem, he⟩ := List.mem_map.mp (mem_of_lastWrite hrow)
      obtain ⟨-, rfl⟩ := Prod.mk.inj he
      obtain ⟨published, hp, rfl⟩ := List.mem_map.mp hmem
      obtain ⟨before, after, hsplit⟩ := List.append_of_mem hp
      obtain ⟨early, frame, late, rfl, -, hquote, -⟩ := quotesOf_split hsplit
      exact hquotes early frame (late ++ post) (by simp) published.1 hquote

/-- **Sizes of rows.** On a parsed ladder, a quote is filed under the size its
stream was last attributed to, or without one under the amount of its frame. So
all rows and pins have sizes of the ladder, which are not 0, exactly if every
published quote comes from an attributed stream or has an amount of the ladder. -/
theorem row_sizes (env : TitanEnv) (wallet : Pubkey) (script : RungScript) (raw : Option String)
    (earlier : TitanState)
    (h : (openSession wallet script (parseHuntSizes raw) earlier).result = .ok ())
    (frames : List TitanFrame) :
    let ladder := parseHuntSizes raw
    let opened := (openSession wallet script ladder earlier).st
    let published (pre : List TitanFrame) (frame : TitanFrame) :=
      quoteOf env (runs (handleTitanServerMessage env) opened pre).1 frame
    (∀ pre frame post, frames = pre ++ frame :: post → ∀ quote ∈ published pre frame,
        quote.sizeLamports =
          (lastWrite (pre.filterMap (attribution env script.granted ladder))
            quote.streamId).getD (amountOf env frame)) ∧
      (SizesSubscribed env opened ladder frames ↔
        ∀ pre frame post, frames = pre ++ frame :: post → ∀ quote ∈ published pre frame,
          Attributed env script.granted ladder pre quote.streamId ∨
            amountOf env frame ∈ ladder) ∧
      0 ∉ ladder := by
  intro ladder opened published
  have hsize (pre : List TitanFrame) (frame : TitanFrame) (quote : ParsedHop1Quote)
      (hq : quote ∈ published pre frame) : quote.sizeLamports =
        (lastWrite (pre.filterMap (attribution env script.granted ladder))
          quote.streamId).getD (amountOf env frame) := by
    rw [quoteOf_size hq, frames_streams (open_registered h) (open_streams ladder earlier)]
  refine ⟨fun pre frame _ _ quote hq => hsize pre frame quote hq, ?_,
    zero_notMem_parseHuntSizes raw⟩
  rw [sizesSubscribed_iff (open_board h)]
  refine forall_congr' fun pre => forall_congr' fun frame => forall_congr' fun post =>
    imp_congr_right fun _ => forall_congr' fun quote => imp_congr_right fun hq => ?_
  rw [hsize pre frame quote hq, attributed_iff]
  cases hl : lastWrite (pre.filterMap (attribution env script.granted ladder)) quote.streamId with
  | some size => exact ⟨fun _ => .inl rfl, fun _ => attributed_size hl⟩
  | none => exact ⟨.inr, fun h => h.resolve_left (by simp)⟩

/-- Both streams of the two quotes are attributed. -/
theorem row_sizes_sample :
    SizesSubscribed pairEnv
      (openSession sampleWallet grantingScript (parseHuntSizes none) {}).st (parseHuntSizes none)
      attributedFrames := by
  have hok : (openSession sampleWallet grantingScript (parseHuntSizes none) {}).result = .ok () :=
    (subscribeFrom_ok_iff ..).mpr fun _ _ _ => rfl
  refine (row_sizes pairEnv sampleWallet grantingScript none {} hok attributedFrames).2.1.mpr ?_
  intro pre frame post hsplit quote hquote
  rcases pre with _ | ⟨_, _ | ⟨_, _ | ⟨_, pre⟩⟩⟩ <;>
    simp only [attributedFrames, List.nil_append, List.cons_append, List.cons.injEq] at hsplit
  · obtain ⟨rfl, -⟩ := hsplit
    cases hquote
  · obtain ⟨rfl, rfl, -⟩ := hsplit
    cases hquote
  · obtain ⟨rfl, rfl, rfl, -⟩ := hsplit
    have hstream : (quoteOf pairEnv (runs (handleTitanServerMessage pairEnv)
        (openSession sampleWallet grantingScript (parseHuntSizes none) {}).st
        [frameOf (responseMessage 2 9), frameOf (responseMessage 3 10)]).1 firstQuote).map
          (·.streamId) = some 9 := by decide +kernel
    have hresponse : responseOf pairEnv (frameOf (responseMessage 2 9)) = some (2, 9) := by
      decide +kernel
    dsimp only at hquote
    rw [Option.mem_def.mp hquote] at hstream
    have hnine : quote.streamId = 9 := Option.some.inj hstream
    rw [hnine]
    exact .inl ⟨frameOf (responseMessage 2 9), by simp, 250000000, 0, hresponse, rfl, rfl⟩
  · simp at hsplit

/-- A quote of an unknown stream without an amount is filed under size 0. -/
theorem row_of_size_zero :
    ¬ SizesSubscribed pairEnv
      (openSession sampleWallet grantingScript (parseHuntSizes none) {}).st (parseHuntSizes none)
      [firstQuote] := by
  intro h
  exact absurd (h.rows [] firstQuote [] rfl) (by decide +kernel)

end FeedMux.Upstream
