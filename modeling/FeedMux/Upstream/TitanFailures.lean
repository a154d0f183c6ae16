import FeedMux.Upstream.TitanPublished

/-!
# Failing Redis calls (`publish_hop1_quote` in `src/titan_quote.rs`)

A quote is filed on the board and then written by three calls, for its row, the
board document and the counters; each swallows its own error. The counters and
the documents stay behind the rows exactly if no counters and no document are
written ahead of the rows they speak about (`rows_behind_iff`).
-/

namespace FeedMux.Upstream
open FeedMux.Library FeedMux.Library.KeyValue FeedMux.Titan

/-- A frame, with which of its Redis calls succeed. -/
structure Attempt where
  frame : TitanFrame
  succeeds : Nat → Bool

/-- The calls that take effect: a failed one applies nothing. -/
def effective (calls : List (RedisCall TitanDocument)) (succeeds : Nat → Bool) :
    List (RedisCall TitanDocument) :=
  (calls.zipIdx.filter fun call => succeeds call.2).map Prod.fst

def attemptStep (env : TitanEnv) (s : TitanState × Redis TitanDocument) (attempt : Attempt) :
    (TitanState × Redis TitanDocument) × List (RedisCall TitanDocument) :=
  let (st, out) := handleTitanServerMessage env s.1 attempt.frame
  let made := effective out.calls attempt.succeeds
  ((st, s.2.after made), made)

/-- A published quote, and which of its three writes took effect. -/
structure Publication where
  sizeLamports : UInt64
  row : Bool
  board : Bool
  counters : Bool
  deriving DecidableEq

def publicationOf (env : TitanEnv) (quote : ParsedHop1Quote) (succeeds : Nat → Bool) :
    Publication where
  sizeLamports := quote.sizeLamports
  row := env.fanout.writes && succeeds 0
  board := env.fanout.writes && succeeds 1
  counters := env.fanout.writes && succeeds 2

/-- The publications of a session. -/
def publications (env : TitanEnv) (st : TitanState) (attempts : List Attempt) :
    List Publication :=
  collect (fun st attempt => handleTitanServerMessage env st attempt.frame)
    (fun st attempt =>
      (quoteOf env st attempt.frame).map (publicationOf env · attempt.succeeds)) st attempts

/-! ## One frame -/

section
variable {env : TitanEnv}

/-- What calls store and count: the sizes of rows, the documents, the quotes counted. -/
structure Stores (made : List (RedisCall TitanDocument)) (sizes : List UInt64)
    (docs : List TitanSizeBoardDoc) (counted : Int) : Prop where
  rows : (rowsWritten made).map TitanHop1Row.sizeLamports = sizes
  boards : docsStored made = docs
  keeps : ∀ c ∈ made.flatten,
    ¬ c.Overwrites MuxKeys.titanDecoded ∧ ¬ c.Overwrites MuxKeys.titanHop1Served
  decoded : increments MuxKeys.titanDecoded made.flatten = counted
  served : increments MuxKeys.titanHop1Served made.flatten = sizes.length

theorem Stores.nil : Stores [] [] [] 0 := ⟨rfl, rfl, by simp, rfl, rfl⟩

theorem Stores.append {made made' : List (RedisCall TitanDocument)} {sizes sizes' : List UInt64}
    {docs docs' : List TitanSizeBoardDoc} {n n' : Int} (h : Stores made sizes docs n)
    (h' : Stores made' sizes' docs' n') :
    Stores (made ++ made') (sizes ++ sizes') (docs ++ docs') (n + n') where
  rows := by
    rw [← h.rows, ← h'.rows]
    simp [rowsWritten]
  boards := by
    rw [← h.boards, ← h'.boards]
    simp [docsStored]
  keeps := by
    intro c hc
    rw [List.flatten_append, List.mem_append] at hc
    exact hc.elim (h.keeps c) (h'.keeps c)
  decoded := by
    rw [← h.decoded, ← h'.decoded]
    simp [increments]
  served := by
    have hs := congrArg₂ (· + ·) h.served h'.served
    simp only [increments, List.flatten_append, List.map_append, List.sum_append,
      List.length_append, Nat.cast_add] at hs ⊢
    exact hs

theorem Stores.after {made : List (RedisCall TitanDocument)} {sizes : List UInt64}
    {docs : List TitanSizeBoardDoc} {n decoded served : Int} (h : Stores made sizes docs n)
    {redis : Redis TitanDocument} (hd : counter redis MuxKeys.titanDecoded = some decoded)
    (hs : counter redis MuxKeys.titanHop1Served = some served) :
    counter (redis.after made) MuxKeys.titanDecoded = some (decoded + n) ∧
      counter (redis.after made) MuxKeys.titanHop1Served = some (served + sizes.length) := by
  constructor
  · rw [← h.decoded]
    exact exec_counter (fun c hc => (h.keeps c hc).1) hd
  · rw [← h.served]
    exact exec_counter (fun c hc => (h.keeps c hc).2) hs

/-- A call that fails stores and counts nothing. -/
theorem Stores.guard {call : RedisCall TitanDocument} {sizes : List UInt64}
    {docs : List TitanSizeBoardDoc} {n : Int} (h : Stores [call] sizes docs n) (ok : Bool) :
    Stores (if ok then [call] else []) (if ok then sizes else []) (if ok then docs else [])
      (if ok then n else 0) := by
  cases ok with
  | true => exact h
  | false => exact .nil

theorem effective_three (a b c : RedisCall TitanDocument) (succeeds : Nat → Bool) :
    effective [a, b, c] succeeds =
      (if succeeds 0 then [a] else []) ++
        ((if succeeds 1 then [b] else []) ++ if succeeds 2 then [c] else []) := by
  cases h0 : succeeds 0 <;> cases h1 : succeeds 1 <;> cases h2 : succeeds 2 <;>
    simp [effective, h0, h1, h2]

theorem row_stores (row : TitanHop1Row) (ttlSecs : Nat) :
    Stores [[.setEx (MuxKeys.hop1RowKey row.pair row.sizeLamports) (.doc (.row (.hop1Row row)))
      ttlSecs, .incr MuxKeys.titanHop1Served 1]] [row.sizeLamports] [] 0 where
  rows := by simp [rowsWritten, storedRow]
  boards := rfl
  keeps := by
    have hd : ¬ MuxKeys.hop1RowKey row.pair row.sizeLamports = MuxKeys.titanDecoded :=
      MuxKeys.hop1RowKey_ne (by decide)
    have hs : ¬ MuxKeys.hop1RowKey row.pair row.sizeLamports = MuxKeys.titanHop1Served :=
      MuxKeys.hop1RowKey_ne (by decide)
    simp [Cmd.Overwrites, Cmd.key, hd, hs]
  decoded := rfl
  served := rfl

theorem board_stores (doc : TitanSizeBoardDoc) :
    Stores [[.set MuxKeys.titanSizeBoard (.doc (.row (.sizeBoard doc)))]] [] [doc] 0 where
  rows := rfl
  boards := rfl
  keeps := by
    have hd : ¬ MuxKeys.titanSizeBoard = MuxKeys.titanDecoded := by decide
    have hs : ¬ MuxKeys.titanSizeBoard = MuxKeys.titanHop1Served := by decide
    simp [Cmd.Overwrites, Cmd.key, hd, hs]
  decoded := rfl
  served := rfl

theorem counters_stores (ts : UInt64) :
    Stores [[.incr MuxKeys.titanFrames 1, .incr MuxKeys.titanDecoded 1,
      RedisFanout.setMs MuxKeys.titanLastFrameMs ts, RedisFanout.setMs MuxKeys.titanFreshestMs ts,
      RedisFanout.setInt MuxKeys.titanPairsLive 1, RedisFanout.setInt MuxKeys.metaTitanUp 1]]
      [] [] 1 where
  rows := rfl
  boards := rfl
  keeps := by
    have hother : ∀ key ∈ [MuxKeys.titanLastFrameMs, MuxKeys.titanFreshestMs,
        MuxKeys.titanPairsLive, MuxKeys.metaTitanUp],
        key ≠ MuxKeys.titanDecoded ∧ key ≠ MuxKeys.titanHop1Served := by decide
    simp only [List.forall_mem_cons, List.not_mem_nil, false_implies, implies_true] at hother
    simp [Cmd.Overwrites, Cmd.key, RedisFanout.setMs, RedisFanout.setInt, hother]
  decoded := rfl
  served := rfl

theorem publish_stores (board : TitanSizeBoard) (quote : ParsedHop1Quote) (clock : FrameClock)
    (succeeds : Nat → Bool) :
    let p := publicationOf env quote succeeds
    Stores (effective (publishHop1Quote env board quote clock).2 succeeds)
      (if p.row then [quote.sizeLamports] else [])
      (if p.board then [docOf board quote clock] else [])
      (if p.counters then 1 else 0) := by
  intro p
  cases hw : env.fanout.writes with
  | false =>
    have hp : p.row = false ∧ p.board = false ∧ p.counters = false := by
      simp [p, publicationOf, hw]
    rw [hp.1, hp.2.1, hp.2.2]
    simp only [publishHop1Quote, publishSizeBoardSnapshot, RedisFanout.publishTitanHop1,
      RedisFanout.publishTitanSizeBoard, RedisFanout.recordTitanMessage,
      RedisFanout.recordTitanQuoteSuccess, RedisFanout.calls_of_not_writes hw]
    exact .nil
  | true =>
    have hp : p.row = succeeds 0 ∧ p.board = succeeds 1 ∧ p.counters = succeeds 2 := by
      simp [p, publicationOf, hw]
    rw [hp.1, hp.2.1, hp.2.2]
    simp only [publishHop1Quote, publishSizeBoardSnapshot, RedisFanout.publishTitanHop1,
      RedisFanout.publishTitanSizeBoard, RedisFanout.recordTitanMessage,
      RedisFanout.recordTitanQuoteSuccess, RedisFanout.calls_of_writes hw, List.cons_append,
      List.nil_append, effective_three]
    have hrow := (row_stores (rowOf quote clock.rowMs) (max env.hop1TtlSecs.toNat 1)).guard
      (succeeds 0)
    have hboard := (board_stores (docOf board quote clock)).guard (succeeds 1)
    have hcounters := (counters_stores clock.doneMs).guard (succeeds 2)
    simpa [rowOf, docOf] using hrow.append (hboard.append hcounters)

theorem incr_stores_nothing {key : String} (hd : key ≠ MuxKeys.titanDecoded)
    (hs : key ≠ MuxKeys.titanHop1Served) (succeeds : Nat → Bool) :
    Stores (effective (env.fanout.incr key) succeeds) [] [] 0 := by
  unfold RedisFanout.incr RedisFanout.calls
  split
  · exact .nil
  · have hone : Stores [[.incr key 1]] [] [] 0 := by
      constructor
      case rows => rfl
      case boards => rfl
      case keeps => simp [Cmd.Overwrites]
      case decoded => simp [Cmd.amount, hd]
      case served => simp [Cmd.amount, hs]
    have he : effective [[.incr key 1]] succeeds =
        if succeeds 0 then [[.incr key 1]] else [] := by
      cases h0 : succeeds 0 <;> simp [effective, h0]
    rw [he]
    simpa using hone.guard (succeeds 0)

variable (env) in
/-- **One frame.** It stores and counts what its publication, if any, says. -/
theorem attempt_stores (s : TitanState × Redis TitanDocument) (attempt : Attempt) :
    match quoteOf env s.1 attempt.frame with
    | some quote =>
      let p := publicationOf env quote attempt.succeeds
      Stores (attemptStep env s attempt).2 (if p.row then [p.sizeLamports] else [])
        (if p.board then [docOf s.1.board quote attempt.frame.clock] else [])
        (if p.counters then 1 else 0)
    | none => Stores (attemptStep env s attempt).2 [] [] 0 := by
  unfold attemptStep
  cases hq : quoteOf env s.1 attempt.frame with
  | some quote =>
    simp only [handle_quote hq]
    exact publish_stores s.1.board quote attempt.frame.clock attempt.succeeds
  | none =>
    rcases (handle_no_quote hq).2.2 with h | h | h <;> simp only [h]
    · exact .nil
    · exact incr_stores_nothing (by decide) (by decide) _
    · exact incr_stores_nothing (by decide) (by decide) _

/-! ## Sessions -/

theorem runs_frames (st : TitanState) (attempts : List Attempt) :
    (runs (fun st (attempt : Attempt) => handleTitanServerMessage env st attempt.frame) st
        attempts).1 =
      (runs (handleTitanServerMessage env) st (attempts.map Attempt.frame)).1 := by
  induction attempts generalizing st with
  | nil => rfl
  | cons attempt attempts ih => exact ih _

theorem publications_concat (st : TitanState) (attempts : List Attempt) (attempt : Attempt) :
    publications env st (attempts ++ [attempt]) =
      publications env st attempts ++
        (quoteOf env (runs (handleTitanServerMessage env) st (attempts.map Attempt.frame)).1
          attempt.frame).toList.map (publicationOf env · attempt.succeeds) := by
  rw [publications, collect_concat, runs_frames, ← Option.toList_map]
  rfl

theorem publications_sizes (st : TitanState) (attempts : List Attempt) :
    (publications env st attempts).map Publication.sizeLamports =
      (publishedRows (quotesOf env st (attempts.map Attempt.frame))).map
        TitanHop1Row.sizeLamports := by
  induction attempts using List.reverseRecOn with
  | nil => rfl
  | append_singleton attempts attempt ih =>
    rw [publications_concat, List.map_append, ih, List.map_append, List.map_singleton,
      quotesOf_concat, publishedRows, publishedRows, List.map_append, List.map_append]
    cases quoteOf env _ attempt.frame <;> rfl

/-- A failing call does not change what is handled next. -/
theorem attempts_state (s : TitanState × Redis TitanDocument) (attempts : List Attempt) :
    (runs (attemptStep env) s attempts).1.1 =
      (runs (handleTitanServerMessage env) s.1 (attempts.map Attempt.frame)).1 := by
  induction attempts generalizing s with
  | nil => rfl
  | cons attempt attempts ih =>
    rw [runs_cons, List.map_cons, runs_cons]
    exact ih _

theorem attemptStep_redis (s : TitanState × Redis TitanDocument) (attempt : Attempt) :
    (attemptStep env s attempt).1.2 = s.2.after (attemptStep env s attempt).2 := rfl

variable (env) in
/-- **A session.** Its writes are those of its publications. -/
theorem attempts_store (st : TitanState) {redis : Redis TitanDocument} {decoded served : Int}
    (hd : counter redis MuxKeys.titanDecoded = some decoded)
    (hs : counter redis MuxKeys.titanHop1Served = some served) (attempts : List Attempt) :
    let run := runs (attemptStep env) (st, redis) attempts
    let ps := publications env st attempts
    (rowsWritten run.2.flatten).map TitanHop1Row.sizeLamports =
        (ps.filter Publication.row).map Publication.sizeLamports ∧
      counter run.1.2 MuxKeys.titanDecoded =
        some (decoded + (ps.countP Publication.counters : Nat)) ∧
      counter run.1.2 MuxKeys.titanHop1Served =
        some (served + (ps.countP Publication.row : Nat)) := by
  induction attempts using List.reverseRecOn with
  | nil => simpa [publications, collect, rowsWritten] using ⟨hd, hs⟩
  | append_singleton attempts attempt ih =>
    obtain ⟨hrows, hdec, hserved⟩ := ih
    have hstep := attempt_stores env (runs (attemptStep env) (st, redis) attempts).1 attempt
    rw [attempts_state] at hstep
    simp only [runs_concat, publications_concat, rowsWritten, List.flatten_append,
      List.flatten_singleton, List.filterMap_append, List.map_append] at hrows ⊢
    rw [hrows, attemptStep_redis]
    cases hq : quoteOf env (runs (handleTitanServerMessage env) st
        (attempts.map Attempt.frame)).1 attempt.frame with
    | none =>
      rw [hq] at hstep
      have hafter := hstep.after hdec hserved
      have hnone := hstep.rows
      rw [rowsWritten] at hnone
      rw [hnone]
      simpa using hafter
    | some quote =>
      rw [hq] at hstep
      have hafter := hstep.after hdec hserved
      have hsome := hstep.rows
      rw [rowsWritten] at hsome
      rw [hsome, hafter.1, hafter.2]
      simp only [Option.toList_some, List.map_cons, List.map_nil, List.filter_append,
        List.map_append, List.countP_append, List.countP_singleton, List.filter_singleton]
      generalize publicationOf env quote attempt.succeeds = p
      cases p.row <;> cases p.counters <;> simp [Int.add_assoc]

end

/-! ## What consumers are told -/

/-- Redis never tells of a row that was not written: at every frame boundary no
more quotes are counted than rows, and a stored document has a pin for a size
quoted in the session only if a row of that size was written in the session. -/
structure RowsBehind (env : TitanEnv) (st : TitanState) (redis : Redis TitanDocument)
    (attempts : List Attempt) : Prop where
  counters : ∀ done, done <+: attempts → ∃ decoded served,
    counter (runs (attemptStep env) (st, redis) done).1.2 MuxKeys.titanDecoded = some decoded ∧
      counter (runs (attemptStep env) (st, redis) done).1.2 MuxKeys.titanHop1Served =
        some served ∧ decoded ≤ served
  pins : ∀ pre attempt post, attempts = pre ++ attempt :: post →
    ∀ doc ∈ docsStored (attemptStep env (runs (attemptStep env) (st, redis) pre).1 attempt).2,
      ∀ pin ∈ doc.pins,
        pin.sizeLamports ∈ (publishedRows (quotesOf env st
            ((pre ++ [attempt]).map Attempt.frame))).map TitanHop1Row.sizeLamports →
          pin.sizeLamports ∈ (rowsWritten (runs (attemptStep env) (st, redis)
            (pre ++ [attempt])).2.flatten).map TitanHop1Row.sizeLamports

/-- Counters and documents are written only when enough rows have been: `ahead`
rows more than quotes were counted before the session. -/
structure Covered (ahead : Int) (ps : List Publication) : Prop where
  counted : ∀ pre p post, ps = pre ++ p :: post → p.counters →
    (((pre ++ [p]).countP Publication.counters : Nat) : Int) ≤
      ahead + ((pre ++ [p]).countP Publication.row : Nat)
  shown : ∀ pre p post, ps = pre ++ p :: post → p.board →
    ∀ q ∈ pre ++ [p], ∃ r ∈ pre ++ [p], r.row ∧ r.sizeLamports = q.sizeLamports

/-- If no row write fails, everything is covered. -/
theorem covered_of_rows {ahead : Int} (ha : 0 ≤ ahead) {ps : List Publication}
    (h : ∀ p ∈ ps, p.row) : Covered ahead ps where
  counted := by
    rintro pre p post rfl _
    have hall : (pre ++ [p]).countP Publication.row = (pre ++ [p]).length := by
      rw [List.countP_eq_length]
      intro q hq
      refine h q ?_
      simp only [List.mem_append, List.mem_cons, List.not_mem_nil, or_false] at hq ⊢
      tauto
    have hle := (pre ++ [p]).countP_le_length (p := Publication.counters)
    omega
  shown := by
    rintro pre p post rfl _ q hq
    refine ⟨q, hq, h q ?_, rfl⟩
    simp only [List.mem_append, List.mem_cons, List.not_mem_nil, or_false] at hq ⊢
    tauto

/-- The counters are covered at the end if they are wherever a quote is counted. -/
theorem counted_end (ahead : Int) (ha : 0 ≤ ahead) (ps : List Publication)
    (h : ∀ pre p post, ps = pre ++ p :: post → p.counters →
      (((pre ++ [p]).countP Publication.counters : Nat) : Int) ≤
        ahead + ((pre ++ [p]).countP Publication.row : Nat)) :
    ((ps.countP Publication.counters : Nat) : Int) ≤ ahead + (ps.countP Publication.row : Nat) := by
  induction ps using List.reverseRecOn with
  | nil => simpa using ha
  | append_singleton ps p ih =>
    by_cases hp : p.counters
    · exact h ps p [] (by simp) hp
    · have hprev := ih fun pre q post hsplit hq =>
        h pre q (post ++ [p]) (by rw [hsplit]; simp) hq
      simp only [List.countP_append, List.countP_singleton, hp] at hprev ⊢
      push_cast
      split <;> omega

section
variable {env : TitanEnv} {st : TitanState} {redis : Redis TitanDocument}

theorem publications_split {attempts : List Attempt} {before after : List Publication}
    {p : Publication} (h : publications env st attempts = before ++ p :: after) :
    ∃ pre attempt post quote, attempts = pre ++ attempt :: post ∧
      publications env st pre = before ∧
      quoteOf env (runs (handleTitanServerMessage env) st (pre.map Attempt.frame)).1
        attempt.frame = some quote ∧ p = publicationOf env quote attempt.succeeds := by
  obtain ⟨pre, attempt, post, rfl, hpre, hfound⟩ := collect_split h
  obtain ⟨quote, hquote, rfl⟩ := Option.map_eq_some_iff.mp hfound
  rw [runs_frames] at hquote
  exact ⟨pre, attempt, post, quote, rfl, hpre, hquote, rfl⟩

theorem quoted_iff {attempts : List Attempt} {size : UInt64} :
    size ∈ (publishedRows (quotesOf env st (attempts.map Attempt.frame))).map
        TitanHop1Row.sizeLamports ↔
      ∃ q ∈ publications env st attempts, q.sizeLamports = size := by
  rw [← publications_sizes, List.mem_map]

theorem written_iff {decoded served : Int}
    (hd : counter redis MuxKeys.titanDecoded = some decoded)
    (hs : counter redis MuxKeys.titanHop1Served = some served) {attempts : List Attempt}
    {size : UInt64} :
    size ∈ (rowsWritten (runs (attemptStep env) (st, redis) attempts).2.flatten).map
        TitanHop1Row.sizeLamports ↔
      ∃ r ∈ publications env st attempts, r.row ∧ r.sizeLamports = size := by
  rw [(attempts_store env st hd hs attempts).1]
  simp only [List.mem_map, List.mem_filter, and_assoc]

/-- A stored document is that of the frame's quote. -/
theorem stored_doc {pre : List Attempt} {attempt : Attempt} {doc : TitanSizeBoardDoc}
    (h : doc ∈ docsStored (attemptStep env (runs (attemptStep env) (st, redis) pre).1 attempt).2) :
    ∃ p, p.board ∧ publications env st (pre ++ [attempt]) = publications env st pre ++ [p] := by
  have hstep := attempt_stores env (runs (attemptStep env) (st, redis) pre).1 attempt
  rw [attempts_state] at hstep
  rw [publications_concat]
  cases hq : quoteOf env (runs (handleTitanServerMessage env) st (pre.map Attempt.frame)).1
      attempt.frame with
  | none =>
    rw [hq] at hstep
    rw [hstep.boards] at h
    cases h
  | some quote =>
    rw [hq] at hstep
    rw [hstep.boards] at h
    refine ⟨publicationOf env quote attempt.succeeds, ?_, rfl⟩
    by_contra hb
    rw [if_neg hb] at h
    cases h

/-- The document of a quote has a pin for every size quoted so far. -/
theorem doc_has_pin {board : TitanSizeBoard} {ladder marked : List UInt64}
    {rows : List TitanHop1Row} (h : board = .ofHistory ladder marked rows)
    (quote : ParsedHop1Quote) (clock : FrameClock) {size : UInt64}
    (hs : size ∈ (rows ++ [rowOf quote clock.rowMs]).map TitanHop1Row.sizeLamports) :
    ∃ pin ∈ (docOf board quote clock).pins, pin.sizeLamports = size := by
  obtain ⟨row, hrow⟩ := Option.isSome_iff_exists.mp (TitanSizeBoard.lastRow_isSome.mpr hs)
  refine ⟨(pinOf row).aged clock.boardMs, mem_doc.mpr (.inl ⟨size, pinOf row, ?_, rfl⟩),
    TitanSizeBoard.lastRow_size hrow⟩
  rw [h, ← TitanSizeBoard.ofHistory_concat, TitanSizeBoard.ofHistory_pins, hrow]
  rfl

variable (redis) in
/-- If the board call succeeds, a document with every size quoted so far is stored. -/
theorem stored_shows {ladder marked : List UInt64} (hb : st.board = .ofHistory ladder marked [])
    {pre : List Attempt} {attempt : Attempt} {quote : ParsedHop1Quote}
    (hquote : quoteOf env (runs (handleTitanServerMessage env) st (pre.map Attempt.frame)).1
      attempt.frame = some quote)
    (hboard : (publicationOf env quote attempt.succeeds).board) {size : UInt64}
    (hs : size ∈ (publishedRows (quotesOf env st ((pre ++ [attempt]).map Attempt.frame))).map
      TitanHop1Row.sizeLamports) :
    ∃ doc ∈ docsStored (attemptStep env (runs (attemptStep env) (st, redis) pre).1 attempt).2,
      ∃ pin ∈ doc.pins, pin.sizeLamports = size := by
  have hstep := attempt_stores env (runs (attemptStep env) (st, redis) pre).1 attempt
  rw [attempts_state, hquote] at hstep
  have hrows : publishedRows (quotesOf env st ((pre ++ [attempt]).map Attempt.frame)) =
      publishedRows (quotesOf env st (pre.map Attempt.frame)) ++
        [rowOf quote attempt.frame.clock.rowMs] := by
    rw [List.map_append, List.map_singleton, quotesOf_concat, hquote, publishedRows,
      List.map_append]
    rfl
  rw [hstep.boards, if_pos hboard]
  rw [hrows] at hs
  exact ⟨_, List.mem_cons_self, doc_has_pin (frames_board env hb _) quote attempt.frame.clock hs⟩

variable (env st) in
theorem publications_append (attempts more : List Attempt) :
    ∃ later, publications env st (attempts ++ more) = publications env st attempts ++ later :=
  ⟨_, collect_append ..⟩

end

/-- **Failing calls.** In a session that starts with no more quotes counted than
rows, Redis tells only of rows that were written, at every frame boundary,
exactly if counters and documents are written only when enough rows have been. -/
theorem rows_behind_iff (env : TitanEnv) (wallet : Pubkey) (script : RungScript)
    (ladder : List UInt64) (earlier : TitanState)
    (h : (openSession wallet script ladder earlier).result = .ok ())
    (redis : Redis TitanDocument) (decoded served : Int)
    (hd : counter redis MuxKeys.titanDecoded = some decoded)
    (hs : counter redis MuxKeys.titanHop1Served = some served) (hle : decoded ≤ served)
    (attempts : List Attempt) :
    let opened := (openSession wallet script ladder earlier).st
    RowsBehind env opened redis attempts ↔
      Covered (served - decoded) (publications env opened attempts) := by
  intro opened
  constructor
  · intro hbehind
    constructor
    case counted =>
      intro before p after hsplit _
      obtain ⟨pre, attempt, post, quote, rfl, rfl, hquote, rfl⟩ := publications_split hsplit
      obtain ⟨d, s, hd', hs', hds⟩ := hbehind.counters (pre ++ [attempt]) (by simp)
      obtain ⟨-, hdec, hserved⟩ := attempts_store env opened hd hs (pre ++ [attempt])
      rw [publications_concat, hquote, Option.toList_some, List.map_singleton] at hdec hserved
      have hd := Option.some.inj (hdec.symm.trans hd')
      have hs := Option.some.inj (hserved.symm.trans hs')
      omega
    case shown =>
      intro before p after hsplit hboard q hq
      obtain ⟨pre, attempt, post, quote, rfl, rfl, hquote, rfl⟩ := publications_split hsplit
      have hps : publications env opened (pre ++ [attempt]) =
          publications env opened pre ++ [publicationOf env quote attempt.succeeds] := by
        rw [publications_concat, hquote]
        rfl
      have hquoted := quoted_iff.mpr ⟨q, hps ▸ hq, rfl⟩
      obtain ⟨doc, hdoc, pin, hpin, hsize⟩ :=
        stored_shows redis (open_board h) hquote hboard hquoted
      have hwritten := hbehind.pins pre attempt post rfl doc hdoc pin hpin (by rwa [hsize])
      rw [hsize] at hwritten
      obtain ⟨r, hr, hrow, hrs⟩ := (written_iff hd hs).mp hwritten
      exact ⟨r, hps ▸ hr, hrow, hrs⟩
  · intro hcovered
    constructor
    case counters =>
      rintro done ⟨post, rfl⟩
      obtain ⟨-, hdec, hserved⟩ := attempts_store env opened hd hs done
      refine ⟨_, _, hdec, hserved, ?_⟩
      obtain ⟨later, hlater⟩ := publications_append env opened done post
      have hend := counted_end (served - decoded) (by omega)
        (publications env opened done) fun pre p mid hsplit hp =>
          hcovered.counted pre p (mid ++ later) (by rw [hlater, hsplit]; simp) hp
      omega
    case pins =>
      rintro pre attempt post rfl doc hdoc pin _ hquoted
      obtain ⟨p, hboard, hps⟩ := stored_doc hdoc
      obtain ⟨q, hq, hsize⟩ := quoted_iff.mp hquoted
      obtain ⟨later, hlater⟩ := publications_append env opened (pre ++ [attempt]) post
      rw [hps] at hq hlater
      obtain ⟨r, hr, hrow, hrs⟩ := hcovered.shown _ p later (by
        rw [List.append_cons, hlater]; simp) hboard q hq
      exact (written_iff hd hs).mpr ⟨r, hps ▸ hr, hrow, hrs.trans hsize⟩

/-- The session's first quote, with the outcome of its three writes. -/
def quoteAttempts (succeeds : Nat → Bool) : List Attempt :=
  [⟨frameOf (responseMessage 2 9), fun _ => true⟩, ⟨firstQuote, succeeds⟩]

def bootedRedis : Redis TitanDocument :=
  Redis.after (fun _ => none) pairEnv.fanout.resetTitanStateAtBoot

theorem booted_counters :
    counter bootedRedis MuxKeys.titanDecoded = some 0 ∧
      counter bootedRedis MuxKeys.titanHop1Served = some 0 :=
  ⟨boot_counter rfl rfl (by decide) _, boot_counter rfl rfl (by decide) _⟩

/-- With only the board write failing, all is well. -/
theorem rows_behind_sample :
    RowsBehind pairEnv (openSession sampleWallet grantingScript [5, 7] {}).st bootedRedis
      (quoteAttempts fun call => call != 1) :=
  (rows_behind_iff pairEnv sampleWallet grantingScript [5, 7] {} rfl bootedRedis 0 0
    booted_counters.1 booted_counters.2 (by decide) _).mpr
    (covered_of_rows (by decide) (by decide +kernel))

/-- With only the row write failing, the document shows a pin without a row. -/
theorem rows_behind_fails :
    ¬ RowsBehind pairEnv (openSession sampleWallet grantingScript [5, 7] {}).st bootedRedis
      (quoteAttempts fun call => call != 0) := by
  intro h
  exact absurd (h.pins [⟨frameOf (responseMessage 2 9), fun _ => true⟩]
    ⟨firstQuote, fun call => call != 0⟩ [] rfl) (by decide +kernel)

end FeedMux.Upstream
