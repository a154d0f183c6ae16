import FeedMux.Library.Since
import FeedMux.Upstream.Operations

/-!
# When `pairs_live` is up (`src/redis_fanout.rs`, `src/upstream/titan.rs`)

Between any two operations of a sequence of session events, `pairs_live` is up
exactly if a quote has been published since the boot reset and the last
disconnect mark (`pairs_live_iff`).
-/

namespace FeedMux.Upstream.TitanLive
open FeedMux.Library FeedMux.Library.KeyValue FeedMux.Titan

/-- Redis after the operations, whose writes succeed. -/
def afterOps (fanout : RedisFanout) (redis : Redis TitanDocument)
    (ops : List (TitanOp TitanDocument)) : Redis TitanDocument :=
  ops.foldl (fun redis op => redis.after (op.calls fanout)) redis

theorem afterOps_append (fanout : RedisFanout) (redis : Redis TitanDocument)
    (ops more : List (TitanOp TitanDocument)) :
    afterOps fanout redis (ops ++ more) = afterOps fanout (afterOps fanout redis ops) more :=
  List.foldl_append ..

theorem afterOps_calls (fanout : RedisFanout) (redis : Redis TitanDocument)
    (ops : List (TitanOp TitanDocument)) :
    afterOps fanout redis ops = redis.after (ops.flatMap (TitanOp.calls fanout)) :=
  (after_flatMap ..).symm

/-! ## One operation -/

section
variable {fanout : RedisFanout} {redis : Redis TitanDocument} {op : TitanOp TitanDocument}

theorem untouched {key : String} (hrow : ¬ MuxKeys.hop1Prefix <+: key.toList)
    (hk : key ∉ op.fixedKeys) :
    counter (redis.after (op.calls fanout)) key = counter redis key :=
  after_frame (TitanOp.frame hrow hk) redis

/-- Only marks and quotes touch the flags. -/
theorem touches {key : String} (hk : key ∈ MuxKeys.titanFlags) (h : key ∈ op.fixedKeys) :
    MarksUp op ∨ Clears op ∨ Quotes op := by
  rcases TitanOp.flag_mem hk h with ⟨up, rfl⟩ | ⟨nowMs, rfl⟩
  · cases up with
    | true => exact .inl trivial
    | false => exact .inr (.inl trivial)
  · exact .inr (.inr trivial)

/-- Nothing else touches `pairs_live`. -/
theorem others_keep (hq : ¬ Quotes op) (hc : ¬ Clears op) :
    counter (redis.after (op.calls fanout)) MuxKeys.titanPairsLive =
      counter redis MuxKeys.titanPairsLive := by
  refine untouched (by decide) ?_
  intro hk
  rcases touches (by decide) hk with hup | hclear | hquote
  · rw [marksUp_iff.mp hup] at hk
    exact absurd hk (by decide)
  · exact hc hclear
  · exact hq hquote

/-- Nor the upstream's flag, which marks set as well. -/
theorem others_keep_up (hup : ¬ MarksUp op) (hq : ¬ Quotes op) (hc : ¬ Clears op) :
    counter (redis.after (op.calls fanout)) MuxKeys.metaTitanUp =
      counter redis MuxKeys.metaTitanUp := by
  refine untouched (by decide) ?_
  intro hk
  rcases touches (by decide) hk with hup' | hclear | hquote
  · exact hup hup'
  · exact hc hclear
  · exact hq hquote

variable (hw : fanout.writes = true)
include hw

/-- A counted quote raises both flags. -/
theorem quotes_raise {key : String} (hk : key ∈ MuxKeys.titanFlags) (h : Quotes op) :
    counter (redis.after (op.calls fanout)) key = some 1 := by
  obtain ⟨nowMs, rfl⟩ := quotes_iff.mp h
  refine (TitanOp.quote_sets hk nowMs).sets ?_ redis
  simp only [TitanOp.calls, RedisFanout.recordTitanMessage, RedisFanout.recordTitanQuoteSuccess,
    RedisFanout.calls_of_writes hw]
  simp only [MuxKeys.titanFlags, List.mem_cons, List.not_mem_nil, or_false] at hk
  rcases hk with rfl | rfl <;> simp [flag]

/-- A mark sets the upstream's flag, and a disconnect mark clears both. -/
theorem marks_set (up : Bool) :
    counter (redis.after ((TitanOp.upstreamUp up).calls fanout)) MuxKeys.metaTitanUp =
        some (flag up) ∧
      (up = false →
        counter (redis.after ((TitanOp.upstreamUp up).calls fanout)) MuxKeys.titanPairsLive =
          some 0) := by
  have hcalls : (TitanOp.upstreamUp up : TitanOp TitanDocument).calls fanout =
      [RedisFanout.setInt MuxKeys.metaTitanUp (flag up)] ::
        if up then [] else [[RedisFanout.setInt MuxKeys.titanPairsLive (flag false)]] :=
    RedisFanout.calls_of_writes hw _
  rw [hcalls]
  cases up with
  | true => exact ⟨SetsOnly.sets (.of_nodup (by decide) (by decide)) (by decide) redis, nofun⟩
  | false =>
    refine ⟨SetsOnly.sets (.of_nodup (by decide) (by decide)) (by decide) redis, fun _ => ?_⟩
    change _ = some (flag false)
    exact SetsOnly.sets (.of_nodup (by decide) (by decide)) (by decide) redis

theorem clears_clear (h : Clears op) :
    counter (redis.after (op.calls fanout)) MuxKeys.titanPairsLive = some 0 := by
  obtain rfl := clears_iff.mp h
  exact (marks_set hw false).2 rfl

/-- **Operations.** From a cleared flag on, `pairs_live` is up exactly if a quote
has been counted since the last disconnect mark, and otherwise down. -/
theorem ops_pairs_live {boot : Redis TitanDocument}
    (hboot : counter boot MuxKeys.titanPairsLive = some 0) (ops : List (TitanOp TitanDocument)) :
    (counter (afterOps fanout boot ops) MuxKeys.titanPairsLive = some 1 ↔
        Since Quotes Clears ops) ∧
      (counter (afterOps fanout boot ops) MuxKeys.titanPairsLive = some 0 ↔
        ¬ Since Quotes Clears ops) := by
  have hraise (redis : Redis TitanDocument) (op : TitanOp TitanDocument) (h : Quotes op) :
      counter (redis.after (op.calls fanout)) MuxKeys.titanPairsLive = some 1 :=
    quotes_raise hw (by decide) h
  constructor
  · refine foldl_since (F := fun redis => counter redis MuxKeys.titanPairsLive = some 1)
      hraise ?_ ?_ ?_ ops
    · intro redis op _ hc
      simp [clears_clear hw hc]
    · intro redis op hq hc
      rw [others_keep hq hc]
    · simp [hboot]
  · rw [← foldl_since (F := fun redis => counter redis MuxKeys.titanPairsLive ≠ some 0) ?_ ?_ ?_ ?_
      ops, not_not]
    · rfl
    · intro redis op hq
      simp [hraise redis op hq]
    · intro redis op _ hc
      simp [clears_clear hw hc]
    · intro redis op hq hc
      rw [others_keep hq hc]
    · simp [hboot]

/-- Whenever `pairs_live` is up, so is the upstream's flag. -/
theorem ops_titan_up {boot : Redis TitanDocument}
    (hboot : counter boot MuxKeys.titanPairsLive = some 0) (ops : List (TitanOp TitanDocument))
    (h : counter (afterOps fanout boot ops) MuxKeys.titanPairsLive = some 1) :
    counter (afterOps fanout boot ops) MuxKeys.metaTitanUp = some 1 := by
  induction ops using List.reverseRecOn with
  | nil =>
    have h0 : counter boot MuxKeys.titanPairsLive = some 1 := h
    rw [hboot] at h0
    cases h0
  | append_singleton ops op ih =>
    rw [afterOps_append] at h ⊢
    change counter (Redis.after _ (op.calls fanout)) MuxKeys.titanPairsLive = some 1 at h
    change counter (Redis.after _ (op.calls fanout)) MuxKeys.metaTitanUp = some 1
    by_cases hup : MarksUp op
    · obtain rfl := marksUp_iff.mp hup
      exact (marks_set hw true).1
    · by_cases hq : Quotes op
      · exact quotes_raise hw (by decide) hq
      · by_cases hc : Clears op
        · rw [clears_clear hw hc] at h
          cases h
        · rw [others_keep hq hc] at h
          rw [others_keep_up hup hq hc]
          exact ih h

/-- If quotes are counted only while connected, the upstream's flag is up exactly
while it is. -/
theorem ops_titan_up_iff {boot : Redis TitanDocument}
    (hboot : counter boot MuxKeys.metaTitanUp = some 0) {ops : List (TitanOp TitanDocument)}
    (hops : QuotesWhileUp ops) :
    counter (afterOps fanout boot ops) MuxKeys.metaTitanUp = some 1 ↔
      Since MarksUp Clears ops := by
  have hd : ∀ op, Quotes op → ¬ Clears op := by
    intro op hq hc
    obtain ⟨nowMs, rfl⟩ := quotes_iff.mp hq
    exact hc
  rw [← since_or hd hops]
  refine foldl_since (F := fun redis => counter redis MuxKeys.metaTitanUp = some 1) ?_ ?_ ?_ ?_ ops
  · rintro redis op (hup | hq)
    · obtain rfl := marksUp_iff.mp hup
      exact (marks_set hw true).1
    · exact quotes_raise hw (by decide) hq
  · intro redis op _ hc
    obtain rfl := clears_iff.mp hc
    rw [(marks_set hw false).1]
    decide
  · intro redis op hr hc
    rw [others_keep_up (fun hup => hr (.inl hup)) (fun hq => hr (.inr hq)) hc]
  · rw [hboot]
    decide

end

/-! ## Session events -/

section
variable {cfg : LoopConfig} {st : TitanState} {event : SessionEvent}

/-- A published quote is counted last, after its row and the board document. -/
theorem publishes_ops (h : event.Publishes cfg st) :
    ∃ row pair sizeLamports ttlSecs board nowMs, (sessionStep cfg st event).2 =
      [.hop1 row pair sizeLamports ttlSecs, .sizeBoard board, .message .quotePublished nowMs] := by
  unfold SessionEvent.Publishes at h
  split at h
  · rename_i frame
    cases hq : quoteOf cfg.env st frame with
    | some quote =>
      have hops : frameOps cfg.env st frame = publishOps cfg.env st.board quote frame.clock := by
        rw [frameOps, hq]
      exact ⟨_, _, _, _, _, _, hops⟩
    | none => exact absurd h (handle_no_quote hq).2.1
  · exact h.elim

/-- Between events, a row has been written exactly if a quote has been counted. -/
theorem since_row_iff (events : List SessionEvent) :
    Since WritesRow Clears (opsFrom cfg st events) ↔
      Since Quotes Clears (opsFrom cfg st events) := by
  induction events using List.reverseRecOn with
  | nil => simp [opsFrom, not_since_nil]
  | append_singleton events event ih =>
    have hops : opsFrom cfg st (events ++ [event]) = opsFrom cfg st events ++
        (sessionStep cfg (runs (sessionStep cfg) st events).1 event).2 := by
      rw [opsFrom_append]
      simp [opsFrom]
    rw [hops]
    by_cases hp : event.Publishes cfg (runs (sessionStep cfg) st events).1
    · obtain ⟨row, pair, sizeLamports, ttlSecs, board, nowMs, h⟩ := publishes_ops hp
      rw [h]
      have hrow : Since WritesRow Clears (opsFrom cfg st events ++
          [.hop1 row pair sizeLamports ttlSecs, .sizeBoard board,
            .message .quotePublished nowMs]) := ⟨_, _, _, rfl, trivial, by simp [Clears]⟩
      have hquote : Since Quotes Clears (opsFrom cfg st events ++
          [.hop1 row pair sizeLamports ttlSecs, .sizeBoard board,
            .message .quotePublished nowMs]) :=
        ⟨opsFrom cfg st events ++ [.hop1 row pair sizeLamports ttlSecs, .sizeBoard board],
          .message .quotePublished nowMs, [], by simp, trivial, by simp⟩
      exact iff_of_true hrow hquote
    · have hother := other_ops hp
      rw [since_append fun op hop => (hother op hop).2,
        since_append fun op hop => (hother op hop).1,
        ih]

end

/-- **`pairs_live`.** After the boot reset, between any two operations of any
sequence of session events, the flag is up exactly if a quote has been published
since the reset and the last disconnect mark; then the upstream's flag is up as
well, and an event without a published quote never raises it. -/
theorem pairs_live_iff (cfg : LoopConfig) (hd : cfg.env.fanout.dryRun = false)
    (hc : cfg.env.fanout.connected = true) (redis : Redis TitanDocument) (st : TitanState)
    (events : List SessionEvent) :
    let boot := redis.after cfg.env.fanout.resetTitanStateAtBoot
    let now := afterOps cfg.env.fanout boot
    (∀ done, done <+: opsFrom cfg st events →
        (counter (now done) MuxKeys.titanPairsLive = some 1 ↔ Since Quotes Clears done) ∧
          (counter (now done) MuxKeys.titanPairsLive = some 0 ↔ ¬ Since Quotes Clears done) ∧
          (counter (now done) MuxKeys.titanPairsLive = some 1 →
            counter (now done) MuxKeys.metaTitanUp = some 1)) ∧
      (Since Quotes Clears (opsFrom cfg st events) ↔
        Since WritesRow Clears (opsFrom cfg st events)) ∧
      ∀ event, ¬ event.Publishes cfg (runs (sessionStep cfg) st events).1 →
        ∀ part, part <+: (sessionStep cfg (runs (sessionStep cfg) st events).1 event).2 →
          counter (now (opsFrom cfg st events ++ part)) MuxKeys.titanPairsLive = some 1 →
            counter (now (opsFrom cfg st events)) MuxKeys.titanPairsLive = some 1 := by
  intro boot now
  have hw := RedisFanout.writes_of hd hc
  have hboot : counter boot MuxKeys.titanPairsLive = some 0 := by
    change _ = some (flag false)
    refine SetsOnly.sets ?_ ?_ redis
    · refine RedisFanout.forall_calls (SetsOnly.of_nodup (by decide) (by decide))
    · rw [RedisFanout.resetTitanStateAtBoot, RedisFanout.calls_of_writes hw]
      decide
  refine ⟨?_, (since_row_iff events).symm, ?_⟩
  · intro done _
    obtain ⟨hup, hdown⟩ := ops_pairs_live hw hboot done
    exact ⟨hup, hdown, ops_titan_up hw hboot done⟩
  · rintro event hp part ⟨rest, hrest⟩ h
    refine (ops_pairs_live hw hboot _).1.mpr ?_
    have hother : ∀ op ∈ part, ¬ Quotes op := by
      intro op hop
      exact (other_ops hp op (hrest ▸ List.mem_append_left _ hop)).1
    exact ((since_append hother _).mp ((ops_pairs_live hw hboot _).1.mp h)).2

/-- A frame with a quote, then a disconnect. -/
def sampleEvents : List SessionEvent :=
  [.connected, .frame (frameOf (quoteMessage sampleMint sampleMint 42)), .disconnected]

/-- Up after the quote, down at the end. -/
theorem pairs_live_sample :
    let cfg : LoopConfig := ⟨sampleEnv, sampleWallet, [5], false⟩
    let boot := Redis.after (fun _ => none) cfg.env.fanout.resetTitanStateAtBoot
    let ops := opsFrom cfg {} sampleEvents
    counter (afterOps cfg.env.fanout boot (ops.take 4)) MuxKeys.titanPairsLive = some 1 ∧
      counter (afterOps cfg.env.fanout boot ops) MuxKeys.titanPairsLive = some 0 := by
  intro cfg boot ops
  have h := (pairs_live_iff cfg rfl rfl (fun _ => none) {} sampleEvents).1
  constructor
  · refine (h (ops.take 4) (List.take_prefix 4 ops)).1.mpr ?_
    exact ⟨ops.take 3, .message .quotePublished 3, [], rfl, trivial, by simp⟩
  · refine (h ops (List.prefix_refl ops)).2.1.mpr ?_
    have hops : ops = ops.take 4 ++ [.upstreamUp false] := rfl
    rw [hops, since_concat]
    simp [Quotes, Clears]

end FeedMux.Upstream.TitanLive
