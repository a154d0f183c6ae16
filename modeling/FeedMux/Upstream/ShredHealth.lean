import FeedMux.RedisTasks
import FeedMux.Upstream.TritonShred

/-!
# Two stores of shred counters (`src/upstream/triton_shred.rs`)

The shred loop counts in `ShredStats`, which `/health` shows, and in Redis. The
stats are zero and the keys are reset when the socket is bound; from then on
every update of one goes with one of the other, so the two agree after every
datagram (`stats_match_redis`).
-/

namespace FeedMux.Upstream
open FeedMux.Library FeedMux.Library.KeyValue FeedMux.Shred

structure ShredStatsSnapshot where
  shreds : UInt64
  txsDeshredded : UInt64
  vaultHits : UInt64
  lastMs : UInt64
  lastHitMs : UInt64
  lastAgeMs : UInt64
  bound : Bool
  deriving DecidableEq, Repr

def ShredStats.snapshot (stats : ShredStats) (nowMs : UInt64) : ShredStatsSnapshot where
  shreds := stats.shreds
  txsDeshredded := stats.txsDeshredded
  vaultHits := stats.vaultHits
  lastMs := stats.lastMs
  lastHitMs := stats.lastHitMs
  lastAgeMs := if stats.lastMs = 0 ∨ nowMs ≤ stats.lastMs then 0 else nowMs - stats.lastMs
  bound := stats.bound

/-! ## Operations -/

/-- The operations for a datagram with this batch. -/
def batchOps (cfg : UdpConfig) (d : Datagram) (batch : DeshredBatch) : List ShredOp :=
  .deshred (VaultWatchSet.countTransactionsEstimate batch.bytes) d.nowMs ::
    (cfg.vaults.scanHits cfg.bs58 batch.bytes).map fun hit =>
      .hit hit batch.slot batch.fecSetIndex d.src cfg.hitTtlSecs d.nowMs

def udpOps (cfg : UdpConfig) (st : UdpState) (d : Datagram) : List ShredOp :=
  .frame d.nowMs :: ((udpStep cfg st d).2.batch.toList).flatMap (batchOps cfg d)

def udpLoopOps (cfg : UdpConfig) : UdpState → List Datagram → List ShredOp
  | _, [] => []
  | st, d :: ds => udpOps cfg st d ++ udpLoopOps cfg (udpStep cfg st d).1 ds

/-- The operations of `run_udp_loop`, by whether the socket can be bound. -/
def runUdpLoop (cfg : UdpConfig) (binds : Bool) (ds : List Datagram) : List ShredOp :=
  if binds then [.resetAtBoot, .upstreamUp true] ++ udpLoopOps cfg (.start {}) ds
  else [.upstreamUp false]

theorem udpOps_calls (cfg : UdpConfig) (st : UdpState) (d : Datagram) :
    (udpOps cfg st d).flatMap (ShredOp.calls cfg.fanout) = (udpStep cfg st d).2.calls := by
  unfold udpOps udpStep udpHandle
  cases shredOf cfg d with
  | none => simp [ShredOp.calls]
  | some shred =>
    simp only
    cases st.reassembler.push shred with
    | mk reassembler batch =>
      cases batch with
      | none => simp [ShredOp.calls]
      | some batch => simp [batchOps, ShredOp.calls, List.flatMap_map]

/-- The loop makes the calls of its operations. -/
theorem udpLoopOps_calls (cfg : UdpConfig) (st : UdpState) (ds : List Datagram) :
    (udpLoopOps cfg st ds).flatMap (ShredOp.calls cfg.fanout) =
      (runs (udpStep cfg) st ds).2.flatMap UdpOutput.calls := by
  induction ds generalizing st with
  | nil => rfl
  | cons d ds ih =>
    rw [udpLoopOps, List.flatMap_append, udpOps_calls, ih, runs_cons, List.flatMap_cons]

/-- What an operation does to the stats. -/
def ShredStats.apply (stats : ShredStats) : ShredOp → ShredStats
  | .resetAtBoot | .upstreamUp _ => stats
  | .frame ts => stats.recordShred ts
  | .deshred txCount _ => stats.recordDeshred txCount
  | .hit _ _ _ _ _ ts => stats.recordVaultHit ts

theorem udpOps_stats (cfg : UdpConfig) (st : UdpState) (d : Datagram) :
    (udpStep cfg st d).1.stats = (udpOps cfg st d).foldl ShredStats.apply st.stats := by
  unfold udpOps udpStep udpHandle
  cases shredOf cfg d with
  | none => rfl
  | some shred =>
    simp only
    cases st.reassembler.push shred with
    | mk reassembler batch =>
      cases batch with
      | none => rfl
      | some batch => simp [batchOps, ShredStats.apply, List.foldl_map]

/-! ## Agreement -/

/-- The stats and the keys tell the same. -/
structure Agrees (stats : ShredStats) (redis : Redis Unit) : Prop where
  shreds : counter redis MuxKeys.shredShreds = some stats.shreds.toNat
  txsDeshredded : counter redis MuxKeys.shredTxsDeshredded = some stats.txsDeshredded.toNat
  vaultHits : counter redis MuxKeys.shredVaultHits = some stats.vaultHits.toNat
  lastMs : counter redis MuxKeys.shredLastMs = some stats.lastMs.toNat
  lastHitMs : counter redis MuxKeys.shredLastHitMs = some stats.lastHitMs.toNat
  bound : counter redis MuxKeys.metaShredUp = some (flag stats.bound)

/-- Only the keys of the shred task matter. -/
theorem Agrees.of_keys {stats : ShredStats} {redis redis' : Redis Unit} (h : Agrees stats redis)
    (hk : ∀ key ∈ MuxKeys.shredTask, counter redis' key = counter redis key) :
    Agrees stats redis' where
  shreds := (hk _ (by decide)).trans h.shreds
  txsDeshredded := (hk _ (by decide)).trans h.txsDeshredded
  vaultHits := (hk _ (by decide)).trans h.vaultHits
  lastMs := (hk _ (by decide)).trans h.lastMs
  lastHitMs := (hk _ (by decide)).trans h.lastHitMs
  bound := (hk _ (by decide)).trans h.bound

/-- A 64-bit counter follows one whose increments succeed. -/
theorem add_toNat {n : UInt64} {m : Nat} (h : (n.toNat : Int) + m < 2 ^ 63) :
    ((n + UInt64.ofNat m).toNat : Int) = n.toNat + m := by
  rw [UInt64.toNat_add, UInt64.toNat_ofNat']
  omega

section
variable {fanout : RedisFanout} (hw : fanout.writes = true)
include hw

theorem frame_agrees {stats : ShredStats} {redis : Redis Unit} (h : Agrees stats redis)
    (hb : stats.bound = true) (ts : UInt64)
    (hok : succeed redis ((ShredOp.frame ts).calls fanout : List (RedisCall Unit)).flatten) :
    Agrees (stats.recordShred ts) (redis.after ((ShredOp.frame ts).calls fanout)) := by
  have hcalls : ((ShredOp.frame ts).calls fanout : List (RedisCall Unit)) =
      [[.incr MuxKeys.shredShreds 1, RedisFanout.setMs MuxKeys.shredLastMs ts,
        RedisFanout.setInt MuxKeys.metaShredUp 1]] := RedisFanout.calls_of_writes hw _
  rw [hcalls] at hok ⊢
  have hlt := Cmd.succeeds_result ((succeed_cons ..).mp hok).1 h.shreds
  constructor <;> simp +decide only [Redis.after, List.flatten_cons, List.flatten_nil,
    List.append_nil, exec_cons, exec_nil, RedisFanout.setMs, RedisFanout.setInt, counter_set,
    counter_set_ne, counter_incr_ne, ne_eq]
  case shreds =>
    rw [counter_incr 1 h.shreds]
    exact congrArg some (add_toNat (m := 1) hlt).symm
  case txsDeshredded => exact h.txsDeshredded
  case vaultHits => exact h.vaultHits
  case lastMs => rfl
  case lastHitMs => exact h.lastHitMs
  case bound =>
    rw [show (stats.recordShred ts).bound = true from hb]
    rfl

/-- A batch is counted after its datagram, at the same time. -/
theorem deshred_agrees {stats : ShredStats} {redis : Redis Unit} (h : Agrees stats redis)
    (txCount : Nat) (hok : succeed redis
      ((ShredOp.deshred txCount stats.lastMs).calls fanout : List (RedisCall Unit)).flatten) :
    Agrees (stats.recordDeshred txCount)
      (redis.after ((ShredOp.deshred txCount stats.lastMs).calls fanout)) := by
  have hcalls : ((ShredOp.deshred txCount stats.lastMs).calls fanout : List (RedisCall Unit)) =
      [[.incr MuxKeys.shredTxsDeshredded txCount,
        RedisFanout.setMs MuxKeys.shredLastMs stats.lastMs]] := RedisFanout.calls_of_writes hw _
  rw [hcalls] at hok ⊢
  have hlt := Cmd.succeeds_result ((succeed_cons ..).mp hok).1 h.txsDeshredded
  constructor <;> simp +decide only [Redis.after, List.flatten_cons, List.flatten_nil,
    List.append_nil, exec_cons, exec_nil, RedisFanout.setMs, RedisFanout.setInt, counter_set,
    counter_set_ne, counter_incr_ne, ne_eq]
  case shreds => exact h.shreds
  case txsDeshredded =>
    rw [counter_incr _ h.txsDeshredded]
    exact congrArg some (add_toNat hlt).symm
  case vaultHits => exact h.vaultHits
  case lastMs => rfl
  case lastHitMs => exact h.lastHitMs
  case bound => exact h.bound

theorem hit_agrees {stats : ShredStats} {redis : Redis Unit} (h : Agrees stats redis)
    (hit : VaultHit) (slot : UInt64) (fecSetIndex : UInt32) (src : String) (ttlSecs ts : UInt64)
    (hok : succeed redis ((ShredOp.hit hit slot fecSetIndex src ttlSecs ts).calls fanout :
      List (RedisCall Unit)).flatten) :
    Agrees (stats.recordVaultHit ts)
      (redis.after ((ShredOp.hit hit slot fecSetIndex src ttlSecs ts).calls fanout)) := by
  have hcalls : ((ShredOp.hit hit slot fecSetIndex src ttlSecs ts).calls fanout :
      List (RedisCall Unit)) =
      [[.setEx MuxKeys.shredHit (.doc (.shredHit hit.vaultB58 slot fecSetIndex src ts))
          (max ttlSecs.toNat 1),
        .incr MuxKeys.shredVaultHits 1, RedisFanout.setMs MuxKeys.shredLastHitMs ts]] :=
    RedisFanout.calls_of_writes hw _
  rw [hcalls] at hok ⊢
  have hhits : counter (Cmd.exec redis (.setEx MuxKeys.shredHit
      (.doc (.shredHit hit.vaultB58 slot fecSetIndex src ts)) (max ttlSecs.toNat 1)))
      MuxKeys.shredVaultHits = some stats.vaultHits.toNat := by
    rw [counter_setEx_ne (by decide)]
    exact h.vaultHits
  have hlt := Cmd.succeeds_result ((succeed_cons ..).mp ((succeed_cons ..).mp hok).2).1 hhits
  constructor <;> simp +decide only [Redis.after, List.flatten_cons, List.flatten_nil,
    List.append_nil, exec_cons, exec_nil, RedisFanout.setMs, RedisFanout.setInt, counter_set,
    counter_set_ne, counter_setEx_ne, counter_incr_ne, ne_eq]
  case shreds => exact h.shreds
  case txsDeshredded => exact h.txsDeshredded
  case vaultHits =>
    rw [counter_incr 1 hhits]
    exact congrArg some (add_toNat (m := 1) hlt).symm
  case lastMs => exact h.lastMs
  case lastHitMs => rfl
  case bound => exact h.bound

theorem hits_agree {stats : ShredStats} {redis : Redis Unit} (h : Agrees stats redis)
    (cfg : UdpConfig) (d : Datagram) (batch : DeshredBatch) (hits : List VaultHit)
    (hok : succeed redis ((hits.map fun hit => ShredOp.hit hit batch.slot batch.fecSetIndex d.src
      cfg.hitTtlSecs d.nowMs).flatMap (ShredOp.calls fanout)).flatten) :
    Agrees ((hits.map fun hit => ShredOp.hit hit batch.slot batch.fecSetIndex d.src
        cfg.hitTtlSecs d.nowMs).foldl ShredStats.apply stats)
      (redis.after ((hits.map fun hit => ShredOp.hit hit batch.slot batch.fecSetIndex d.src
        cfg.hitTtlSecs d.nowMs).flatMap (ShredOp.calls fanout))) := by
  induction hits generalizing stats redis with
  | nil => exact h
  | cons hit hits ih =>
    rw [List.map_cons, List.flatMap_cons] at hok ⊢
    rw [List.flatten_append, succeed_append] at hok
    rw [List.foldl_cons, after_append]
    exact ih (hit_agrees hw h hit _ _ _ _ _ hok.1) hok.2

theorem batch_agrees {stats : ShredStats} {redis : Redis Unit} (h : Agrees stats redis)
    (cfg : UdpConfig) (d : Datagram) (hts : stats.lastMs = d.nowMs) (batch : DeshredBatch)
    (hok : succeed redis ((batchOps cfg d batch).flatMap (ShredOp.calls fanout)).flatten) :
    Agrees ((batchOps cfg d batch).foldl ShredStats.apply stats)
      (redis.after ((batchOps cfg d batch).flatMap (ShredOp.calls fanout))) := by
  unfold batchOps at hok ⊢
  rw [← hts, List.flatMap_cons] at hok ⊢
  rw [List.flatten_append, succeed_append] at hok
  rw [List.foldl_cons, after_append]
  have hdeshred := deshred_agrees hw h _ hok.1
  rw [hts] at hok ⊢
  rw [hts] at hdeshred
  exact hits_agree hw hdeshred cfg d batch _ hok.2

end

/-- Nothing in the loop unbinds the socket. -/
theorem apply_bound (ops : List ShredOp) (stats : ShredStats) :
    (ops.foldl ShredStats.apply stats).bound = stats.bound := by
  induction ops generalizing stats with
  | nil => rfl
  | cons op ops ih =>
    rw [List.foldl_cons, ih]
    cases op <;> rfl

section
variable {cfg : UdpConfig} (hw : cfg.fanout.writes = true)
include hw

/-- **One datagram.** -/
theorem udpStep_agrees {st : UdpState} {redis : Redis Unit} (h : Agrees st.stats redis)
    (hb : st.stats.bound = true) (d : Datagram)
    (hok : succeed redis ((udpOps cfg st d).flatMap (ShredOp.calls cfg.fanout)).flatten) :
    Agrees (udpStep cfg st d).1.stats
        (redis.after ((udpOps cfg st d).flatMap (ShredOp.calls cfg.fanout))) ∧
      (udpStep cfg st d).1.stats.bound = true := by
  rw [udpOps_stats, apply_bound]
  refine ⟨?_, hb⟩
  unfold udpOps at hok ⊢
  rw [List.flatMap_cons] at hok ⊢
  rw [List.flatten_append, succeed_append] at hok
  rw [List.foldl_cons, after_append]
  have hframe := frame_agrees hw h hb d.nowMs hok.1
  cases hbatch : (udpStep cfg st d).2.batch with
  | none => exact hframe
  | some batch =>
    rw [hbatch, Option.toList_some, List.flatMap_singleton] at hok
    rw [Option.toList_some, List.flatMap_singleton]
    exact batch_agrees hw hframe cfg d rfl batch hok.2

theorem udpLoop_agrees {st : UdpState} {redis : Redis Unit} (h : Agrees st.stats redis)
    (hb : st.stats.bound = true) (ds : List Datagram)
    (hok : succeed redis ((udpLoopOps cfg st ds).flatMap (ShredOp.calls cfg.fanout)).flatten) :
    Agrees (runs (udpStep cfg) st ds).1.stats
      (redis.after ((udpLoopOps cfg st ds).flatMap (ShredOp.calls cfg.fanout))) := by
  induction ds generalizing st redis with
  | nil => exact h
  | cons d ds ih =>
    rw [udpLoopOps, List.flatMap_append] at hok ⊢
    rw [List.flatten_append, succeed_append] at hok
    rw [runs_cons, after_append]
    obtain ⟨hstep, hbound⟩ := udpStep_agrees hw h hb d hok.1
    exact ih hstep hbound hok.2

/-- Binding the socket makes both stores zero. -/
theorem start_agrees (redis : Redis Unit) :
    Agrees (UdpState.start {}).stats
      (redis.after ([.resetAtBoot, .upstreamUp true].flatMap (ShredOp.calls cfg.fanout))) := by
  have hcalls : ([.resetAtBoot, .upstreamUp true].flatMap (ShredOp.calls cfg.fanout) :
      List (RedisCall Unit)) =
      [[RedisFanout.setInt MuxKeys.metaShredUp 0, RedisFanout.setInt MuxKeys.shredShreds 0,
        RedisFanout.setInt MuxKeys.shredTxsDeshredded 0,
        RedisFanout.setInt MuxKeys.shredVaultHits 0, RedisFanout.setInt MuxKeys.shredLastMs 0,
        RedisFanout.setInt MuxKeys.shredLastHitMs 0, .del MuxKeys.shredHit],
       [RedisFanout.setInt MuxKeys.metaShredUp 1]] := by
    rw [List.flatMap_cons, List.flatMap_singleton]
    exact congrArg₂ (· ++ ·) (RedisFanout.calls_of_writes hw _) (RedisFanout.calls_of_writes hw _)
  rw [hcalls]
  constructor <;> simp +decide only [Redis.after, List.flatten_cons, List.flatten_nil,
    List.append_nil, List.cons_append, List.nil_append, exec_cons, exec_nil, RedisFanout.setInt,
    counter_set, counter_set_ne, counter_del_ne, ne_eq]

end

/-- **`/health` and Redis.** After a successful bind, and with no other writer of
the keys of the shred task, the loop handles any datagrams without a panic, and
after them the stats' snapshot shows what the keys hold. -/
theorem stats_match_redis (cfg : UdpConfig) (hd : cfg.fanout.dryRun = false)
    (hc : cfg.fanout.connected = true) (redis : Redis Unit) (ds : List Datagram)
    (cmds : List (RedisCmd Unit))
    (hown : cmds.filter (fun c => MuxKeys.owner c.key = some .shred) =
      ((runUdpLoop cfg true ds).flatMap (ShredOp.calls cfg.fanout)).flatten)
    (hok : succeed redis cmds) (nowMs : UInt64) :
    ∃ st outs, runExcept (udpBody cfg) (.start {}) ds = .ok (st, outs) ∧
      let snapshot := st.stats.snapshot nowMs
      let redis' := exec redis cmds
      counter redis' MuxKeys.shredShreds = some snapshot.shreds.toNat ∧
        counter redis' MuxKeys.shredTxsDeshredded = some snapshot.txsDeshredded.toNat ∧
        counter redis' MuxKeys.shredVaultHits = some snapshot.vaultHits.toNat ∧
        counter redis' MuxKeys.shredLastMs = some snapshot.lastMs.toNat ∧
        counter redis' MuxKeys.shredLastHitMs = some snapshot.lastHitMs.toNat ∧
        counter redis' MuxKeys.metaShredUp = some (flag snapshot.bound) := by
  have hw := RedisFanout.writes_of hd hc
  let p (key : String) : Bool := MuxKeys.owner key = some .shred
  have hown' : cmds.filter (fun c => p c.key) =
      ((runUdpLoop cfg true ds).flatMap (ShredOp.calls cfg.fanout)).flatten := hown
  have hok' : succeed redis (cmds.filter fun c => p c.key) := succeed_filter hok fun _ _ => rfl
  have hkeys : ∀ key ∈ MuxKeys.shredTask, counter (exec redis cmds) key =
      counter (exec redis (cmds.filter fun c => p c.key)) key := by
    intro key hk
    have hp : p key := decide_eq_true (MuxKeys.owner_shred key hk)
    unfold counter
    rw [exec_filter_keys hp cmds rfl]
  refine ⟨_, _, runExcept_eq_runs (udpBody_eq cfg) _ _, ?_⟩
  have hstart : Agrees (UdpState.start {}).stats
      (redis.after ([.resetAtBoot, .upstreamUp true].flatMap (ShredOp.calls cfg.fanout))) :=
    start_agrees hw redis
  rw [hown', runUdpLoop, if_pos rfl, List.flatMap_append, List.flatten_append,
    succeed_append] at hok'
  have hrun := udpLoop_agrees hw hstart rfl ds hok'.2
  rw [← after_append, ← List.flatMap_append] at hrun
  have hagrees : Agrees (runs (udpStep cfg) (.start {}) ds).1.stats (exec redis cmds) := by
    refine Agrees.of_keys ?_ hkeys
    rw [hown']
    exact hrun
  exact ⟨hagrees.shreds, hagrees.txsDeshredded, hagrees.vaultHits, hagrees.lastMs,
    hagrees.lastHitMs, hagrees.bound⟩

/-- Two datagrams that complete a set with a vault, while a heartbeat is written. -/
def healthDatagrams : List Datagram :=
  [straddleDatagram 0 (straddledVault.bytes.take 20) false,
    straddleDatagram 1 (straddledVault.bytes.drop 20) true]

def healthCommands : List (RedisCmd Unit) :=
  RedisFanout.setMs MuxKeys.metaHeartbeatMs 7 ::
    ((runUdpLoop straddleConfig true healthDatagrams).flatMap
      (ShredOp.calls straddleConfig.fanout)).flatten

theorem stats_match_redis_sample :
    ∃ st outs, runExcept (udpBody straddleConfig) (.start {}) healthDatagrams = .ok (st, outs) ∧
      counter (exec (fun _ => none) healthCommands) MuxKeys.shredVaultHits =
        some (st.stats.snapshot 9).vaultHits.toNat := by
  obtain ⟨st, outs, hrun, -, -, hhits, -⟩ := stats_match_redis straddleConfig rfl rfl
    (fun _ => none) healthDatagrams healthCommands (by decide +kernel) (by decide +kernel) 9
  exact ⟨st, outs, hrun, hhits⟩

end FeedMux.Upstream
