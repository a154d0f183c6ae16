import FeedMux.Boot
import FeedMux.Library.Expiry
import FeedMux.Upstream.Reconnect
import FeedMux.Upstream.TitanPublished

/-!
# What Redis shows later (`src/redis_fanout.rs`, `src/upstream/mod.rs`)

Quote rows and the vault hit are stored with a time to live of at least one
second, all other keys without. So a row that can be read is the one last
published under its key, and no older than that (`rows_fresh`); the same holds
of the hit of a bound shred task (`hits_fresh`). The counters and flags read
the same at any time after the reset (`counters_keep`). All of this holds from
the moment the tasks have started, while Redis answers every command.
-/

namespace FeedMux
open FeedMux.Library FeedMux.Library.KeyValue FeedMux.Titan FeedMux.Upstream

abbrev TimedRedis (δ : Type) := TimedStore String (Document δ)

/-- The tasks' commands with the times at which Redis executes them. -/
abbrev TimedTrace (δ : Type) := List (Nat × RedisTask × RedisCmd δ)

section
variable {δ : Type}

def TimedTrace.schedule (trace : TimedTrace δ) : List (RedisTask × RedisCmd δ) :=
  trace.map Prod.snd

def TimedTrace.cmds (trace : TimedTrace δ) : TimedCmds String (Document δ) :=
  trace.map fun e => (e.1, e.2.2)

def bootCmds (fanout : RedisFanout) (bootAt : Nat) : TimedCmds String (Document δ) :=
  fanout.resetTitanStateAtBoot.flatten.map fun c => (bootAt, c)

/-- Redis after the boot reset and a schedule of the tasks' commands. -/
def laterRedis (fanout : RedisFanout) (bootAt : Nat) (trace : TimedTrace δ)
    (redis : TimedRedis δ) : TimedRedis δ :=
  execTimed redis (bootCmds fanout bootAt ++ trace.cmds)

/-- The tasks one after another, all executed at one time, are a schedule of them. -/
theorem interleaves_at (tasks : RedisTask → List (RedisCmd δ)) (time : Nat) :
    Interleaves tasks (TimedTrace.schedule
      ((oneByOne RedisTask.all tasks).map fun e => (time, e))) := by
  rw [TimedTrace.schedule, List.map_map]
  change Interleaves tasks ((oneByOne RedisTask.all tasks).map id)
  rw [List.map_id]
  exact oneByOne_interleaves _ (by decide) RedisTask.mem_all

theorem TimedTrace.cmds_snd (trace : TimedTrace δ) :
    trace.cmds.map Prod.snd = trace.schedule.map Prod.snd := by
  simp [TimedTrace.cmds, TimedTrace.schedule]

theorem bootCmds_snd (fanout : RedisFanout) (bootAt : Nat) :
    (bootCmds fanout bootAt : TimedCmds String (Document δ)).map Prod.snd =
      fanout.resetTitanStateAtBoot.flatten := by
  rw [bootCmds, List.map_map]
  exact List.map_id _

variable {fanout : RedisFanout} {traces : TaskTraces δ} {trace : TimedTrace δ}

/-- A command on an owned key is one of its owner's. -/
theorem mem_own (h : Interleaves (traces.commands fanout) trace.schedule) {key : String}
    {task : RedisTask} (ho : MuxKeys.owner key = some task) :
    ∀ e ∈ trace.cmds, e.2.key = key → e.2 ∈ traces.commands fanout task := by
  rintro e he rfl
  obtain ⟨⟨t, other, c⟩, hmem, rfl⟩ := List.mem_map.mp he
  have hc := h.mem (List.mem_map_of_mem hmem)
  rw [traces.owned other c hc] at ho
  rw [← Option.some.inj ho]
  exact hc

/-- The last command on a key that only one task writes is that task's last. -/
theorem lastCmd_own (h : Interleaves (traces.commands fanout) trace.schedule) {key : String}
    {task : RedisTask} (ho : MuxKeys.owner key = some task) :
    (lastCmd key trace.cmds).map Prod.snd =
      ((traces.commands fanout task).filter fun c => c.key = key).getLast? := by
  have hother : ∀ other, other ≠ task → ∀ c ∈ traces.commands fanout other,
      decide (c.key = key) = false := by
    intro other hne c hc
    rw [decide_eq_false_iff_not]
    rintro rfl
    rw [traces.owned other c hc] at ho
    exact hne (Option.some.inj ho)
  rw [lastCmd_snd, TimedTrace.cmds_snd, h.filter_own hother]

/-- Reading a key that its owner only writes with a time to live or deletes, and
that the boot reset leaves alone. -/
theorem readAt_owned (h : Interleaves (traces.commands fanout) trace.schedule) {key : String}
    {task : RedisTask} (ho : MuxKeys.owner key = some task) {bootAt : Nat}
    (hboot : lastCmd key (bootCmds fanout bootAt : TimedCmds String (Document δ)) = none)
    (hown : ∀ c ∈ (traces.commands fanout task).filter fun c => c.key = key,
      (∃ v ttl, c = .setEx key v ttl) ∨ c = .del key)
    (redis : TimedRedis δ) (now : Nat) (value : Value (Document δ)) :
    readAt now (laterRedis fanout bootAt trace redis) key = some value ↔
      (∃ t ttl, lastCmd key trace.cmds = some (t, .setEx key value ttl) ∧
          now ≤ t + ttl * ticksPerSecond) ∨
        lastCmd key trace.cmds = none ∧ readAt now redis key = some value := by
  have hleased : ∀ e ∈ bootCmds fanout bootAt ++ trace.cmds, e.2.key = key →
      (∃ v ttl, e.2 = .setEx key v ttl) ∨ e.2 = .del key := by
    intro e he hkey
    rcases List.mem_append.mp he with he | he
    · exact absurd hkey (lastCmd_eq_none.mp hboot e he)
    · exact hown e.2 (List.mem_filter.mpr ⟨mem_own h ho e he hkey, by simpa using hkey⟩)
  have hread := readAt_leased hleased redis now value
  rw [lastCmd_append, hboot, Option.or_none] at hread
  exact hread

end

/-! ## Rows -/

/-- The row that an operation publishes, with its key. -/
def TitanOp.row? : TitanOp TitanDocument → Option (String × TitanHop1Row)
  | .hop1 (.hop1Row row) .. => some (MuxKeys.hop1RowKey row.pair row.sizeLamports, row)
  | _ => none

def rowsPublished (ops : List (TitanOp TitanDocument)) : List (String × TitanHop1Row) :=
  ops.filterMap TitanOp.row?

def rowCmd (ttlSecs : UInt64) (entry : String × TitanHop1Row) : RedisCmd TitanDocument :=
  .setEx entry.1 (.doc (.row (.hop1Row entry.2))) (max ttlSecs.toNat 1)

/-- A row is published under its own pair and size, and with this time to live. -/
def TitanOp.FilesRow (ttlSecs : UInt64) : TitanOp TitanDocument → Prop
  | .hop1 doc pair sizeLamports ttl =>
    ∃ row, doc = .hop1Row row ∧ pair = row.pair ∧ sizeLamports = row.sizeLamports ∧ ttl = ttlSecs
  | _ => True

theorem step_filesRow (cfg : TitanLive.LoopConfig) (st : TitanState)
    (event : TitanLive.SessionEvent) :
    ∀ op ∈ (TitanLive.sessionStep cfg st event).2, op.FilesRow cfg.env.hop1TtlSecs := by
  cases event with
  | connectFailed => simp [TitanLive.sessionStep]
  | connected => simp [TitanLive.sessionStep, TitanOp.FilesRow]
  | handshake script snapshotMs order =>
    unfold TitanLive.sessionStep
    simp only
    split <;> simp [TitanOp.FilesRow]
  | frame frame =>
    unfold TitanLive.sessionStep frameOps
    cases hq : quoteOf cfg.env st frame with
    | some quote => simp [hq, publishOps, TitanOp.FilesRow, rowOf]
    | none =>
      simp only [hq]
      cases (handleTitanServerMessage cfg.env st frame).2.kind <;>
        simp [answerOps, TitanOp.FilesRow]
  | disconnected => simp [TitanLive.sessionStep, TitanOp.FilesRow]

theorem loop_filesRow (cfg : TitanLive.LoopConfig) (sessions : List TitanLive.Session) :
    ∀ op ∈ TitanLive.loopOps cfg sessions, op.FilesRow cfg.env.hop1TtlSecs := by
  have hrun : ∀ (st : TitanState) (events : List TitanLive.SessionEvent),
      ∀ op ∈ TitanLive.opsFrom cfg st events, op.FilesRow cfg.env.hop1TtlSecs := by
    intro st events
    induction events generalizing st with
    | nil => simp [TitanLive.opsFrom]
    | cons event events ih =>
      intro op hop
      rw [TitanLive.opsFrom_cons] at hop
      rcases List.mem_append.mp hop with hop | hop
      · exact step_filesRow cfg st event op hop
      · exact ih _ op hop
  exact hrun {} _

section
variable {fanout : RedisFanout} {key : String} (hk : MuxKeys.hop1Prefix <+: key.toList)
include hk

theorem fixedKeys_ne_row : ∀ fixed ∈ MuxKeys.titanTask, fixed ≠ key := by
  have hfixed : ∀ fixed ∈ MuxKeys.titanTask, ¬ MuxKeys.hop1Prefix <+: fixed.toList := by decide
  rintro _ hmem rfl
  exact hfixed _ hmem hk

/-- The commands on the key of a row are those that write rows under it. -/
theorem op_rowCmds (hw : fanout.writes = true) {ttlSecs : UInt64} {op : TitanOp TitanDocument}
    (hop : op.FilesRow ttlSecs) :
    ((op.calls fanout).flatten.filter fun c => c.key = key) =
      (op.row?.toList.filter fun entry => entry.1 = key).map (rowCmd ttlSecs) := by
  have hserved : MuxKeys.titanHop1Served ≠ key := fixedKeys_ne_row hk _ (by decide)
  have hother (h : ∀ c ∈ (op.calls fanout).flatten, c.key ∈ op.fixedKeys) :
      ((op.calls fanout).flatten.filter fun c => c.key = key) = [] := by
    refine List.filter_eq_nil_iff.mpr fun c hc => ?_
    simpa using fixedKeys_ne_row hk c.key (op.fixedKeys_subset c.key (h c hc))
  cases op with
  | hop1 doc pair sizeLamports ttl =>
    obtain ⟨row, rfl, rfl, rfl, rfl⟩ := hop
    simp only [TitanOp.calls, RedisFanout.publishTitanHop1, RedisFanout.calls_of_writes hw,
      List.flatten_cons, List.flatten_nil, List.append_nil, TitanOp.row?, Option.toList_some]
    by_cases hrow : MuxKeys.hop1RowKey row.pair row.sizeLamports = key <;>
      simp [Cmd.key, hrow, hserved, rowCmd]
  | upstreamUp up =>
    refine hother (RedisFanout.forall_calls ?_)
    cases up <;> simp [RedisFanout.setInt, Cmd.key, TitanOp.fixedKeys]
  | message outcome nowMs =>
    cases outcome <;> refine hother (RedisFanout.forall_calls ?_) <;>
      simp [RedisFanout.setMs, RedisFanout.setInt, Cmd.key, TitanOp.fixedKeys]
  | decodeError | sizeBoard board =>
    refine hother (RedisFanout.forall_calls ?_)
    simp [Cmd.key, TitanOp.fixedKeys]

theorem ops_rowCmds (hw : fanout.writes = true) {ttlSecs : UInt64}
    {ops : List (TitanOp TitanDocument)} (hops : ∀ op ∈ ops, op.FilesRow ttlSecs) :
    ((ops.flatMap (TitanOp.calls fanout)).flatten.filter fun c => c.key = key) =
      ((rowsPublished ops).filter fun entry => entry.1 = key).map (rowCmd ttlSecs) := by
  induction ops with
  | nil => rfl
  | cons op ops ih =>
    have hcons : rowsPublished (op :: ops) = op.row?.toList ++ rowsPublished ops := by
      unfold rowsPublished
      cases h : op.row? <;> simp [h]
    rw [List.flatMap_cons, List.flatten_append, List.filter_append, hcons, List.filter_append,
      List.map_append, op_rowCmds hk hw (hops op (by simp)),
      ih fun op hop => hops op (List.mem_cons_of_mem _ hop)]

end

theorem boot_frame (fanout : RedisFanout) {key : String} (hk : MuxKeys.hop1Prefix <+: key.toList)
    (bootAt : Nat) : lastCmd key (bootCmds fanout bootAt : TimedCmds _ (Document TitanDocument)) =
      none := by
  rw [lastCmd_eq_none]
  have hfixed : ∀ c ∈ (fanout.resetTitanStateAtBoot : List (RedisCall TitanDocument)).flatten,
      ¬ MuxKeys.hop1Prefix <+: c.key.toList := RedisFanout.forall_calls (by decide)
  intro e he hkey
  obtain ⟨c, hc, rfl⟩ := List.mem_map.mp he
  rw [← hkey] at hk
  exact hfixed c hc hk

/-- The operations of the Titan task publish rows with the configured time to live. -/
theorem Started.filesRow {platform : Platform} {config : Config} {fanout : RedisFanout}
    {binds : Bool} {traces : TaskTraces TitanDocument}
    (hs : Started platform config fanout binds traces) :
    ∀ op ∈ traces.titan, op.FilesRow config.titanHop1TtlSecs := by
  have htitan := hs.titan
  cases hspawn : spawnTitan platform config fanout with
  | none =>
    simp only [hspawn] at htitan
    rw [htitan]
    simp
  | some cfg =>
    simp only [hspawn] at htitan
    obtain ⟨sessions, hp⟩ := htitan
    have httl : cfg.env.hop1TtlSecs = config.titanHop1TtlSecs := by
      unfold spawnTitan at hspawn
      split at hspawn
      · obtain ⟨wallet, -, rfl⟩ := Option.map_eq_some_iff.mp hspawn
        rfl
      · cases hspawn
    intro op hop
    rw [← httl]
    exact loop_filesRow cfg sessions op (hp.subset hop)

/-- **Fresh rows.** Whatever Redis held and however the tasks, once started, are
scheduled: while every command succeeds, what can be read under the key of a row is
the row last published there, while its time to live of at least a second runs; or
what was there before, if none was. -/
theorem rows_fresh (platform : Platform) (config : Config) (hd : config.dryRun = false)
    (hu : config.redisUrl.isSome) (binds : Bool) (traces : TaskTraces TitanDocument)
    (hs : Started platform config (.connect config true) binds traces)
    (trace : TimedTrace TitanDocument)
    (h : Interleaves (traces.commands (.connect config true)) trace.schedule)
    (redis : TimedRedis TitanDocument) (bootAt now : Nat) (key : String)
    (hk : MuxKeys.hop1Prefix <+: key.toList) (value : KeyValue.Value (Document TitanDocument)) :
    readAt now (laterRedis (.connect config true) bootAt trace redis) key = some value ↔
      (∃ row t, lastWrite (rowsPublished traces.titan) key = some row ∧
          lastCmd key trace.cmds = some (t, rowCmd config.titanHop1TtlSecs (key, row)) ∧
          value = .doc (.row (.hop1Row row)) ∧
          now ≤ t + max config.titanHop1TtlSecs.toNat 1 * ticksPerSecond) ∨
        lastWrite (rowsPublished traces.titan) key = none ∧ readAt now redis key = some value := by
  let fanout := RedisFanout.connect config true
  have hw : fanout.writes = true := by
    refine RedisFanout.writes_of hd ?_
    simp [fanout, RedisFanout.connect, hd, hu]
  have hlast : (lastCmd key trace.cmds).map Prod.snd =
      (lastWrite (rowsPublished traces.titan) key).map
        fun row => rowCmd config.titanHop1TtlSecs (key, row) := by
    rw [lastCmd_own h (if_pos (.inl hk)), TaskTraces.commands, TaskTraces.calls,
      ops_rowCmds hk hw hs.filesRow, List.getLast?_map, getLast?_filter_key, Option.map_map]
    rfl
  have hleased : ∀ c ∈ (traces.commands fanout .titan).filter fun c => c.key = key,
      (∃ v ttl, c = .setEx key v ttl) ∨ c = .del key := by
    intro c hc
    rw [TaskTraces.commands, TaskTraces.calls, ops_rowCmds hk hw hs.filesRow] at hc
    obtain ⟨entry, hentry, rfl⟩ := List.mem_map.mp hc
    obtain rfl : entry.1 = key := by simpa using (List.mem_filter.mp hentry).2
    exact .inl ⟨_, _, rfl⟩
  rw [readAt_owned h (if_pos (.inl hk)) (boot_frame fanout hk bootAt) hleased]
  refine or_congr (lastCmd_setEx_iff hlast now value) (and_congr_left fun _ => ?_)
  rw [← Option.map_eq_none_iff (f := Prod.snd), hlast, Option.map_eq_none_iff]

/-! A session whose last frame quotes an attributed stream. -/

def rowPlatform : Platform where
  bs58 := base58Codec
  decode := pairEnv.decode
  parseSocketAddr _ := none

def rowConfig : Config :=
  { shredConfig false with
    enableTitanWs := true
    titanWsUrl := some "wss://titan.example.test"
    titanWalletPubkey := some (base58Encode sampleWallet.bytes) }

def rowLoop : TitanLive.LoopConfig where
  env := ⟨rowPlatform.bs58, rowPlatform.decode, .connect rowConfig true, 2⟩
  wallet := sampleWallet
  ladder := parseHuntSizes none
  relay := true

theorem rowConfig_spawns :
    spawnTitan rowPlatform rowConfig (.connect rowConfig true) = some rowLoop := by
  have hready : TitanLiveState.resolve rowPlatform rowConfig = .ready := by decide +kernel
  have hwallet : (rowConfig.titanWalletPubkey.bind fun value =>
      (parseWalletPubkey rowPlatform.bs58 value).toOption) = some sampleWallet := by
    decide +kernel
  rw [spawnTitan, if_pos hready, hwallet]
  rfl

def rowSession : TitanLive.Session :=
  { titanSession .close with reads := attributedFrames.map .binary }

def rowTraces : TaskTraces TitanDocument := ⟨TitanLive.loopOps rowLoop [rowSession], [], [], []⟩

/-- Everything is executed a second after the epoch. -/
def rowTrace : TimedTrace TitanDocument :=
  (oneByOne RedisTask.all (rowTraces.commands (.connect rowConfig true))).map fun e => (1000, e)

def rowKey : String := "mux:titan:hop1:SOL-USDC:250000000"

theorem rowTraces_started :
    Started rowPlatform rowConfig (.connect rowConfig true) false rowTraces := by
  refine ⟨?_, rfl, rfl⟩
  rw [rowConfig_spawns]
  exact ⟨[rowSession], List.prefix_rfl⟩

/-- The row can be read for two seconds. -/
theorem rows_fresh_sample :
    let later := laterRedis (.connect rowConfig true) 0 rowTrace (fun _ => none)
    (readAt 3000 later rowKey).isSome ∧ readAt 3001 later rowKey = none := by
  intro later
  have hread (now : Nat) := rows_fresh rowPlatform rowConfig rfl rfl false rowTraces
    rowTraces_started rowTrace (interleaves_at _ 1000) (fun _ => none) 0 now rowKey (by decide)
  have hrow : (lastWrite (rowsPublished rowTraces.titan) rowKey).any (fun row =>
      lastCmd rowKey rowTrace.cmds = some (1000, rowCmd 2 (rowKey, row))) := by decide +kernel
  obtain ⟨row, hrow, hlast⟩ := (Option.any_eq_true _ _).mp hrow
  have hlast := of_decide_eq_true hlast
  constructor
  · rw [(hread 3000 (.doc (.row (.hop1Row row)))).mpr
      (.inl ⟨row, 1000, hrow, hlast, rfl, by decide⟩)]
    rfl
  · rw [Option.eq_none_iff_forall_ne_some]
    intro value hvalue
    rcases (hread 3001 value).mp hvalue with ⟨_, t, -, hl, -, hlive⟩ | ⟨hnone, -⟩
    · obtain ⟨rfl, -⟩ := Prod.mk.inj (Option.some.inj (hlast.symm.trans hl))
      exact absurd hlive (by decide)
    · rw [hrow] at hnone
      cases hnone

/-! ## The vault hit -/

/-- The document of a hit that an operation publishes. -/
def ShredOp.hitDoc? {δ : Type} : ShredOp → Option (Document δ)
  | .hit vaultHit slot fecSetIndex src _ ts =>
    some (.shredHit vaultHit.vaultB58 slot fecSetIndex src ts)
  | _ => none

def hitsPublished {δ : Type} (ops : List ShredOp) : List (Document δ) :=
  ops.filterMap ShredOp.hitDoc?

def hitCmd {δ : Type} (ttlSecs : UInt64) (doc : Document δ) : RedisCmd δ :=
  .setEx MuxKeys.shredHit (.doc doc) (max ttlSecs.toNat 1)

/-- No reset, and a hit of one of the vaults with this time to live. -/
def ShredOp.Live (cfg : UdpConfig) : ShredOp → Prop
  | .resetAtBoot => False
  | .hit vaultHit _ _ _ ttl _ => ttl = cfg.hitTtlSecs ∧
      ∃ vault ∈ cfg.vaults.vaults, vaultHit.vaultB58 = cfg.bs58.encode vault.bytes
  | _ => True

theorem udpLoopOps_live (cfg : UdpConfig) (st : UdpState) (ds : List Datagram) :
    ∀ op ∈ udpLoopOps cfg st ds, op.Live cfg := by
  induction ds generalizing st with
  | nil => simp [udpLoopOps]
  | cons d ds ih =>
    intro op hop
    rcases List.mem_append.mp hop with hop | hop
    · rcases List.mem_cons.mp hop with rfl | hop
      · trivial
      · obtain ⟨batch, _, hop⟩ := List.mem_flatMap.mp hop
        rcases List.mem_cons.mp hop with rfl | hop
        · trivial
        · obtain ⟨hit, hhit, rfl⟩ := List.mem_map.mp hop
          rw [Shred.VaultWatchSet.scanHits_eq] at hhit
          obtain ⟨vault, hvault, rfl⟩ := List.mem_map.mp hhit
          exact ⟨rfl, vault, (List.mem_filter.mp hvault).1, rfl⟩
    · exact ih _ op hop

section
variable {δ : Type} {fanout : RedisFanout} (hw : fanout.writes = true)
include hw

theorem reset_hitCmds :
    ((ShredOp.resetAtBoot.calls fanout : List (RedisCall δ)).flatten.filter
      fun c => c.key = MuxKeys.shredHit) = [.del MuxKeys.shredHit] := by
  rw [ShredOp.calls, RedisFanout.resetShredStateAtBoot, RedisFanout.calls_of_writes hw]
  simp +decide [RedisFanout.setInt, Cmd.key]

theorem live_hitCmds {cfg : UdpConfig} {ops : List ShredOp} (hops : ∀ op ∈ ops, op.Live cfg) :
    ((ops.flatMap (ShredOp.calls fanout) : List (RedisCall δ)).flatten.filter
      fun c => c.key = MuxKeys.shredHit) =
      (hitsPublished ops).map (hitCmd cfg.hitTtlSecs) := by
  induction ops with
  | nil => rfl
  | cons op ops ih =>
    have hcons : (hitsPublished (op :: ops) : List (Document δ)) =
        op.hitDoc?.toList ++ hitsPublished ops := by
      unfold hitsPublished
      cases h : (op.hitDoc? : Option (Document δ)) <;> simp [h]
    have hop : ((op.calls fanout : List (RedisCall δ)).flatten.filter
        fun c => c.key = MuxKeys.shredHit) = op.hitDoc?.toList.map (hitCmd cfg.hitTtlSecs) := by
      have hlive := hops op (by simp)
      cases op with
      | resetAtBoot => exact hlive.elim
      | upstreamUp up =>
        rw [ShredOp.calls, RedisFanout.setShredUpstreamUp, RedisFanout.calls_of_writes hw]
        simp +decide [RedisFanout.setInt, Cmd.key, ShredOp.hitDoc?]
      | frame ts =>
        rw [ShredOp.calls, RedisFanout.recordShredFrame, RedisFanout.calls_of_writes hw]
        simp +decide [RedisFanout.setInt, RedisFanout.setMs, Cmd.key, ShredOp.hitDoc?]
      | deshred txCount ts =>
        rw [ShredOp.calls, RedisFanout.recordShredDeshred, RedisFanout.calls_of_writes hw]
        simp +decide [RedisFanout.setInt, RedisFanout.setMs, Cmd.key, ShredOp.hitDoc?]
      | hit vaultHit slot fecSetIndex src ttl ts =>
        obtain ⟨rfl, -⟩ := hlive
        rw [ShredOp.calls, RedisFanout.publishShredHit, RedisFanout.calls_of_writes hw]
        simp +decide [RedisFanout.setInt, RedisFanout.setMs, Cmd.key, ShredOp.hitDoc?, hitCmd]
    rw [List.flatMap_cons, List.flatten_append, List.filter_append, hcons, List.map_append, hop,
      ih fun op hop => hops op (List.mem_cons_of_mem _ hop)]

end

section
variable (platform : Platform) (config : Config) (fanout : RedisFanout)

/-- How the shred loop runs if it is spawned. -/
def udpConfig : UdpConfig where
  bs58 := platform.bs58
  fanout
  vaults := .fromPubkeys config.shredWatchVaults
  hitTtlSecs := config.shredHitTtlSecs
  udpPrefixSkip := config.shredUdpPrefixSkip

/-- The shred loop is spawned and binds its socket. -/
def shredBound (binds : Bool) : Bool := (spawnShred platform config fanout).isSome && binds

end

section
variable {platform : Platform} {config : Config} {fanout : RedisFanout} {binds : Bool}
  {traces : TaskTraces TitanDocument} (hs : Started platform config fanout binds traces)
include hs

/-- A bound task resets the keys first; after that there are only live operations. -/
theorem Started.shredOps : ∃ ops, (∀ op ∈ ops, op.Live (udpConfig platform config fanout)) ∧
    traces.shred = (if shredBound platform config fanout binds then [.resetAtBoot] else []) ++
      ops := by
  unfold shredBound
  cases hspawn : spawnShred platform config fanout with
  | none => exact ⟨[], by simp, by simp [hs.declined hspawn]⟩
  | some cfg =>
    obtain rfl : cfg = udpConfig platform config fanout := by
      unfold spawnShred at hspawn
      split at hspawn
      · exact (Option.some.inj hspawn).symm
      · cases hspawn
    have hshred := hs.shred
    simp only [hspawn] at hshred
    obtain ⟨⟨started, hstart⟩, ds, hend⟩ := hshred
    cases binds with
    | false =>
      refine ⟨[.upstreamUp false], by simp [ShredOp.Live], ?_⟩
      rw [hs.unbound hspawn]
      rfl
    | true =>
      refine ⟨.upstreamUp true :: started, ?_, hstart.symm⟩
      have hrest : started <+: udpLoopOps (udpConfig platform config fanout) (.start {}) ds := by
        rw [← hstart, runUdpLoop, runUdpLoop, if_pos rfl, if_pos rfl] at hend
        exact (List.prefix_append_right_inj _).mp hend
      intro op hop
      rcases List.mem_cons.mp hop with rfl | hop
      · trivial
      · exact udpLoopOps_live _ _ ds op (hrest.subset hop)

/-- The commands on the hit: a deletion if the socket is bound, then the hits. -/
theorem Started.hitCmds (hw : fanout.writes = true) :
    ((traces.commands fanout .shred).filter fun c => c.key = MuxKeys.shredHit) =
      (if shredBound platform config fanout binds then [.del MuxKeys.shredHit] else []) ++
        (hitsPublished traces.shred).map (hitCmd config.shredHitTtlSecs) := by
  obtain ⟨ops, hops, hshred⟩ := hs.shredOps
  have hlive := live_hitCmds (δ := TitanDocument) hw hops
  rw [TaskTraces.commands, TaskTraces.calls, hshred, List.flatMap_append, List.flatten_append,
    List.filter_append, hlive]
  split
  · rw [List.flatMap_singleton, reset_hitCmds hw]
    rfl
  · rfl

theorem Started.unbound_hits (hb : shredBound platform config fanout binds = false) :
    (hitsPublished traces.shred : List (Document TitanDocument)) = [] := by
  unfold shredBound at hb
  cases hspawn : spawnShred platform config fanout with
  | none =>
    rw [hs.declined hspawn]
    rfl
  | some cfg =>
    cases binds with
    | false =>
      rw [hs.unbound hspawn]
      rfl
    | true => simp [hspawn] at hb

theorem Started.hit_watched : ∀ doc ∈ (hitsPublished traces.shred : List (Document TitanDocument)),
    ∃ vault ∈ config.shredWatchVaults, ∃ slot fecSetIndex src ts,
      doc = .shredHit (platform.bs58.encode vault.bytes) slot fecSetIndex src ts := by
  obtain ⟨ops, hops, hshred⟩ := hs.shredOps
  intro doc hdoc
  obtain ⟨op, hop, hd⟩ := List.mem_filterMap.mp hdoc
  have hmem : op = .resetAtBoot ∨ op ∈ ops := by
    rw [hshred] at hop
    rcases List.mem_append.mp hop with hop | hop
    · split at hop
      · exact .inl (List.mem_singleton.mp hop)
      · cases hop
    · exact .inr hop
  rcases hmem with rfl | hmem
  · cases hd
  · have hlive := hops op hmem
    cases op with
    | hit vaultHit slot fecSetIndex src ttl ts =>
      obtain ⟨-, vault, hvault, hb58⟩ := hlive
      refine ⟨vault, List.mem_dedup.mp hvault, slot, fecSetIndex, src, ts, ?_⟩
      exact (Option.some.inj hd).symm.trans (by rw [hb58]; rfl)
    | _ => cases hd

end

theorem boot_keeps_hit (fanout : RedisFanout) (bootAt : Nat) :
    lastCmd MuxKeys.shredHit (bootCmds fanout bootAt : TimedCmds _ (Document TitanDocument)) =
      none := by
  have hfixed : ∀ c ∈ (fanout.resetTitanStateAtBoot : List (RedisCall TitanDocument)).flatten,
      c.key ≠ MuxKeys.shredHit := RedisFanout.forall_calls (by decide)
  rw [lastCmd_eq_none]
  intro e he
  obtain ⟨c, hc, rfl⟩ := List.mem_map.mp he
  exact hfixed c hc

/-- **Fresh hits.** Once the tasks have started, the reset of a bound shred task
included, and while every command succeeds: what can be read as the vault hit is the
last hit of this process, while its time to live of at least a second runs; or what
was there before, if the shred socket is not bound. A hit names one of the watched
vaults. -/
theorem hits_fresh (platform : Platform) (config : Config) (hd : config.dryRun = false)
    (hu : config.redisUrl.isSome) (binds : Bool) (traces : TaskTraces TitanDocument)
    (hs : Started platform config (.connect config true) binds traces)
    (trace : TimedTrace TitanDocument)
    (h : Interleaves (traces.commands (.connect config true)) trace.schedule)
    (redis : TimedRedis TitanDocument) (bootAt now : Nat)
    (value : KeyValue.Value (Document TitanDocument)) :
    (readAt now (laterRedis (.connect config true) bootAt trace redis) MuxKeys.shredHit =
        some value ↔
      (∃ doc t, (hitsPublished traces.shred).getLast? = some doc ∧
          lastCmd MuxKeys.shredHit trace.cmds = some (t, hitCmd config.shredHitTtlSecs doc) ∧
          value = .doc doc ∧
          now ≤ t + max config.shredHitTtlSecs.toNat 1 * ticksPerSecond) ∨
        shredBound platform config (.connect config true) binds = false ∧
          readAt now redis MuxKeys.shredHit = some value) ∧
      ∀ doc ∈ (hitsPublished traces.shred : List (Document TitanDocument)),
        ∃ vault ∈ config.shredWatchVaults, ∃ slot fecSetIndex src ts,
          doc = .shredHit (platform.bs58.encode vault.bytes) slot fecSetIndex src ts := by
  refine ⟨?_, hs.hit_watched⟩
  let fanout := RedisFanout.connect config true
  have hw : fanout.writes = true := by
    refine RedisFanout.writes_of hd ?_
    simp [fanout, RedisFanout.connect, hd, hu]
  have ho : MuxKeys.owner MuxKeys.shredHit = some .shred := by decide
  have hcmds := hs.hitCmds hw
  have hlast := lastCmd_own h ho
  rw [hcmds, List.getLast?_append, List.getLast?_map] at hlast
  have hleased : ∀ c ∈ (traces.commands fanout .shred).filter fun c => c.key = MuxKeys.shredHit,
      (∃ v ttl, c = .setEx MuxKeys.shredHit v ttl) ∨ c = .del MuxKeys.shredHit := by
    intro c hc
    rw [hcmds] at hc
    rcases List.mem_append.mp hc with hc | hc
    · split at hc
      · exact .inr (List.mem_singleton.mp hc)
      · cases hc
    · obtain ⟨doc, _, rfl⟩ := List.mem_map.mp hc
      exact .inl ⟨_, _, rfl⟩
  rw [readAt_owned h ho (boot_keeps_hit fanout bootAt) hleased]
  cases hbound : shredBound platform config fanout binds with
  | true =>
    rw [hbound, if_pos rfl, List.getLast?_singleton] at hlast
    cases hhit : (hitsPublished traces.shred : List (Document TitanDocument)).getLast? with
    | none =>
      rw [hhit, Option.map_none, Option.none_or, Option.map_eq_some_iff] at hlast
      obtain ⟨⟨t, c⟩, hl, hc⟩ := hlast
      obtain rfl : c = .del MuxKeys.shredHit := hc
      simp [hl]
    | some doc =>
      rw [hhit, Option.map_some, Option.some_or, ← Option.map_some] at hlast
      have hsome : lastCmd MuxKeys.shredHit trace.cmds ≠ none := by
        intro hnone
        rw [hnone] at hlast
        cases hlast
      simp only [hsome, false_and, or_false, reduceCtorEq]
      exact lastCmd_setEx_iff hlast now value
  | false =>
    rw [hs.unbound_hits hbound]
    rw [hbound, hs.unbound_hits hbound, if_neg (by simp), List.getLast?_nil, List.getLast?_nil,
      Option.map_none, Option.or_none, Option.map_eq_none_iff] at hlast
    simp [hlast]

/-! A completed set with the vault, in a process that finds the hit of another. -/

def hitTraces : TaskTraces TitanDocument :=
  shredTraces (runUdpLoop straddleConfig true healthDatagrams)

def hitTrace : TimedTrace TitanDocument :=
  (oneByOne RedisTask.all (hitTraces.commands (.connect (shredConfig true) true))).map
    fun e => (1000, e)

def earlierHit : TimedRedis TitanDocument :=
  execTimed (fun _ => none) [(0, .setEx MuxKeys.shredHit (.doc (.text "earlier")) 60)]

theorem hitTraces_started :
    Started shredPlatform (shredConfig true) (.connect (shredConfig true) true) true hitTraces :=
  ⟨rfl, rfl, List.prefix_append .., healthDatagrams, List.prefix_rfl⟩

theorem hitTrace_interleaves :
    Interleaves (hitTraces.commands (.connect (shredConfig true) true)) hitTrace.schedule :=
  interleaves_at _ 1000

theorem hits_fresh_sample :
    let later := laterRedis (.connect (shredConfig true) true) 0 hitTrace earlierHit
    (readAt 3000 later MuxKeys.shredHit).isSome ∧ readAt 3001 later MuxKeys.shredHit = none := by
  intro later
  have hread (now : Nat) (value : KeyValue.Value (Document TitanDocument)) :=
    (hits_fresh shredPlatform (shredConfig true) rfl rfl true hitTraces hitTraces_started
      hitTrace hitTrace_interleaves earlierHit 0 now value).1
  let hits : List (Document TitanDocument) := hitsPublished hitTraces.shred
  have hhit : hits.getLast?.any fun doc =>
      lastCmd MuxKeys.shredHit hitTrace.cmds = some (1000, hitCmd 2 doc) := by decide +kernel
  obtain ⟨doc, hdoc, hlast⟩ := (Option.any_eq_true _ _).mp hhit
  have hlast := of_decide_eq_true hlast
  constructor
  · rw [(hread 3000 (.doc doc)).mpr (.inl ⟨doc, 1000, hdoc, hlast, rfl, by decide⟩)]
    rfl
  · rw [Option.eq_none_iff_forall_ne_some]
    intro value hvalue
    rcases (hread 3001 value).mp hvalue with ⟨_, t, -, hl, -, hlive⟩ | ⟨hunbound, -⟩
    · obtain ⟨rfl, -⟩ := Prod.mk.inj (Option.some.inj (hlast.symm.trans hl))
      exact absurd hlive (by decide)
    · exact absurd hunbound (by decide)

/-! ## Keys without a time to live -/

section
variable {δ : Type} {fanout : RedisFanout}

/-- Only rows and the hit are stored with a time to live. -/
theorem setEx_leased (traces : TaskTraces δ) (task : RedisTask) {key : String}
    {value : KeyValue.Value (Document δ)} {ttl : Nat}
    (h : .setEx key value ttl ∈ traces.commands fanout task) :
    MuxKeys.hop1Prefix <+: key.toList ∨ key = MuxKeys.shredHit := by
  suffices hall : ∀ c ∈ traces.commands fanout task, ∀ value ttl, c = .setEx key value ttl →
      MuxKeys.hop1Prefix <+: key.toList ∨ key = MuxKeys.shredHit from hall _ h _ _ rfl
  clear h
  cases task with
  | titan =>
    refine forall_flatMap_flatten (fun op => ?_) traces.titan
    cases op with
    | upstreamUp up =>
      apply RedisFanout.forall_calls
      cases up <;> simp [RedisFanout.setInt]
    | message outcome nowMs =>
      cases outcome <;> apply RedisFanout.forall_calls <;>
        simp [RedisFanout.setInt, RedisFanout.setMs]
    | hop1 doc pair sizeLamports ttl =>
      apply RedisFanout.forall_calls
      simp only [List.flatten_cons, List.flatten_nil, List.append_nil, List.forall_mem_cons,
        List.not_mem_nil, false_implies, implies_true, and_true, Cmd.setEx.injEq, reduceCtorEq]
      rintro value ttl ⟨rfl, -⟩
      exact .inl (MuxKeys.hop1RowKey_startsWith pair sizeLamports)
    | decodeError | sizeBoard board => apply RedisFanout.forall_calls; simp
  | triton =>
    refine forall_flatMap_flatten (fun op => ?_) traces.triton
    cases op <;> apply RedisFanout.forall_calls <;> simp [RedisFanout.setInt, RedisFanout.setMs]
  | shred =>
    refine forall_flatMap_flatten (fun op => ?_) traces.shred
    cases op <;> apply RedisFanout.forall_calls <;>
      simp +contextual [RedisFanout.setInt, RedisFanout.setMs, eq_comm]
  | heartbeat =>
    refine forall_flatMap_flatten (fun nowMs => ?_) traces.heartbeat
    apply RedisFanout.forall_calls
    simp [RedisFanout.setMs, RedisFanout.setInt]

theorem mem_cmds {traces : TaskTraces δ} {trace : TimedTrace δ}
    (h : Interleaves (traces.commands fanout) trace.schedule) {task : RedisTask} {c : RedisCmd δ}
    (hc : c ∈ traces.commands fanout task) : ∃ e ∈ trace.cmds, e.2 = c := by
  rw [← h task] at hc
  obtain ⟨e, he, rfl⟩ := List.mem_map.mp hc
  obtain ⟨⟨t, e⟩, hmem, rfl⟩ := List.mem_map.mp (List.mem_filter.mp he).1
  exact ⟨(t, e.2), List.mem_map_of_mem hmem, rfl⟩

/-- Neither before nor during the schedule is the key given a time to live. -/
theorem never_leased {traces : TaskTraces δ} {trace : TimedTrace δ}
    (h : Interleaves (traces.commands fanout) trace.schedule) {key : String}
    (hrow : ¬ MuxKeys.hop1Prefix <+: key.toList) (hhit : key ≠ MuxKeys.shredHit) (bootAt : Nat) :
    ∀ e ∈ bootCmds fanout bootAt ++ trace.cmds, ∀ value ttl, e.2 ≠ .setEx key value ttl := by
  intro e he value ttl heq
  rcases List.mem_append.mp he with he | he
  · obtain ⟨c, hc, rfl⟩ := List.mem_map.mp he
    have hset : ∀ c ∈ (fanout.resetTitanStateAtBoot : List (RedisCall δ)).flatten,
        c ≠ .setEx key value ttl := by
      apply RedisFanout.forall_calls
      simp [RedisFanout.setInt]
    exact hset c hc heq
  · obtain ⟨⟨t, task, c⟩, hmem, rfl⟩ := List.mem_map.mp he
    obtain rfl : c = .setEx key value ttl := heq
    have hc := h.mem (List.mem_map_of_mem hmem)
    exact (setEx_leased traces task hc).elim hrow hhit

end

namespace MuxKeys

/-- What the reset at boot sets. -/
def bootReset : List String := titanCounters ++ tritonCounters ++ [metaTitanUp, metaTritonUp]

/-- What the shred task sets when it binds. -/
def shredReset : List String :=
  [metaShredUp, shredShreds, shredTxsDeshredded, shredVaultHits, shredLastMs, shredLastHitMs]

end MuxKeys

/-- **Lasting counters.** Whatever Redis held and until whenever: once the tasks have
started and while every command succeeds, the counters, flags and the board that this
process has reset read the same at any later time, as in a store without deadlines. -/
theorem counters_keep (platform : Platform) (config : Config) (hd : config.dryRun = false)
    (hu : config.redisUrl.isSome) (binds : Bool) (traces : TaskTraces TitanDocument)
    (hs : Started platform config (.connect config true) binds traces)
    (trace : TimedTrace TitanDocument)
    (h : Interleaves (traces.commands (.connect config true)) trace.schedule)
    (redis : TimedRedis TitanDocument) (untimed : Redis TitanDocument) (bootAt now : Nat)
    (key : String)
    (hk : key ∈ MuxKeys.bootReset ∨
      shredBound platform config (.connect config true) binds ∧ key ∈ MuxKeys.shredReset) :
    readAt now (laterRedis (.connect config true) bootAt trace redis) key =
      (afterBoot (.connect config true) trace.schedule untimed key).map Entry.value := by
  let fanout := RedisFanout.connect config true
  have hw : fanout.writes = true := by
    refine RedisFanout.writes_of hd ?_
    simp [fanout, RedisFanout.connect, hd, hu]
  have hplain : ¬ MuxKeys.hop1Prefix <+: key.toList ∧ key ≠ MuxKeys.shredHit := by
    have hboth : ∀ key ∈ MuxKeys.bootReset ++ MuxKeys.shredReset,
        ¬ MuxKeys.hop1Prefix <+: key.toList ∧ key ≠ MuxKeys.shredHit := by decide
    exact hboth key (List.mem_append.mpr (hk.imp id And.right))
  have hoverwritten : ∃ e ∈ bootCmds fanout bootAt ++ trace.cmds, e.2.Overwrites key := by
    rcases hk with hk | ⟨hb, hk⟩
    · have hreset : ∃ c ∈ (fanout.resetTitanStateAtBoot : List (RedisCall TitanDocument)).flatten,
          c.Overwrites key := by
        rw [RedisFanout.resetTitanStateAtBoot, RedisFanout.calls_of_writes hw]
        clear hplain
        revert key
        decide
      obtain ⟨c, hc, ho⟩ := hreset
      exact ⟨(bootAt, c), List.mem_append_left _ (List.mem_map_of_mem hc), ho⟩
    · obtain ⟨ops, -, hshred⟩ := hs.shredOps
      rw [if_pos hb] at hshred
      have hreset : ∃ c ∈ (ShredOp.resetAtBoot.calls fanout :
          List (RedisCall TitanDocument)).flatten, c.Overwrites key := by
        rw [ShredOp.calls, RedisFanout.resetShredStateAtBoot, RedisFanout.calls_of_writes hw]
        clear hplain hshred hb
        revert key
        decide
      obtain ⟨c, hc, ho⟩ := hreset
      have hmem : c ∈ traces.commands fanout .shred := by
        rw [TaskTraces.commands, TaskTraces.calls, hshred, List.flatMap_append,
          List.flatten_append, List.flatMap_singleton]
        exact List.mem_append_left _ hc
      obtain ⟨e, he, rfl⟩ := mem_cmds h hmem
      exact ⟨e, List.mem_append_right _ he, ho⟩
  rw [laterRedis, readAt_overwritten (never_leased h hplain.1 hplain.2 bootAt) hoverwritten redis
    untimed, List.map_append, bootCmds_snd, TimedTrace.cmds_snd, exec_append]
  rfl

/-- An earlier counter that was about to expire. -/
theorem counters_keep_sample :
    let expiring : TimedRedis TitanDocument :=
      execTimed (fun _ => none) [(0, .setEx MuxKeys.shredShreds (.int 5) 1)]
    readAt 90000000 (laterRedis (.connect (shredConfig true) true) 0 hitTrace expiring)
      MuxKeys.shredShreds = some (.int 2) := by
  intro expiring
  rw [counters_keep shredPlatform (shredConfig true) rfl rfl true hitTraces hitTraces_started
    hitTrace hitTrace_interleaves expiring (fun _ => none) 0 90000000 MuxKeys.shredShreds
    (.inr (by decide))]
  decide +kernel

end FeedMux
