import FeedMux.Upstream.PairsLive
import FeedMux.Upstream.ShredHealth

/-!
# Starting over an earlier process (`src/lib.rs`, `src/upstream/mod.rs`)

`run` resets the Titan and Triton keys and then starts the upstream tasks that
are configured; the shred keys are reset inside the shred task, once its socket
is bound. So exactly when the socket is not bound can shred counters of an
earlier process survive (`no_ghosts_iff`).
-/

namespace FeedMux
open FeedMux.Library FeedMux.Library.KeyValue FeedMux.Titan FeedMux.Upstream

/-- Third-party decoders, and the port of a `SocketAddr` text. -/
structure Platform where
  bs58 : Bs58
  decode : Bytes → Option Value
  parseSocketAddr : String → Option UInt16

/-- `RedisFanout::connect`, by whether Redis can be reached. -/
def RedisFanout.connect (config : Config) (reachable : Bool) : RedisFanout where
  channel := config.redisChannel
  dryRun := config.dryRun
  connected := !config.dryRun && config.redisUrl.isSome && reachable

/-! ## Which upstreams start -/

def isBlank (text : String) : Bool := (trim text.toList).isEmpty

inductive TitanLiveState where
  | disabled
  | dryRunStub
  | missingWsUrl
  | missingWalletPubkey
  | invalidWalletPubkey
  | ready
  deriving DecidableEq, Repr

inductive TritonLiveState where
  | disabled
  | dryRunStub
  | missingGrpcUrl
  | ready
  deriving DecidableEq, Repr

inductive ShredLiveState where
  | disabled
  | dryRunStub
  | missingVaults
  | keepPortConflict
  | invalidBind
  | ready
  deriving DecidableEq, Repr

section
variable (platform : Platform) (config : Config)

def TitanLiveState.resolve : TitanLiveState :=
  if !config.enableTitanWs then .disabled
  else if config.dryRun then .dryRunStub
  else if config.titanWsUrl.isNone then .missingWsUrl
  else
    match config.titanWalletPubkey with
    | none => .missingWalletPubkey
    | some value =>
      if isBlank value then .missingWalletPubkey
      else if (parseWalletPubkey platform.bs58 value).toOption.isSome then .ready
      else .invalidWalletPubkey

def TritonLiveState.resolve : TritonLiveState :=
  if !config.enableTritonGrpc then .disabled
  else if config.dryRun then .dryRunStub
  else if config.tritonGrpcUrl.all isBlank then .missingGrpcUrl
  else .ready

def keepShredPort : UInt16 := 8002

def shredBindConflictsWithKeep (bind : String) : Bool :=
  (platform.parseSocketAddr bind).any (· == keepShredPort)

def ShredLiveState.resolve : ShredLiveState :=
  if !config.enableTritonShred then .disabled
  else if config.dryRun then .dryRunStub
  else if config.shredWatchVaults.isEmpty then .missingVaults
  else if shredBindConflictsWithKeep platform config.shredBind then .keepPortConflict
  else if (platform.parseSocketAddr config.shredBind).isNone then .invalidBind
  else .ready

variable (fanout : RedisFanout)

/-- The live loop that is spawned, if any. -/
def spawnTitan : Option TitanLive.LoopConfig :=
  if TitanLiveState.resolve platform config = .ready then
    (config.titanWalletPubkey.bind fun value =>
      (parseWalletPubkey platform.bs58 value).toOption).map fun wallet =>
        { env := ⟨platform.bs58, platform.decode, fanout, config.titanHop1TtlSecs⟩
          wallet
          ladder := parseHuntSizes config.titanHuntSizeLamports
          relay := true }
  else none

def spawnTriton : Option TritonLive.LoopConfig :=
  if TritonLiveState.resolve config = .ready then
    config.tritonGrpcUrl.map fun grpcUrl => ⟨fanout, grpcUrl, config.tritonGrpcToken, true⟩
  else none

/-- The hub checks the vaults once more. -/
def spawnShred : Option UdpConfig :=
  if !config.shredWatchVaults.isEmpty && ShredLiveState.resolve platform config = .ready then
    some
      { bs58 := platform.bs58
        fanout
        vaults := .fromPubkeys config.shredWatchVaults
        hitTtlSecs := config.shredHitTtlSecs
        udpPrefixSkip := config.shredUdpPrefixSkip }
  else none

end

/-- A ready state has a URL and a wallet, so nothing that spawning expects is missing. -/
theorem titan_ready {platform : Platform} {config : Config}
    (h : TitanLiveState.resolve platform config = .ready) :
    config.titanWsUrl.isSome ∧ (config.titanWalletPubkey.bind fun value =>
      (parseWalletPubkey platform.bs58 value).toOption).isSome := by
  unfold TitanLiveState.resolve at h
  split at h
  · cases h
  · split at h
    · cases h
    · split at h
      · cases h
      · rename_i hurl
        refine ⟨by simpa [Option.isSome_iff_ne_none] using hurl, ?_⟩
        split at h
        · cases h
        · rename_i value hvalue
          split at h
          · cases h
          · split at h
            · rename_i hok
              rw [hvalue]
              exact hok
            · cases h

theorem triton_ready {config : Config} (h : TritonLiveState.resolve config = .ready) :
    config.tritonGrpcUrl.isSome := by
  unfold TritonLiveState.resolve at h
  split at h
  · cases h
  · split at h
    · cases h
    · split at h
      · cases h
      · rename_i hurl
        cases hu : config.tritonGrpcUrl with
        | none => simp [hu] at hurl
        | some url => rfl

/-! ## What the tasks have done -/

/-- Each upstream task has started or declined to start; `binds` says whether
the shred socket can be bound. -/
structure Started (platform : Platform) (config : Config) (fanout : RedisFanout) (binds : Bool)
    (traces : TaskTraces TitanDocument) : Prop where
  titan : match spawnTitan platform config fanout with
    | none => traces.titan = []
    | some cfg => ∃ sessions, traces.titan <+: TitanLive.loopOps cfg sessions
  triton : match spawnTriton config fanout with
    | none => traces.triton = []
    | some cfg => ∃ sessions, traces.triton <+: TritonLive.loopOps cfg sessions
  shred : match spawnShred platform config fanout with
    | none => traces.shred = []
    | some cfg => runUdpLoop cfg binds [] <+: traces.shred ∧
        ∃ ds, traces.shred <+: runUdpLoop cfg binds ds

namespace MuxKeys

def titanCounters : List String :=
  [titanFrames, titanDecoded, titanErrors, titanServed, titanHop1Served, titanSizeBoard,
    titanFellThrough, titanPairsLive, titanLastFrameMs, titanFreshestMs]

def tritonCounters : List String := [tritonFrames, tritonLastFrameMs]

def shredCounters : List String :=
  [shredShreds, shredTxsDeshredded, shredVaultHits, shredLastMs, shredLastHitMs, shredHit]

end MuxKeys

/-- Redis after the boot reset and a schedule of the tasks' commands. -/
def afterBoot (fanout : RedisFanout) (trace : List (RedisTask × RedisCmd TitanDocument))
    (redis : Redis TitanDocument) : Redis TitanDocument :=
  exec (redis.after fanout.resetTitanStateAtBoot) (trace.map Prod.snd)

/-- Nothing of an earlier process is left in the counters: they are what they
would be had Redis been empty. And the flags are up for this process only. -/
structure NoGhosts (fanout : RedisFanout) (redis : Redis TitanDocument)
    (traces : TaskTraces TitanDocument) (trace : List (RedisTask × RedisCmd TitanDocument))
    (bound : Prop) : Prop where
  counters : ∀ key ∈ MuxKeys.titanCounters ++ MuxKeys.tritonCounters ++ MuxKeys.shredCounters,
    afterBoot fanout trace redis key = afterBoot fanout trace (fun _ => none) key
  titanUp : counter (afterBoot fanout trace redis) MuxKeys.metaTitanUp = some 1 →
    Since TitanLive.MarksUp TitanLive.Clears traces.titan
  tritonUp : counter (afterBoot fanout trace redis) MuxKeys.metaTritonUp = some 1 →
    Since TritonLive.MarksUp TritonLive.Clears traces.triton
  shredUp : counter (afterBoot fanout trace redis) MuxKeys.metaShredUp = some 1 → bound

section
variable {fanout : RedisFanout} {traces : TaskTraces TitanDocument}
  {trace : List (RedisTask × RedisCmd TitanDocument)} {redis : Redis TitanDocument}

variable (redis) in
/-- A key depends on its owner's commands only. -/
theorem own_commands (h : Interleaves (traces.commands fanout) trace) {key : String}
    {task : RedisTask} (ho : MuxKeys.owner key = some task) :
    afterBoot fanout trace redis key =
      exec (redis.after fanout.resetTitanStateAtBoot) (traces.commands fanout task) key := by
  have hother : ∀ other, other ≠ task → ∀ c ∈ traces.commands fanout other,
      decide (c.key = key) = false := by
    intro other hne c hc
    rw [decide_eq_false_iff_not]
    rintro rfl
    rw [traces.owned other c hc] at ho
    exact hne (Option.some.inj ho)
  unfold afterBoot
  rw [exec_filter _ rfl, h.filter_own hother, ← exec_filter _ rfl]

/-- The Titan and Triton keys forget what they were before the reset. -/
theorem reset_forgets (hw : fanout.writes = true) {key : String}
    (hk : key ∈ MuxKeys.titanCounters ++ MuxKeys.tritonCounters ++
      [MuxKeys.metaTitanUp, MuxKeys.metaTritonUp]) (redis' : Redis TitanDocument) :
    afterBoot fanout trace redis key = afterBoot fanout trace redis' key := by
  refine exec_congr (exec_overwritten ?_ redis redis') _
  rw [RedisFanout.resetTitanStateAtBoot, RedisFanout.calls_of_writes hw]
  revert key
  decide

theorem reset_flag (hw : fanout.writes = true) {key : String}
    (hk : key ∈ [MuxKeys.metaTitanUp, MuxKeys.metaTritonUp]) :
    counter (redis.after fanout.resetTitanStateAtBoot) key = some 0 := by
  have hm : RedisFanout.setInt key (flag false) ∈
      (fanout.resetTitanStateAtBoot : List (RedisCall TitanDocument)).flatten := by
    rw [RedisFanout.resetTitanStateAtBoot, RedisFanout.calls_of_writes hw]
    revert key
    decide
  refine SetsOnly.sets (RedisFanout.forall_calls (SetsOnly.of_nodup (by decide) ?_)) hm redis
  clear hm
  revert key
  decide

/-- The Titan flag is up exactly while the live loop is connected. -/
theorem titan_up_iff (hw : fanout.writes = true) (h : Interleaves (traces.commands fanout) trace)
    (hops : TitanLive.QuotesWhileUp traces.titan) :
    counter (afterBoot fanout trace redis) MuxKeys.metaTitanUp = some 1 ↔
      Since TitanLive.MarksUp TitanLive.Clears traces.titan := by
  have hown := own_commands redis h (MuxKeys.owner_titan MuxKeys.metaTitanUp (by decide))
  rw [← TitanLive.ops_titan_up_iff hw (reset_flag hw (by decide)) hops, TitanLive.afterOps_calls]
  unfold counter
  rw [hown]
  rfl

theorem triton_up_iff (hw : fanout.writes = true) (h : Interleaves (traces.commands fanout) trace)
    (hops : TritonLive.FramesWhileUp traces.triton) :
    counter (afterBoot fanout trace redis) MuxKeys.metaTritonUp = some 1 ↔
      Since TritonLive.MarksUp TritonLive.Clears traces.triton := by
  have hown := own_commands redis h (MuxKeys.owner_triton MuxKeys.metaTritonUp (by decide))
  rw [← TritonLive.ops_up_iff hw (reset_flag hw (by decide)) hops]
  unfold counter
  rw [hown]
  rfl

/-- The boot reset leaves the shred keys alone. -/
theorem reset_keeps_shred {key : String} (hk : key ∈ MuxKeys.shredTask) :
    redis.after fanout.resetTitanStateAtBoot key = redis key := by
  refine exec_frame (RedisFanout.forall_calls ?_) redis
  revert key
  decide

/-- A shred task that binds forgets the earlier counters. -/
theorem bound_forgets (hw : fanout.writes = true) (h : Interleaves (traces.commands fanout) trace)
    {cfg : UdpConfig} (hp : runUdpLoop cfg true [] <+: traces.shred) {key : String}
    (hk : key ∈ MuxKeys.shredCounters) (redis' : Redis TitanDocument) :
    afterBoot fanout trace redis key = afterBoot fanout trace redis' key := by
  have hown : MuxKeys.owner key = some .shred := by
    revert key
    decide
  rw [own_commands redis h hown, own_commands redis' h hown]
  refine exec_overwritten ?_ _ _
  obtain ⟨rest, hrest⟩ := hp
  have hreset : ∃ c ∈ (fanout.resetShredStateAtBoot : List (RedisCall TitanDocument)).flatten,
      c.Overwrites key := by
    rw [RedisFanout.resetShredStateAtBoot, RedisFanout.calls_of_writes hw]
    clear hown
    revert key
    decide
  obtain ⟨c, hc, ho⟩ := hreset
  refine ⟨c, ?_, ho⟩
  have hshred : traces.shred = .resetAtBoot :: ([.upstreamUp true] ++ rest) := hrest.symm
  rw [TaskTraces.commands, TaskTraces.calls, hshred, List.flatMap_cons, List.flatten_append]
  exact List.mem_append_left _ hc

/-- What the shred task does not write stays as it was before the process. -/
theorem shred_untouched (h : Interleaves (traces.commands fanout) trace) {key : String}
    (hk : key ∈ MuxKeys.shredTask) (hc : ∀ c ∈ traces.commands fanout .shred, c.key ≠ key) :
    afterBoot fanout trace redis key = redis key := by
  rw [own_commands redis h (MuxKeys.owner_shred key hk)]
  exact (exec_frame hc _).trans (reset_keeps_shred hk)

theorem declined_keeps (h : Interleaves (traces.commands fanout) trace)
    (hs : traces.shred = []) {key : String} (hk : key ∈ MuxKeys.shredTask) :
    afterBoot fanout trace redis key = redis key := by
  refine shred_untouched h hk ?_
  rw [TaskTraces.commands, TaskTraces.calls, hs]
  simp

/-- A task that cannot bind lowers the flag and leaves the counters as they are. -/
theorem unbound_keeps (h : Interleaves (traces.commands fanout) trace)
    (hs : traces.shred = [.upstreamUp false]) {key : String}
    (hk : key ∈ MuxKeys.shredCounters) : afterBoot fanout trace redis key = redis key := by
  have hmem : key ∈ MuxKeys.shredTask ∧ key ≠ MuxKeys.metaShredUp := by
    revert key
    decide
  refine shred_untouched h hmem.1 ?_
  rw [TaskTraces.commands, TaskTraces.calls, hs, List.flatMap_singleton]
  refine RedisFanout.forall_calls ?_
  simpa [RedisFanout.setInt, Cmd.key] using hmem.2.symm

theorem unbound_flag (hw : fanout.writes = true) (h : Interleaves (traces.commands fanout) trace)
    (hs : traces.shred = [.upstreamUp false]) :
    counter (afterBoot fanout trace redis) MuxKeys.metaShredUp = some 0 := by
  have hown := own_commands redis h (MuxKeys.owner_shred MuxKeys.metaShredUp (by decide))
  have hcalls : traces.commands fanout .shred =
      [RedisFanout.setInt MuxKeys.metaShredUp (flag false)] := by
    rw [TaskTraces.commands, TaskTraces.calls, hs, List.flatMap_singleton, ShredOp.calls,
      RedisFanout.setShredUpstreamUp, RedisFanout.calls_of_writes hw]
    rfl
  rw [hcalls] at hown
  unfold counter
  rw [hown]
  exact counter_set MuxKeys.metaShredUp (flag false) (redis.after fanout.resetTitanStateAtBoot)

end

section
variable {platform : Platform} {config : Config} {fanout : RedisFanout} {binds : Bool}
  {traces : TaskTraces TitanDocument}

theorem Started.quotesWhileUp (hs : Started platform config fanout binds traces) :
    TitanLive.QuotesWhileUp traces.titan := by
  have htitan := hs.titan
  split at htitan
  · rw [htitan]
    exact onlyWhile_nil
  · obtain ⟨sessions, hp⟩ := htitan
    exact (TitanLive.quotes_while_up _ sessions).restrict hp

theorem Started.framesWhileUp (hs : Started platform config fanout binds traces) :
    TritonLive.FramesWhileUp traces.triton := by
  have htriton := hs.triton
  split at htriton
  · rw [htriton]
    exact onlyWhile_nil
  · obtain ⟨sessions, hp⟩ := htriton
    exact (TritonLive.frames_while_up _ sessions).restrict hp

theorem Started.declined (hs : Started platform config fanout binds traces)
    (hn : spawnShred platform config fanout = none) : traces.shred = [] := by
  have hshred := hs.shred
  rw [hn] at hshred
  exact hshred

theorem Started.unbound (hs : Started platform config fanout false traces) {cfg : UdpConfig}
    (hc : spawnShred platform config fanout = some cfg) : traces.shred = [.upstreamUp false] := by
  have hshred := hs.shred
  rw [hc] at hshred
  obtain ⟨hstart, ds, hend⟩ := hshred
  exact (hend.sublist.antisymm hstart.sublist)

theorem Started.bound (hs : Started platform config fanout true traces) {cfg : UdpConfig}
    (hc : spawnShred platform config fanout = some cfg) :
    runUdpLoop cfg true [] <+: traces.shred := by
  have hshred := hs.shred
  rw [hc] at hshred
  exact hshred.1

end

section
variable {fanout : RedisFanout} {traces : TaskTraces TitanDocument}
  {trace : List (RedisTask × RedisCmd TitanDocument)} {redis : Redis TitanDocument}
  {bound : Prop}

/-- The shred keys are all that can be left of an earlier process. -/
theorem noGhosts_iff_shred (hw : fanout.writes = true)
    (h : Interleaves (traces.commands fanout) trace)
    (hquotes : TitanLive.QuotesWhileUp traces.titan)
    (hframes : TritonLive.FramesWhileUp traces.triton) :
    NoGhosts fanout redis traces trace bound ↔
      (∀ key ∈ MuxKeys.shredCounters,
        afterBoot fanout trace redis key = afterBoot fanout trace (fun _ => none) key) ∧
      (counter (afterBoot fanout trace redis) MuxKeys.metaShredUp = some 1 → bound) := by
  constructor
  · intro hg
    exact ⟨fun key hk => hg.counters key (List.mem_append_right _ hk), hg.shredUp⟩
  · rintro ⟨hcounters, hup⟩
    refine ⟨?_, (titan_up_iff hw h hquotes).mp, (triton_up_iff hw h hframes).mp, hup⟩
    intro key hk
    rcases List.mem_append.mp hk with hk | hk
    · exact reset_forgets hw (List.mem_append_left _ hk) _
    · exact hcounters key hk

/-- Keys that no task writes hold what they held. -/
theorem kept_counters_iff
    (hkeep : ∀ redis : Redis TitanDocument, ∀ key ∈ MuxKeys.shredCounters,
      afterBoot fanout trace redis key = redis key) :
    (∀ key ∈ MuxKeys.shredCounters,
        afterBoot fanout trace redis key = afterBoot fanout trace (fun _ => none) key) ↔
      ∀ key ∈ MuxKeys.shredCounters, redis key = none := by
  refine forall₂_congr fun key hk => ?_
  rw [hkeep redis key hk, hkeep (fun _ => none) key hk]

end

/-- **Ghosts.** Whatever an earlier process left and however the tasks' commands
are scheduled, nothing of it is left exactly if the shred socket is bound, or
there was no shred counter, and no shred flag that was up if the task declines. -/
theorem no_ghosts_iff (platform : Platform) (config : Config) (hd : config.dryRun = false)
    (hu : config.redisUrl.isSome) (redis : Redis TitanDocument) (binds : Bool)
    (traces : TaskTraces TitanDocument)
    (hs : Started platform config (.connect config true) binds traces)
    (trace : List (RedisTask × RedisCmd TitanDocument))
    (h : Interleaves (traces.commands (.connect config true)) trace) :
    let fanout := RedisFanout.connect config true
    let bound := (spawnShred platform config fanout).isSome ∧ binds
    NoGhosts fanout redis traces trace bound ↔
      bound ∨ (∀ key ∈ MuxKeys.shredCounters, redis key = none) ∧
        (spawnShred platform config fanout = none →
          counter redis MuxKeys.metaShredUp ≠ some 1) := by
  intro fanout bound
  have hw : fanout.writes = true := by
    refine RedisFanout.writes_of hd ?_
    simp [fanout, RedisFanout.connect, hd, hu]
  rw [noGhosts_iff_shred hw h hs.quotesWhileUp hs.framesWhileUp]
  cases hspawn : spawnShred platform config fanout with
  | none =>
    have hbound : ¬ bound := by simp [bound, hspawn]
    have hkeep (redis : Redis TitanDocument) {key : String} (hk : key ∈ MuxKeys.shredTask) :
        afterBoot fanout trace redis key = redis key := declined_keeps h (hs.declined hspawn) hk
    have hflag : counter (afterBoot fanout trace redis) MuxKeys.metaShredUp =
        counter redis MuxKeys.metaShredUp := by
      unfold counter
      rw [hkeep redis (by decide)]
    have hmem : ∀ key ∈ MuxKeys.shredCounters, key ∈ MuxKeys.shredTask := by decide
    rw [kept_counters_iff fun redis key hk => hkeep redis (hmem key hk), hflag]
    simp only [hbound, false_or, imp_false, forall_const]
  | some cfg =>
    cases hbinds : binds with
    | true =>
      subst hbinds
      have hbound : bound := by simp [bound, hspawn]
      simp only [hbound, true_or, iff_true, implies_true, and_true]
      exact fun key hk => bound_forgets hw h (hs.bound hspawn) hk _
    | false =>
      subst hbinds
      have hbound : ¬ bound := by simp [bound]
      have hshred := hs.unbound hspawn
      rw [kept_counters_iff fun redis key hk => unbound_keeps h hshred hk,
        unbound_flag hw h hshred]
      simp only [hbound, false_or, reduceCtorEq, false_implies, and_true, Option.some.injEq,
        zero_ne_one]

/-! An earlier process has counted five shreds and left its flag up. -/

def staleRedis : Redis TitanDocument :=
  exec (fun _ => none) [RedisFanout.setInt MuxKeys.shredShreds 5,
    RedisFanout.setInt MuxKeys.metaShredUp 1]

def shredConfig (enabled : Bool) : Config where
  dryRun := false
  redisUrl := some "redis://127.0.0.1"
  redisChannel := "feed:350"
  enableTritonGrpc := false
  tritonGrpcUrl := none
  tritonGrpcToken := none
  enableTitanWs := false
  titanWsUrl := none
  titanWalletPubkey := none
  titanHuntSizeLamports := none
  titanHop1TtlSecs := 2
  enableTritonShred := enabled
  shredBind := "0.0.0.0:8003"
  shredWatchVaults := [straddledVault]
  shredHitTtlSecs := 2
  shredUdpPrefixSkip := 2

def shredPlatform : Platform where
  bs58 := straddleConfig.bs58
  decode _ := none
  parseSocketAddr _ := some 8003

def shredTraces (shred : List ShredOp) : TaskTraces TitanDocument := ⟨[], [], shred, []⟩

theorem no_ghosts_sample :
    let fanout := RedisFanout.connect (shredConfig true) true
    let traces := shredTraces (runUdpLoop straddleConfig true healthDatagrams)
    NoGhosts fanout staleRedis traces (oneByOne RedisTask.all (traces.commands fanout))
      ((spawnShred shredPlatform (shredConfig true) fanout).isSome ∧ true) := by
  intro fanout traces
  have hstarted : Started shredPlatform (shredConfig true) fanout true traces :=
    ⟨rfl, rfl, List.prefix_append .., healthDatagrams, List.prefix_rfl⟩
  have hone : Interleaves (traces.commands fanout) (oneByOne RedisTask.all _) :=
    oneByOne_interleaves _ (by decide) RedisTask.mem_all
  exact (no_ghosts_iff shredPlatform (shredConfig true) rfl rfl staleRedis true traces hstarted
    _ hone).mpr (.inl ⟨rfl, rfl⟩)

theorem no_ghosts_fails : ¬ ∀ (platform : Platform) (config : Config), config.dryRun = false →
    config.redisUrl.isSome → ∀ (redis : Redis TitanDocument) (binds : Bool)
      (traces : TaskTraces TitanDocument),
      Started platform config (.connect config true) binds traces →
      ∀ trace : List (RedisTask × RedisCmd TitanDocument),
        Interleaves (traces.commands (.connect config true)) trace →
        let fanout := RedisFanout.connect config true
        NoGhosts fanout redis traces trace
          ((spawnShred platform config fanout).isSome ∧ binds) := by
  intro hall
  have hstarted : Started shredPlatform (shredConfig false) (.connect (shredConfig false) true)
      false (shredTraces []) := ⟨rfl, rfl, rfl⟩
  have hg := hall shredPlatform (shredConfig false) rfl rfl staleRedis false (shredTraces [])
    hstarted [] (by rintro ⟨⟩ <;> rfl)
  exact absurd (hg.shredUp (by decide)) (by decide)

end FeedMux
