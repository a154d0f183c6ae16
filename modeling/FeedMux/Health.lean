import FeedMux.Environment
import FeedMux.Upstream.Flags

/-!
# The health endpoint (`statuses` in `src/upstream/mod.rs`, `health` in `src/http.rs`)

A request loads the flags of the upstreams one by one while their tasks go on,
and the connected flags twice. What it answers is right about the moments of
its loads: an upstream is shown as connected exactly if its loop was then in an
open session, and as denied exactly if its loop had ended so (`health_tells`).
-/

namespace FeedMux
open FeedMux.Library FeedMux.Upstream

structure UpstreamStatus where
  name : String
  enabled : Bool
  connected : Bool
  mode : String
  rateLimitRps : Option UInt32
  deriving DecidableEq, Repr

/-- A flag is loaded for `connected`, and once more for the mode. -/
structure FlagLoads where
  connected : Bool
  mode : Bool

/-- What a request loads; a denied upstream's flag is not loaded. -/
structure StatusLoads where
  tritonBlocked : Bool
  triton : FlagLoads
  shred : FlagLoads
  titan : FlagLoads

section
variable (platform : Platform) (config : FullConfig)

/-- A stub: nothing connects. -/
def chainstackStatus : UpstreamStatus where
  name := "chainstack"
  enabled := config.enableChainstack
  connected := config.enableChainstack && !config.dryRun && config.chainstackRpcUrl.isSome
  mode := if config.dryRun then "stub/dry-run" else "stub/live"
  rateLimitRps := none

/-- A stub: nothing connects. -/
def heliusStatus : UpstreamStatus where
  name := "helius"
  enabled := config.enableHelius
  connected := config.enableHelius && !config.dryRun && config.heliusRpcUrl.isSome
  mode :=
    if config.dryRun then "stub/dry-run"
    else if !config.heliusRpcUrl.isSome then "error/missing-rpc-url"
    else "live/backup"
  rateLimitRps := none

def tritonStatus (blocked : Bool) (loads : FlagLoads) : UpstreamStatus :=
  if blocked then
    { name := "triton_grpc"
      enabled := config.enableTritonGrpc
      connected := false
      mode := "error/auth-denied"
      rateLimitRps := some config.tritonRateLimitRps }
  else
    let (connected, mode) :=
      match TritonLiveState.resolve config.toConfig with
      | .disabled => (false, "disabled")
      | .dryRunStub => (false, "stub/dry-run")
      | .missingGrpcUrl => (false, "error/missing-grpc-url")
      | .ready => (loads.connected, if loads.mode then "live/grpc" else "live/connecting")
    { name := "triton_grpc"
      enabled := config.enableTritonGrpc
      connected
      mode
      rateLimitRps := some config.tritonRateLimitRps }

def shredStatus (loads : FlagLoads) : UpstreamStatus :=
  let (connected, mode) :=
    match ShredLiveState.resolve platform config.toConfig with
    | .disabled => (false, "disabled")
    | .dryRunStub => (false, "stub/dry-run")
    | .missingVaults => (false, "error/missing-vaults")
    | .keepPortConflict => (false, "error/keep-port-8002-conflict")
    | .invalidBind => (false, "error/invalid-bind")
    | .ready => (loads.connected, if loads.mode then "live/udp" else "live/binding")
  { name := "triton_shred_udp"
    enabled := config.enableTritonShred
    connected
    mode
    rateLimitRps := none }

def titanStatus (loads : FlagLoads) : UpstreamStatus :=
  let (connected, mode) :=
    match TitanLiveState.resolve platform config.toConfig with
    | .disabled => (false, "disabled")
    | .dryRunStub => (false, "stub/dry-run")
    | .missingWsUrl => (false, "error/missing-ws-url")
    | .missingWalletPubkey | .invalidWalletPubkey => (false, "error/wallet-pubkey-required")
    | .ready => (loads.connected, if loads.mode then "live/ws" else "live/connecting")
  { name := "titan_ws"
    enabled := config.enableTitanWs
    connected
    mode
    rateLimitRps := some config.titanRateLimitRps }

def statuses (loads : StatusLoads) : List UpstreamStatus :=
  [chainstackStatus config, heliusStatus config,
    tritonStatus config loads.tritonBlocked loads.triton, shredStatus platform config loads.shred,
    titanStatus platform config loads.titan]

end

/-! ## The answer -/

structure ShredHealth where
  enabled : Bool
  bind : String
  vaults : Nat
  shreds : UInt64
  txsDeshredded : UInt64
  vaultHits : UInt64
  lastMs : UInt64
  lastHitMs : UInt64
  lastAgeMs : UInt64
  bound : Bool
  deriving DecidableEq, Repr

def ShredHealth.ofSnapshot (snapshot : ShredStatsSnapshot) : ShredHealth where
  enabled := true
  bind := ""
  vaults := 0
  shreds := snapshot.shreds
  txsDeshredded := snapshot.txsDeshredded
  vaultHits := snapshot.vaultHits
  lastMs := snapshot.lastMs
  lastHitMs := snapshot.lastHitMs
  lastAgeMs := snapshot.lastAgeMs
  bound := snapshot.bound

structure HealthResponse where
  status : String
  dryRun : Bool
  redisConfigured : Bool
  redisChannel : String
  upstreams : List UpstreamStatus
  shred : ShredHealth
  ts : String
  deriving DecidableEq, Repr

def health (platform : Platform) (config : FullConfig) (snapshot : ShredStatsSnapshot)
    (loads : StatusLoads) (utc : String) : HealthResponse where
  status := "ok"
  dryRun := config.dryRun
  redisConfigured := config.redisUrl.isSome
  redisChannel := config.redisChannel
  upstreams := statuses platform config loads
  shred := { ShredHealth.ofSnapshot snapshot with
    enabled := config.enableTritonShred
    bind := config.shredBind
    vaults := config.shredWatchVaults.length }
  ts := utc

/-! ## A process that is asked -/

/-- A process as far as its upstreams go: its surroundings, and the sessions of
its loops. -/
structure Process where
  platform : Platform
  config : FullConfig
  reachable : Bool
  binds : Bool
  titan : List TitanLive.Session
  triton : List TritonLive.Session

/-- How much the tasks had done at each load. -/
structure Moments where
  tritonBlocked : Nat
  tritonConnected : Nat
  tritonMode : Nat
  shredConnected : Nat
  shredMode : Nat
  titanConnected : Nat
  titanMode : Nat

namespace Process
variable (p : Process)

def fanout : RedisFanout := .connect p.config.toConfig p.reachable

def titanLoop : Option TitanLive.LoopConfig := spawnTitan p.platform p.config.toConfig p.fanout

def tritonLoop : Option TritonLive.LoopConfig := spawnTriton p.config.toConfig p.fanout

def shredLoop : Option UdpConfig := spawnShred p.platform p.config.toConfig p.fanout

def titanEffects : List TitanLive.TitanEffect :=
  p.titanLoop.elim [] fun cfg => TitanLive.loopEffects cfg p.titan

def tritonEffects : List TritonLive.TritonEffect :=
  p.tritonLoop.elim [] fun cfg => TritonLive.loopEffects cfg p.triton

/-- The stores to the flag `bound`: the shred task makes one. -/
def boundStores : List Bool := if p.shredLoop.isSome then [p.binds] else []

def boundAfter (n : Nat) : Bool := (p.boundStores.take n).getLast?.getD false

def loads (m : Moments) : StatusLoads where
  tritonBlocked := TritonLive.authBlockedAfter (p.tritonEffects.take m.tritonBlocked)
  triton :=
    { connected := connectedAfter (p.tritonEffects.take m.tritonConnected)
      mode := connectedAfter (p.tritonEffects.take m.tritonMode) }
  shred := { connected := p.boundAfter m.shredConnected, mode := p.boundAfter m.shredMode }
  titan :=
    { connected := connectedAfter (p.titanEffects.take m.titanConnected)
      mode := connectedAfter (p.titanEffects.take m.titanMode) }

/-- The Titan loop has been spawned and is then in a session. -/
def TitanOpen (n : Nat) : Prop :=
  ∃ cfg ∈ p.titanLoop, TitanLive.InSession cfg p.titan (p.titanEffects.take n)

def TritonOpen (n : Nat) : Prop :=
  ∃ cfg ∈ p.tritonLoop, TritonLive.InSession cfg p.triton (p.tritonEffects.take n)

/-- The Triton loop has been spawned, a session of it was denied, and it has ended. -/
def TritonDenied (n : Nat) : Prop :=
  ∃ cfg ∈ p.tritonLoop, TritonLive.Denied cfg p.triton ∧ p.tritonEffects.length ≤ n

/-- The shred task has been spawned and has bound its socket. -/
def ShredBound (n : Nat) : Prop := p.shredLoop.isSome ∧ p.binds = true ∧ 0 < n

theorem titan_connected_iff (n : Nat) :
    connectedAfter (p.titanEffects.take n) = true ↔ p.TitanOpen n := by
  unfold titanEffects TitanOpen
  cases hloop : p.titanLoop with
  | none => simp [connectedAfter]
  | some cfg =>
    have hiff := TitanLive.connected_iff (List.take_prefix n (TitanLive.loopEffects cfg p.titan))
    simpa [titanEffects, hloop] using hiff

theorem triton_connected_iff (n : Nat) :
    connectedAfter (p.tritonEffects.take n) = true ↔ p.TritonOpen n := by
  unfold tritonEffects TritonOpen
  cases hloop : p.tritonLoop with
  | none => simp [connectedAfter]
  | some cfg =>
    have hiff := TritonLive.connected_iff
      (List.take_prefix n (TritonLive.loopEffects cfg p.triton))
    simpa [tritonEffects, hloop] using hiff

theorem triton_blocked_iff (n : Nat) :
    TritonLive.authBlockedAfter (p.tritonEffects.take n) = true ↔ p.TritonDenied n := by
  unfold tritonEffects TritonDenied
  cases hloop : p.tritonLoop with
  | none => simp [TritonLive.authBlockedAfter]
  | some cfg =>
    have hiff := (TritonLive.blocked_iff
      (List.take_prefix n (TritonLive.loopEffects cfg p.triton))).1
    simpa [tritonEffects, hloop, List.take_eq_self_iff, and_comm] using hiff

theorem bound_iff (n : Nat) : p.boundAfter n = true ↔ p.ShredBound n := by
  unfold boundAfter boundStores ShredBound
  cases p.shredLoop <;> cases n <;> simp

end Process

/-- A status shows whether its task runs, and whether the upstream was connected at
the two loads. -/
structure UpstreamStatus.Shows (s : UpstreamStatus) (up down : String)
    (runs connected mode : Prop) : Prop where
  runs : s.mode ∈ [up, down] ↔ runs
  connected : s.connected = true ↔ connected
  mode : s.mode = up ↔ mode

namespace UpstreamStatus.Shows
variable {s : UpstreamStatus} {up down : String} {runs connected mode : Prop}

theorem ready {loads : FlagLoads} (hne : down ≠ up) (hs : s.connected = loads.connected)
    (hm : s.mode = if loads.mode then up else down) (hruns : runs)
    (hconnected : loads.connected = true ↔ connected) (hmode : loads.mode = true ↔ mode) :
    s.Shows up down runs connected mode := by
  constructor
  · rw [hm]
    cases loads.mode <;> simp [hruns]
  · rw [hs, hconnected]
  · rw [hm, ← hmode]
    cases loads.mode <;> simp [hne]

theorem idle (hs : s.connected = false) (hm : s.mode ∉ [up, down]) (hruns : ¬ runs)
    (hconnected : ¬ connected) (hmode : ¬ mode) : s.Shows up down runs connected mode := by
  rw [List.mem_cons, List.mem_singleton, not_or] at hm
  constructor <;> simp [hs, hm, hruns, hconnected, hmode]

end UpstreamStatus.Shows

/-- The hub's own look at the vaults changes nothing. -/
theorem shred_spawned_iff_ready (platform : Platform) (config : Config) (fanout : RedisFanout) :
    (spawnShred platform config fanout).isSome ↔
      ShredLiveState.resolve platform config = .ready := by
  unfold spawnShred ShredLiveState.resolve
  cases config.enableTritonShred <;> cases config.dryRun <;>
    cases config.shredWatchVaults <;> simp

theorem triton_spawned_iff_ready (config : Config) (fanout : RedisFanout) :
    (spawnTriton config fanout).isSome ↔ TritonLiveState.resolve config = .ready := by
  unfold spawnTriton
  by_cases h : TritonLiveState.resolve config = .ready
  · rw [if_pos h, Option.isSome_map]
    exact iff_of_true (triton_ready h) h
  · simp [h]

section
variable (p : Process) (m : Moments)

theorem titan_shows : (titanStatus p.platform p.config (p.loads m).titan).Shows "live/ws"
    "live/connecting" p.titanLoop.isSome (p.TitanOpen m.titanConnected)
    (p.TitanOpen m.titanMode) := by
  have hspawned : p.titanLoop.isSome ↔ _ := titan_spawned_iff p.platform p.config.toConfig p.fanout
  by_cases hready : TitanLiveState.resolve p.platform p.config.toConfig = .ready
  · unfold titanStatus
    rw [hready]
    exact .ready (by decide) rfl rfl (hspawned.mpr hready) (p.titan_connected_iff _)
      (p.titan_connected_iff _)
  · have hnone : p.titanLoop = none := by simpa [hready] using hspawned
    have hclosed : ∀ n, ¬ p.TitanOpen n := by simp [Process.TitanOpen, hnone]
    have hruns : ¬ p.titanLoop.isSome := by simp [hnone]
    unfold titanStatus
    cases hstate : TitanLiveState.resolve p.platform p.config.toConfig with
    | ready => exact absurd hstate hready
    | _ => exact .idle rfl (by simp) hruns (hclosed _) (hclosed _)

theorem shred_shows : (shredStatus p.platform p.config (p.loads m).shred).Shows "live/udp"
    "live/binding" p.shredLoop.isSome (p.ShredBound m.shredConnected)
    (p.ShredBound m.shredMode) := by
  have hspawned : p.shredLoop.isSome ↔
      ShredLiveState.resolve p.platform p.config.toConfig = .ready :=
    shred_spawned_iff_ready p.platform p.config.toConfig p.fanout
  by_cases hready : ShredLiveState.resolve p.platform p.config.toConfig = .ready
  · unfold shredStatus
    rw [hready]
    exact .ready (by decide) rfl rfl (hspawned.mpr hready) (p.bound_iff _) (p.bound_iff _)
  · have hruns : ¬ p.shredLoop.isSome := hready ∘ hspawned.mp
    have hclosed : ∀ n, ¬ p.ShredBound n := fun n hbound => hruns hbound.1
    unfold shredStatus
    cases hstate : ShredLiveState.resolve p.platform p.config.toConfig with
    | ready => exact absurd hstate hready
    | _ => exact .idle rfl (by simp) hruns (hclosed _) (hclosed _)

/-- A denied upstream is shown as such, whatever its state. -/
theorem triton_shows : (tritonStatus p.config (p.loads m).tritonBlocked (p.loads m).triton).Shows
    "live/grpc" "live/connecting" (p.tritonLoop.isSome ∧ ¬ p.TritonDenied m.tritonBlocked)
    (p.TritonOpen m.tritonConnected ∧ ¬ p.TritonDenied m.tritonBlocked)
    (p.TritonOpen m.tritonMode ∧ ¬ p.TritonDenied m.tritonBlocked) := by
  have hblocked : (p.loads m).tritonBlocked = true ↔ p.TritonDenied m.tritonBlocked :=
    p.triton_blocked_iff m.tritonBlocked
  have hspawned : p.tritonLoop.isSome ↔ TritonLiveState.resolve p.config.toConfig = .ready :=
    triton_spawned_iff_ready p.config.toConfig p.fanout
  unfold tritonStatus
  by_cases hdenied : p.TritonDenied m.tritonBlocked
  · rw [if_pos (hblocked.mpr hdenied)]
    exact .idle rfl (by simp) (by simp [hdenied]) (by simp [hdenied]) (by simp [hdenied])
  · rw [if_neg (hdenied ∘ hblocked.mp)]
    simp only [hdenied, not_false_eq_true, and_true]
    by_cases hready : TritonLiveState.resolve p.config.toConfig = .ready
    · rw [hready]
      exact .ready (by decide) rfl rfl (hspawned.mpr hready) (p.triton_connected_iff _)
        (p.triton_connected_iff _)
    · have hruns : ¬ p.tritonLoop.isSome := hready ∘ hspawned.mp
      have hclosed : ∀ n, ¬ p.TritonOpen n := by
        rintro n ⟨cfg, hcfg, -⟩
        exact hruns (Option.isSome_of_mem hcfg)
      cases hstate : TritonLiveState.resolve p.config.toConfig with
      | ready => exact absurd hstate hready
      | _ => exact .idle rfl (by simp) hruns (hclosed _) (hclosed _)

theorem titan_labels (loads : FlagLoads) :
    (titanStatus p.platform p.config loads).name = "titan_ws" ∧
      (titanStatus p.platform p.config loads).enabled = p.config.enableTitanWs := by
  unfold titanStatus
  cases TitanLiveState.resolve p.platform p.config.toConfig <;> exact ⟨rfl, rfl⟩

theorem shred_labels (loads : FlagLoads) :
    (shredStatus p.platform p.config loads).name = "triton_shred_udp" ∧
      (shredStatus p.platform p.config loads).enabled = p.config.enableTritonShred := by
  unfold shredStatus
  cases ShredLiveState.resolve p.platform p.config.toConfig <;> exact ⟨rfl, rfl⟩

theorem triton_labels (blocked : Bool) (loads : FlagLoads) :
    (tritonStatus p.config blocked loads).name = "triton_grpc" ∧
      (tritonStatus p.config blocked loads).enabled = p.config.enableTritonGrpc := by
  unfold tritonStatus
  split
  · exact ⟨rfl, rfl⟩
  · cases TritonLiveState.resolve p.config.toConfig <;> exact ⟨rfl, rfl⟩

theorem triton_denied_shown :
    (tritonStatus p.config (p.loads m).tritonBlocked (p.loads m).triton).mode =
      "error/auth-denied" ↔ p.TritonDenied m.tritonBlocked := by
  have hblocked : (p.loads m).tritonBlocked = true ↔ p.TritonDenied m.tritonBlocked :=
    p.triton_blocked_iff m.tritonBlocked
  rw [← hblocked]
  unfold tritonStatus
  cases (p.loads m).tritonBlocked with
  | true => simp
  | false =>
    cases TritonLiveState.resolve p.config.toConfig with
    | ready => cases (p.loads m).triton.mode <;> simp
    | _ => simp

end

end FeedMux
