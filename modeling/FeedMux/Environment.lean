import FeedMux.Boot
import FeedMux.Titan.PubkeyEncodings

/-!
# The configuration from the environment (`src/config.rs`)

A flag is on if its text is one of four words in any case; a dry run is the
default. `starts_iff` says which environments start which upstream, and
`vault_lists` how the lenient reader of the watched vaults, which skips what it
cannot read, relates to the strict one of `src/shred/vault_watch.rs`.
-/

namespace FeedMux
open FeedMux.Library FeedMux.Titan FeedMux.Upstream

/-- The variables that are set to a text. -/
abbrev Env := String → Option String

/-- The whole of `Config`: also what no upstream is started from. -/
structure FullConfig extends Config where
  bindAddr : String
  enableChainstack : Bool
  chainstackRpcUrl : Option String
  chainstackWsUrl : Option String
  enableHelius : Bool
  heliusRpcUrl : Option String
  tritonRateLimitRps : UInt32
  tritonLocalBind : String
  titanRateLimitRps : UInt32
  titanLocalBind : String
  mockPublishIntervalSecs : UInt64

section
variable (env : Env)

def envOr (key default : String) : String := (env key).getD default

def envOptional (key : String) : Option String := (env key).filter fun s => !isBlank s

/-- The words that turn a flag on. No character outside ASCII has one of their
letters as its lower case. -/
def onWords : List (List Char) := ["1", "true", "yes", "on"].map String.toList

def isOnWord (text : String) : Bool := onWords.contains (toAsciiLowercase text)

def envBool (key : String) (default : Bool) : Bool := ((env key).map isOnWord).getD default

def parseU32 (s : List Char) : Option UInt32 :=
  (parseU64 s).bind fun n => if n.toNat < 2 ^ 32 then some (UInt32.ofNat n.toNat) else none

def envU32 (key : String) (default : UInt32) : UInt32 :=
  ((env key).bind fun v => parseU32 v.toList).getD default

def envU64 (key : String) (default : UInt64) : UInt64 :=
  ((env key).bind fun v => parseU64 v.toList).getD default

def envUsize (key : String) (default : Nat) : Nat :=
  ((env key).bind fun v => (parseU64 v.toList).map UInt64.toNat).getD default

variable (bs58 : Bs58)

/-- The parts of a list that are not blank, trimmed. -/
def listEntries (raw : String) : List String :=
  ((raw.toList.splitOn ',').map trim).filter (fun part => !part.isEmpty) |>.map String.ofList

/-- Entries that cannot be read are skipped. -/
def parseShredWatchVaultsFromEnv : List Pubkey :=
  match env "SHRED_WATCH_VAULTS" with
  | none => []
  | some raw =>
    if isBlank raw then []
    else (listEntries raw).filterMap fun entry => (parseWalletPubkey bs58 entry).toOption

/-- The first entry that cannot be read is the error. -/
def parseVaultList (raw : String) : Except String (List Pubkey) := do
  let out ← (listEntries raw).mapM (parseWalletPubkey bs58)
  if out.isEmpty then .error "SHRED_WATCH_VAULTS is empty" else .ok out

def FullConfig.fromEnv : FullConfig where
  bindAddr := envOr env "BIND_ADDR" "127.0.0.1:8787"
  dryRun := envBool env "DRY_RUN" true
  redisUrl := (env "REDIS_URL").filter fun s => !s.isEmpty
  redisChannel := envOr env "REDIS_CHANNEL" "feed:350"
  enableChainstack := envBool env "ENABLE_CHAINSTACK" false
  chainstackRpcUrl := envOptional env "CHAINSTACK_RPC_URL"
  chainstackWsUrl := envOptional env "CHAINSTACK_WS_URL"
  enableHelius := envBool env "ENABLE_HELIUS" false
  heliusRpcUrl := envOptional env "HELIUS_RPC_URL"
  enableTritonGrpc := envBool env "ENABLE_TRITON_GRPC" false
  tritonGrpcUrl := envOptional env "TRITON_GRPC_URL"
  tritonGrpcToken := envOptional env "TRITON_GRPC_TOKEN"
  tritonRateLimitRps := envU32 env "TRITON_RATE_LIMIT_RPS" 25
  tritonLocalBind := envOr env "TRITON_LOCAL_BIND" "127.0.0.1:19000"
  enableTitanWs := envBool env "ENABLE_TITAN_WS" false
  titanWsUrl := envOptional env "TITAN_WS_URL"
  titanWalletPubkey := envOptional env "TITAN_WALLET_PUBKEY"
  titanRateLimitRps := envU32 env "TITAN_RATE_LIMIT_RPS" 15
  titanLocalBind := envOr env "TITAN_LOCAL_BIND" "127.0.0.1:19001"
  titanHuntSizeLamports := envOptional env "TITAN_HUNT_SIZE_LAMPORTS"
  titanHop1TtlSecs := envU64 env "TITAN_HOP1_TTL_SECS" 2
  enableTritonShred := envBool env "ENABLE_TRITON_SHRED" false
  shredBind := envOr env "SHRED_BIND" "0.0.0.0:8003"
  shredWatchVaults := parseShredWatchVaultsFromEnv env bs58
  shredHitTtlSecs := envU64 env "SHRED_HIT_TTL_SECS" 2
  shredUdpPrefixSkip := envUsize env "SHRED_UDP_PREFIX_SKIP" 0
  mockPublishIntervalSecs := envU64 env "MOCK_PUBLISH_INTERVAL_SECS" 30

end

/-! ## The watched vaults -/

def errorOf {α ε : Type} : Except ε α → Option ε
  | .error e => some e
  | .ok _ => none

/-- Reading all entries, and skipping those that cannot be read. -/
theorem mapM_eq {α β ε : Type} (f : α → Except ε β) (l : List α) :
    l.mapM f =
      match l.findSome? fun x => errorOf (f x) with
      | some e => .error e
      | none => .ok (l.filterMap fun x => (f x).toOption) := by
  induction l with
  | nil => rfl
  | cons x l ih =>
    rw [List.mapM_cons, List.findSome?_cons, List.filterMap_cons]
    cases hx : f x with
    | error e => rfl
    | ok y =>
      rw [ih]
      cases l.findSome? fun x => errorOf (f x) <;> rfl

theorem errorOf_eq_none {α ε : Type} {r : Except ε α} : errorOf r = none ↔ r.isOk := by
  cases r <;> simp [errorOf, Except.isOk, Except.toBool]

theorem splitOn_blank {text : List Char} (h : (trim text).isEmpty) :
    ((text.splitOn ',').map trim).filter (fun part => !part.isEmpty) = [] := by
  have hsep : isWhitespace ',' = false := by decide
  have hstrip : (text.splitOn ',').map trim = ((trim text).splitOn ',').map trim :=
    (map_strip_splitOn hsep text).symm
  rw [hstrip, List.isEmpty_iff.mp h]
  decide

/-- A blank text has no entries, so the early return changes nothing. -/
theorem lenient_eq (env : Env) (bs58 : Bs58) : parseShredWatchVaultsFromEnv env bs58 =
    (listEntries ((env "SHRED_WATCH_VAULTS").getD "")).filterMap fun entry =>
      (parseWalletPubkey bs58 entry).toOption := by
  unfold parseShredWatchVaultsFromEnv
  cases env "SHRED_WATCH_VAULTS" with
  | none => simp [listEntries, trim]
  | some raw =>
    simp only [Option.getD_some]
    split
    · rename_i hblank
      rw [listEntries, splitOn_blank hblank]
      rfl
    · rfl

/-- **Two readers of vaults.** The strict reader fails with the error of the first
entry that the lenient one skips, or when there is none to keep; otherwise both
read the same vaults. -/
theorem vault_lists (env : Env) (bs58 : Bs58) :
    let raw := (env "SHRED_WATCH_VAULTS").getD ""
    let lenient := parseShredWatchVaultsFromEnv env bs58
    parseVaultList bs58 raw =
        (match (listEntries raw).findSome? fun e => errorOf (parseWalletPubkey bs58 e) with
        | some e => .error e
        | none => if lenient = [] then .error "SHRED_WATCH_VAULTS is empty" else .ok lenient) ∧
      ∀ vaults, parseVaultList bs58 raw = .ok vaults ↔
        vaults ≠ [] ∧ lenient = vaults ∧
          ∀ entry ∈ listEntries raw, (parseWalletPubkey bs58 entry).isOk := by
  intro raw lenient
  have hlenient : lenient = (listEntries raw).filterMap fun entry =>
      (parseWalletPubkey bs58 entry).toOption := lenient_eq env bs58
  have hstrict : parseVaultList bs58 raw =
      (match (listEntries raw).findSome? fun e => errorOf (parseWalletPubkey bs58 e) with
      | some e => .error e
      | none => if lenient = [] then .error "SHRED_WATCH_VAULTS is empty" else .ok lenient) := by
    rw [parseVaultList, mapM_eq, hlenient]
    cases (listEntries raw).findSome? fun e => errorOf (parseWalletPubkey bs58 e) with
    | some e => rfl
    | none => simp [bind, Except.bind]
  refine ⟨hstrict, fun vaults => ?_⟩
  rw [hstrict]
  cases hfirst : (listEntries raw).findSome? fun e => errorOf (parseWalletPubkey bs58 e) with
  | some e =>
    have hbad : ¬ ∀ entry ∈ listEntries raw, (parseWalletPubkey bs58 entry).isOk := by
      intro hall
      obtain ⟨entry, hmem, he⟩ := List.exists_of_findSome?_eq_some hfirst
      rw [errorOf_eq_none.mpr (hall entry hmem)] at he
      cases he
    simp [hbad]
  | none =>
    have hall : ∀ entry ∈ listEntries raw, (parseWalletPubkey bs58 entry).isOk :=
      fun entry hmem => errorOf_eq_none.mp (List.findSome?_eq_none_iff.mp hfirst entry hmem)
    by_cases hnil : lenient = []
    · simp only [hnil, if_true]
      constructor
      · intro h
        cases h
      · rintro ⟨hne, rfl, -⟩
        exact absurd rfl hne
    · simp only [hnil, if_false, Except.ok.injEq]
      constructor
      · rintro rfl
        exact ⟨hnil, rfl, hall⟩
      · exact fun h => h.2.1

/-! ## What an environment starts -/

def IsOn (env : Env) (key : String) : Prop := ∃ text ∈ env key, isOnWord text = true

/-- Set, but to none of the words that turn a flag on. -/
def IsOff (env : Env) (key : String) : Prop := ∃ text ∈ env key, isOnWord text = false

def IsFilled (env : Env) (key : String) : Prop := ∃ text ∈ env key, isBlank text = false

section
variable {env : Env} {key : String}

theorem envBool_false_iff : envBool env key true = false ↔ IsOff env key := by
  unfold envBool IsOff
  cases env key <;> simp

theorem envBool_true_iff : envBool env key false = true ↔ IsOn env key := by
  unfold envBool IsOn
  cases env key <;> simp

theorem envOptional_eq_some {text : String} :
    envOptional env key = some text ↔ env key = some text ∧ isBlank text = false := by
  unfold envOptional
  rw [Option.filter_eq_some_iff]
  simp

theorem envOptional_isSome : (envOptional env key).isSome ↔ IsFilled env key := by
  rw [Option.isSome_iff_exists]
  simp only [envOptional_eq_some]
  rfl

end

section
variable (platform : Platform) (config : Config) (fanout : RedisFanout)

theorem titan_spawned_iff : (spawnTitan platform config fanout).isSome ↔
    TitanLiveState.resolve platform config = .ready := by
  unfold spawnTitan
  by_cases h : TitanLiveState.resolve platform config = .ready
  · rw [if_pos h, Option.isSome_map]
    exact iff_of_true (titan_ready h).2 h
  · simp [h]

theorem not_blank_of_isOk {bs58 : Bs58} {text : String}
    (h : (parseWalletPubkey bs58 text).isOk) : isBlank text = false := by
  by_contra hb
  rw [Bool.not_eq_false, isBlank] at hb
  rw [parseWalletPubkey, if_pos hb] at h
  cases h

theorem titan_ready_iff : TitanLiveState.resolve platform config = .ready ↔
    config.dryRun = false ∧ config.enableTitanWs = true ∧ config.titanWsUrl.isSome ∧
      ∃ text ∈ config.titanWalletPubkey, (parseWalletPubkey platform.bs58 text).isOk := by
  have hsome : ∀ r : Except String Pubkey, r.toOption.isSome = r.isOk := by
    intro r
    cases r <;> rfl
  unfold TitanLiveState.resolve
  cases config.enableTitanWs <;> cases config.dryRun <;>
    cases config.titanWsUrl <;> cases config.titanWalletPubkey <;> simp
  rename_i text
  cases hok : (parseWalletPubkey platform.bs58 text).isOk with
  | true => simp [not_blank_of_isOk hok, hsome, hok]
  | false => cases isBlank text <;> simp [hsome, hok]

theorem triton_spawned_iff : (spawnTriton config fanout).isSome ↔
    config.dryRun = false ∧ config.enableTritonGrpc = true ∧
      ∃ url ∈ config.tritonGrpcUrl, isBlank url = false := by
  unfold spawnTriton TritonLiveState.resolve
  cases config.enableTritonGrpc <;> cases config.dryRun <;>
    cases config.tritonGrpcUrl <;> simp

theorem shred_spawned_iff : (spawnShred platform config fanout).isSome ↔
    config.dryRun = false ∧ config.enableTritonShred = true ∧ config.shredWatchVaults ≠ [] ∧
      ∃ port ∈ platform.parseSocketAddr config.shredBind, port ≠ keepShredPort := by
  unfold spawnShred ShredLiveState.resolve shredBindConflictsWithKeep
  cases config.enableTritonShred <;> cases config.dryRun <;>
    cases config.shredWatchVaults <;> cases platform.parseSocketAddr config.shredBind <;> simp

end

theorem lenient_ne_nil (env : Env) (bs58 : Bs58) : parseShredWatchVaultsFromEnv env bs58 ≠ [] ↔
    ∃ raw ∈ env "SHRED_WATCH_VAULTS", ∃ entry ∈ listEntries raw,
      (parseWalletPubkey bs58 entry).isOk := by
  rw [lenient_eq, ne_eq, List.filterMap_eq_nil_iff]
  have hnone : ∀ r : Except String Pubkey, r.toOption = none ↔ ¬ r.isOk := by
    intro r
    cases r <;> simp [Except.toOption, Except.isOk, Except.toBool]
  cases env "SHRED_WATCH_VAULTS" with
  | none => simp [listEntries, trim]
  | some raw => simp [hnone]

/-- **Starting up.** Each upstream is started by exactly these environments; in
particular none is unless `DRY_RUN` is set to something that does not turn it on. -/
theorem starts_iff (platform : Platform) (env : Env) (fanout : RedisFanout) :
    let config := (FullConfig.fromEnv env platform.bs58).toConfig
    ((spawnTitan platform config fanout).isSome ↔
      IsOff env "DRY_RUN" ∧ IsOn env "ENABLE_TITAN_WS" ∧ IsFilled env "TITAN_WS_URL" ∧
        ∃ text ∈ env "TITAN_WALLET_PUBKEY", (parseWalletPubkey platform.bs58 text).isOk) ∧
      ((spawnTriton config fanout).isSome ↔
        IsOff env "DRY_RUN" ∧ IsOn env "ENABLE_TRITON_GRPC" ∧ IsFilled env "TRITON_GRPC_URL") ∧
      ((spawnShred platform config fanout).isSome ↔
        IsOff env "DRY_RUN" ∧ IsOn env "ENABLE_TRITON_SHRED" ∧
          (∃ raw ∈ env "SHRED_WATCH_VAULTS", ∃ entry ∈ listEntries raw,
            (parseWalletPubkey platform.bs58 entry).isOk) ∧
          ∃ port ∈ platform.parseSocketAddr ((env "SHRED_BIND").getD "0.0.0.0:8003"),
            port ≠ 8002) := by
  intro config
  refine ⟨?_, ?_, ?_⟩
  · have hwallet : (∃ text ∈ config.titanWalletPubkey,
        (parseWalletPubkey platform.bs58 text).isOk) ↔
        ∃ text ∈ env "TITAN_WALLET_PUBKEY", (parseWalletPubkey platform.bs58 text).isOk := by
      refine exists_congr fun text => and_congr_left fun hok => ?_
      exact envOptional_eq_some.trans (and_iff_left (not_blank_of_isOk hok))
    rw [titan_spawned_iff, titan_ready_iff, hwallet]
    exact and_congr envBool_false_iff (and_congr envBool_true_iff
      (and_congr envOptional_isSome Iff.rfl))
  · rw [triton_spawned_iff]
    refine and_congr envBool_false_iff (and_congr envBool_true_iff (exists_congr fun url => ?_))
    rw [Option.mem_def]
    exact (and_congr_left fun _ => envOptional_eq_some).trans (by simp)
  · rw [shred_spawned_iff]
    exact and_congr envBool_false_iff (and_congr envBool_true_iff
      (and_congr (lenient_ne_nil env platform.bs58) Iff.rfl))

end FeedMux
