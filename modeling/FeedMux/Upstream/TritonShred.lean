import FeedMux.Mints
import FeedMux.RedisFanout
import FeedMux.Shred.Layout
import FeedMux.Shred.Reassembly

/-!
# The UDP shred pipeline (`src/upstream/triton_shred.rs`)

`udpBody` is the body of `run_udp_loop` for one received datagram: strip the
prefix, parse, push, scan. It never panics (`udpBody_eq`), and over a run in
which no set is evicted every datagram's batch and wakes are those of the
reference: the shreds of its own key since the key's last batch.
-/

namespace FeedMux.Upstream
open FeedMux.Library FeedMux.Shred

structure ShredStats where
  shreds : UInt64 := 0
  txsDeshredded : UInt64 := 0
  vaultHits : UInt64 := 0
  lastMs : UInt64 := 0
  lastHitMs : UInt64 := 0
  bound : Bool := false
  deriving DecidableEq, Repr

namespace ShredStats

def recordShred (stats : ShredStats) (ts : UInt64) : ShredStats :=
  { stats with shreds := stats.shreds + 1, lastMs := ts }

def recordDeshred (stats : ShredStats) (txCount : Nat) : ShredStats :=
  { stats with txsDeshredded := stats.txsDeshredded + UInt64.ofNat txCount }

def recordVaultHit (stats : ShredStats) (ts : UInt64) : ShredStats :=
  { stats with vaultHits := stats.vaultHits + 1, lastHitMs := ts }

end ShredStats

/-- A datagram with the clocks read while it is handled. -/
structure Datagram where
  bytes : Bytes
  src : String
  nowMs : UInt64
  /-- `Utc::now().to_rfc3339()` at the wake for a vault. -/
  utc : VaultHit → String

structure UdpConfig where
  bs58 : Bs58
  fanout : RedisFanout
  vaults : VaultWatchSet
  hitTtlSecs : UInt64
  udpPrefixSkip : Nat

structure UdpState where
  reassembler : ShredReassembler
  stats : ShredStats := {}

/-- The loop starts with `ShredReassembler::new(256)` and a bound socket. -/
def UdpState.start (stats : ShredStats) : UdpState where
  reassembler := .new 256
  stats := { stats with bound := true }

/-- What one datagram makes visible: its batch, the Redis calls, and the
payloads handed to `fanout.publish`. -/
structure UdpOutput where
  batch : Option DeshredBatch
  calls : List (RedisCall Unit)
  wakes : List FeedPayload
  deriving DecidableEq, Repr

/-- `recv_from` stores what fits into the buffer. -/
def recvFrom (datagram : Bytes) : Bytes := datagram.take maxDatagramSize

def wakeOf (batch : DeshredBatch) (src : String) (hit : VaultHit) : Wake where
  vault := hit.vaultB58
  slot := batch.slot
  fecSetIndex := batch.fecSetIndex
  src := src

def wakePayload (d : Datagram) (batch : DeshredBatch) (hit : VaultHit) : FeedPayload where
  event := "shred.vault_hit"
  source := "triton_shred_udp"
  ts := d.utc hit
  data := some (.shredWake (wakeOf batch d.src hit))

/-- From the parsed packet on. -/
def udpHandle (cfg : UdpConfig) (st : UdpState) (d : Datagram)
    (parsed : Option ParsedDataShred) : UdpState × UdpOutput :=
  let ts := d.nowMs
  let stats := st.stats.recordShred ts
  let frame := cfg.fanout.recordShredFrame ts
  match parsed with
  | none => ({ st with stats }, ⟨none, frame, []⟩)
  | some shred =>
    match st.reassembler.push shred with
    | (reassembler, none) => (⟨reassembler, stats⟩, ⟨none, frame, []⟩)
    | (reassembler, some batch) =>
      let txCount := VaultWatchSet.countTransactionsEstimate batch.bytes
      let stats := stats.recordDeshred txCount
      let hits := cfg.vaults.scanHits cfg.bs58 batch.bytes
      let stats := hits.foldl (fun stats _ => stats.recordVaultHit ts) stats
      let published := hits.flatMap fun hit =>
        cfg.fanout.publishShredHit hit batch.slot batch.fecSetIndex d.src cfg.hitTtlSecs ts
      (⟨reassembler, stats⟩,
        ⟨some batch, frame ++ cfg.fanout.recordShredDeshred txCount ts ++ published,
          hits.map (wakePayload d batch)⟩)

def udpBody (cfg : UdpConfig) (st : UdpState) (d : Datagram) :
    Except Panic (UdpState × UdpOutput) := do
  let buf := recvFrom d.bytes
  let size := buf.length
  let start := min cfg.udpPrefixSkip size
  let packet ← slice buf start size
  return udpHandle cfg st d (← parseDataShred packet)

/-- What the parser makes of a datagram. -/
def shredOf (cfg : UdpConfig) (d : Datagram) : Option ParsedDataShred :=
  (parseDataShred ((recvFrom d.bytes).drop cfg.udpPrefixSkip)).toOption.join

def udpStep (cfg : UdpConfig) (st : UdpState) (d : Datagram) : UdpState × UdpOutput :=
  udpHandle cfg st d (shredOf cfg d)

theorem shredOf_eq (cfg : UdpConfig) (d : Datagram) :
    shredOf cfg d = accepted ((recvFrom d.bytes).drop cfg.udpPrefixSkip) := by
  rw [shredOf, parseDataShred_eq]
  rfl

theorem shredOf_payload {cfg : UdpConfig} {d : Datagram} {shred : ParsedDataShred}
    (h : shredOf cfg d = some shred) : shred.payload ≠ [] := by
  rw [shredOf_eq] at h
  exact accepted_payload_ne_nil h

theorem drop_min_length {α : Type*} (n : Nat) (l : List α) :
    l.drop (min n l.length) = l.drop n := by
  rcases Nat.le_total n l.length with h | h
  · rw [Nat.min_eq_left h]
  · rw [Nat.min_eq_right h, List.drop_length, List.drop_eq_nil_of_le h]

/-- No datagram aborts the task. -/
theorem udpBody_eq (cfg : UdpConfig) (st : UdpState) (d : Datagram) :
    udpBody cfg st d = .ok (udpStep cfg st d) := by
  unfold udpBody udpStep
  simp only [slice_ok _ (Nat.min_le_right ..) (Nat.le_refl _), List.take_length, drop_min_length]
  simp only [Bind.bind, Except.bind, parseDataShred_eq, shredOf_eq]
  rfl

/-! ## One datagram -/

theorem udpStep_reassembler (cfg : UdpConfig) (st : UdpState) (d : Datagram) :
    (udpStep cfg st d).1.reassembler =
      (runs ShredReassembler.push st.reassembler (shredOf cfg d).toList).1 := by
  unfold udpStep udpHandle
  cases shredOf cfg d with
  | none => rfl
  | some shred =>
    simp only [Option.toList_some, runs_cons, runs_nil]
    split <;> simp_all

theorem udpStep_batch (cfg : UdpConfig) (st : UdpState) (d : Datagram) :
    (udpStep cfg st d).2.batch =
      (shredOf cfg d).bind fun shred => (st.reassembler.push shred).2 := by
  unfold udpStep udpHandle
  cases shredOf cfg d with
  | none => rfl
  | some shred =>
    simp only [Option.bind_some]
    split <;> simp_all

theorem udpStep_wakes (cfg : UdpConfig) (st : UdpState) (d : Datagram) :
    (udpStep cfg st d).2.wakes =
      ((udpStep cfg st d).2.batch.toList).flatMap fun batch =>
        (cfg.vaults.scanHits cfg.bs58 batch.bytes).map (wakePayload d batch) := by
  unfold udpStep udpHandle
  cases shredOf cfg d with
  | none => rfl
  | some shred =>
    simp only
    split <;> simp

/-! ## Runs -/

/-- The shreds a list of datagrams delivers. -/
def delivered (cfg : UdpConfig) (ds : List Datagram) : List ParsedDataShred :=
  ds.filterMap (shredOf cfg)

theorem delivered_payload {cfg : UdpConfig} {ds : List Datagram} :
    ∀ shred ∈ delivered cfg ds, shred.payload ≠ [] := by
  intro shred hs
  obtain ⟨d, _, hd⟩ := List.mem_filterMap.mp hs
  exact shredOf_payload hd

/-- Datagrams that do not parse leave the reassembler alone. -/
theorem run_reassembler (cfg : UdpConfig) (st : UdpState) (ds : List Datagram) :
    (runs (udpStep cfg) st ds).1.reassembler =
      (runs ShredReassembler.push st.reassembler (delivered cfg ds)).1 := by
  induction ds using List.reverseRecOn with
  | nil => rfl
  | append_singleton ds d ih =>
    have hd : delivered cfg (ds ++ [d]) = delivered cfg ds ++ (shredOf cfg d).toList := by
      unfold delivered
      rw [List.filterMap_append]
      cases h : shredOf cfg d <;> simp [h]
    rw [runs_concat, udpStep_reassembler, hd, runs_append, ih]

/-! ## The reference -/

/-- No set is evicted while these datagrams are handled. -/
def NothingEvicted (cfg : UdpConfig) (ds : List Datagram) : Prop :=
  (ShredReassembler.new 256).NeverEvicts (delivered cfg ds)

/-- The shreds delivered for a key. -/
def keyHistory (cfg : UdpConfig) (k : SetKey) (ds : List Datagram) : List ParsedDataShred :=
  (delivered cfg ds).filter fun shred => shred.key = k

/-- What handling `d` after `past` is to make visible. -/
structure MatchesReference (cfg : UdpConfig) (past : List Datagram) (d : Datagram)
    (out : UdpOutput) : Prop where
  emits : out.batch.isSome ↔ ∃ shred, shredOf cfg d = some shred ∧ shred.dataComplete
  bytes : ∀ batch, out.batch = some batch → ∃ shred, shredOf cfg d = some shred ∧
    batch = ⟨shred.slot, shred.fecSetIndex,
      assemble (pending shred.key (delivered cfg past) ++ [shred])⟩
  silent : out.batch = none → out.wakes = []
  wakes : ∀ batch, out.batch = some batch → ∃ hits : List Pubkey, hits.Nodup ∧
    (∀ vault, vault ∈ hits ↔ vault ∈ cfg.vaults.vaults ∧ vault.bytes <:+: batch.bytes) ∧
    out.wakes.map FeedPayload.data = hits.map fun vault =>
      some (.shredWake ⟨cfg.bs58.encode vault.bytes, batch.slot, batch.fecSetIndex, d.src⟩)

section
variable {cfg : UdpConfig} {stats : ShredStats} {pre post : List Datagram} {d : Datagram}

/-- The batch of a datagram is that of its own key's pending shreds. -/
theorem batch_at (hn : NothingEvicted cfg (pre ++ d :: post)) :
    (udpStep cfg (runs (udpStep cfg) (.start stats) pre).1 d).2.batch =
      (shredOf cfg d).bind fun shred =>
        batchAfter (pending shred.key (delivered cfg pre)) shred := by
  rw [udpStep_batch, run_reassembler]
  cases h : shredOf cfg d with
  | none => rfl
  | some shred =>
    have hd : delivered cfg (pre ++ d :: post) =
        delivered cfg pre ++ shred :: delivered cfg post := by
      unfold delivered
      rw [List.filterMap_append, List.filterMap_cons_some h]
    have hp : ∀ shred ∈ delivered cfg (pre ++ d :: post), shred.payload ≠ [] := delivered_payload
    unfold NothingEvicted at hn
    rw [hd] at hn hp
    have hout := ShredReassembler.push_output rfl hn hp
    rw [runs_output] at hout
    exact Option.some.inj hout

theorem wakePayload_data (d : Datagram) (batch : DeshredBatch) (hits : List VaultHit) :
    (hits.map (wakePayload d batch)).map FeedPayload.data =
      hits.map fun hit => some (.shredWake (wakeOf batch d.src hit)) := by
  rw [List.map_map]
  rfl

theorem matches_reference (hn : NothingEvicted cfg (pre ++ d :: post)) :
    MatchesReference cfg pre d (udpStep cfg (runs (udpStep cfg) (.start stats) pre).1 d).2 := by
  have hb : (udpStep cfg (runs (udpStep cfg) (.start stats) pre).1 d).2.batch = _ := batch_at hn
  have hw := udpStep_wakes cfg (runs (udpStep cfg) (.start stats) pre).1 d
  generalize (udpStep cfg (runs (udpStep cfg) (.start stats) pre).1 d).2 = out at hb hw
  constructor
  case emits =>
    rw [hb]
    cases shredOf cfg d with
    | none => simp
    | some shred => cases hc : shred.dataComplete <;> simp [batchAfter, hc]
  case bytes =>
    intro batch hbatch
    rw [hb] at hbatch
    obtain ⟨shred, hs, hshred⟩ := Option.bind_eq_some_iff.mp hbatch
    refine ⟨shred, hs, ?_⟩
    unfold batchAfter at hshred
    split at hshred
    · exact (Option.some.inj hshred).symm
    · cases hshred
  case silent =>
    intro hnone
    rw [hw, hnone]
    rfl
  case wakes =>
    intro batch hbatch
    obtain ⟨hnodup, hmem⟩ := cfg.vaults.scanHits_vaults cfg.bs58 batch.bytes
    refine ⟨_, hnodup, hmem, ?_⟩
    rw [hw, hbatch, Option.toList_some, List.flatMap_singleton, wakePayload_data, List.map_map]
    apply List.map_congr_left
    intro hit hh
    rw [VaultWatchSet.scanHits_eq] at hh
    obtain ⟨vault, _, rfl⟩ := List.mem_map.mp hh
    rfl

end

/-- **The pipeline against its reference.** Without evictions, every datagram
of a run makes visible what the reference says, and nothing in that depends on
datagrams of other keys or on datagrams that do not parse. -/
theorem pipeline_refines_reference (cfg : UdpConfig) (stats : ShredStats)
    (pre post : List Datagram) (d : Datagram) (hn : NothingEvicted cfg (pre ++ d :: post)) :
    ∃ st outs out, runExcept (udpBody cfg) (.start stats) (pre ++ d :: post) = .ok (st, outs) ∧
      outs[pre.length]? = some out ∧ MatchesReference cfg pre d out ∧
      ∀ stats' pre' post' st' outs' out', NothingEvicted cfg (pre' ++ d :: post') →
        runExcept (udpBody cfg) (.start stats') (pre' ++ d :: post') = .ok (st', outs') →
        outs'[pre'.length]? = some out' →
        (∀ shred, shredOf cfg d = some shred →
          keyHistory cfg shred.key pre' = keyHistory cfg shred.key pre) →
        out'.batch = out.batch ∧ out'.wakes = out.wakes := by
  refine ⟨_, _, _, runExcept_eq_runs (udpBody_eq cfg) _ _, runs_output .., matches_reference hn, ?_⟩
  intro stats' pre' post' st' outs' out' hn' hrun' hout' hsame
  rw [runExcept_eq_runs (udpBody_eq cfg)] at hrun'
  obtain ⟨rfl, rfl⟩ := Prod.mk.inj (Except.ok.inj hrun')
  rw [runs_output] at hout'
  obtain rfl := Option.some.inj hout'
  have hbatch : (udpStep cfg (runs (udpStep cfg) (.start stats') pre').1 d).2.batch =
      (udpStep cfg (runs (udpStep cfg) (.start stats) pre).1 d).2.batch := by
    rw [batch_at hn, batch_at hn']
    apply Option.bind_congr
    intro shred hs
    rw [← pending_filter, ← pending_filter _ (delivered cfg pre)]
    exact congrArg (fun past => batchAfter (pending shred.key past) shred) (hsame shred hs)
  exact ⟨hbatch, by rw [udpStep_wakes, udpStep_wakes, hbatch]⟩

/-! A vault that straddles two datagrams, behind a prefix of two bytes. -/

def straddledVault : Pubkey := ⟨(List.range 32).map UInt8.ofNat, by decide⟩

def straddleConfig : UdpConfig where
  bs58 := base58Codec
  fanout := ⟨"feed:350", false, true⟩
  vaults := .fromPubkeys [straddledVault]
  hitTtlSecs := 2
  udpPrefixSkip := 2

def straddleDatagram (index : UInt32) (payload : Bytes) (dataComplete : Bool) : Datagram where
  bytes := [0xff, 0xff] ++ sampleDataShred 7 index 3 payload dataComplete
  src := "203.0.113.7:9000"
  nowMs := 1
  utc _ := "2025-01-01T00:00:00+00:00"

theorem straddled_vault_matches_reference :
    ∃ st outs out, runExcept (udpBody straddleConfig) (.start {})
        ([straddleDatagram 0 (straddledVault.bytes.take 20) false] ++
          straddleDatagram 1 (straddledVault.bytes.drop 20) true :: []) = .ok (st, outs) ∧
      outs[1]? = some out ∧
      MatchesReference straddleConfig [straddleDatagram 0 (straddledVault.bytes.take 20) false]
        (straddleDatagram 1 (straddledVault.bytes.drop 20) true) out := by
  obtain ⟨st, outs, out, hrun, hout, hmatch, _⟩ :=
    pipeline_refines_reference straddleConfig {}
      [straddleDatagram 0 (straddledVault.bytes.take 20) false] []
      (straddleDatagram 1 (straddledVault.bytes.drop 20) true)
      (by unfold NothingEvicted; decide +kernel)
  exact ⟨st, outs, out, hrun, hout, hmatch⟩

example :
    (udpStep straddleConfig
      (udpStep straddleConfig (.start {})
        (straddleDatagram 0 (straddledVault.bytes.take 20) false)).1
      (straddleDatagram 1 (straddledVault.bytes.drop 20) true)).2.wakes.map FeedPayload.data =
      [some (.shredWake ⟨base58Encode straddledVault.bytes, 7, 3, "203.0.113.7:9000"⟩)] := by
  decide +kernel

end FeedMux.Upstream
