import FeedMux.Library.KeyValue
import FeedMux.Shred.VaultWatch

/-!
# Redis keys and writes (`src/redis_fanout.rs`)

Every method of `RedisFanout` is the list of Redis calls it makes, each call a
pipeline of commands. The methods are generic in the documents they store.
Without a connection, or in a dry run, no call is made.
-/

namespace FeedMux
open FeedMux.Library FeedMux.Library.KeyValue

/-! ## Keys -/

namespace MuxKeys

def titanFrames := "mux:titan:frames"
def titanDecoded := "mux:titan:decoded"
def titanErrors := "mux:titan:errors"
/-- Downstream mux proxy sessions only. -/
def titanServed := "mux:titan:served"
def titanHop1Served := "mux:titan:hop1_served"
def titanSizeBoard := "mux:titan:size_board"
def titanFellThrough := "mux:titan:fell_through"
def titanPairsLive := "mux:titan:pairs_live"
def titanLastFrameMs := "mux:titan:last_frame_ms"
def titanFreshestMs := "mux:titan:freshest_ms"
def metaHeartbeatMs := "mux:meta:heartbeat_ms"
def metaTitanUp := "mux:meta:titan_up"
def metaTritonUp := "mux:meta:triton_up"
def tritonFrames := "mux:triton:frames"
def tritonLastFrameMs := "mux:triton:last_frame_ms"
def metaShredUp := "mux:meta:shred_up"
def shredShreds := "mux:shred:shreds"
def shredTxsDeshredded := "mux:shred:txs_deshredded"
def shredVaultHits := "mux:shred:vault_hits"
def shredLastMs := "mux:shred:last_ms"
def shredLastHitMs := "mux:shred:last_hit_ms"
def shredHit := "mux:shred:hit"

/-- Per-size hop-1 quote row. -/
def hop1RowKey (pair : String) (sizeLamports : UInt64) : String :=
  s!"mux:titan:hop1:{pair}:{sizeLamports.toNat}"

def hop1Prefix : List Char := "mux:titan:hop1:".toList

/-- The parts of a row key. -/
theorem hop1RowKey_toList (pair : String) (sizeLamports : UInt64) :
    (hop1RowKey pair sizeLamports).toList =
      hop1Prefix ++ (pair.toList ++ ':' :: (Nat.repr sizeLamports.toNat).toList) := by
  show ("mux:titan:hop1:" ++ pair ++ ":" ++ Nat.repr sizeLamports.toNat).toList = _
  rw [String.toList_append, String.toList_append, String.toList_append, List.append_assoc,
    List.append_assoc]
  rfl

theorem hop1RowKey_startsWith (pair : String) (sizeLamports : UInt64) :
    hop1Prefix <+: (hop1RowKey pair sizeLamports).toList := by
  rw [hop1RowKey_toList]
  exact List.prefix_append ..

/-- A row key differs from every key without its prefix. -/
theorem hop1RowKey_ne {pair : String} {sizeLamports : UInt64} {key : String}
    (h : ¬ hop1Prefix <+: key.toList) : hop1RowKey pair sizeLamports ≠ key := by
  rintro rfl
  exact h (hop1RowKey_startsWith pair sizeLamports)

end MuxKeys

/-! ## Calls -/

/-- What is stored as JSON: a literal text, a shred hit, or a caller's document. -/
inductive Document (δ : Type) where
  | text (json : String)
  | shredHit (vault : String) (slot : UInt64) (fecSetIndex : UInt32) (src : String)
      (tsMs : UInt64)
  | row (doc : δ)
  deriving DecidableEq, Repr

abbrev RedisCmd (δ : Type) := Cmd String (Document δ)

abbrev Redis (δ : Type) := Store String (Document δ)

/-- One round trip: the commands of a pipeline. -/
abbrev RedisCall (δ : Type) := List (RedisCmd δ)

inductive TitanMessageOutcome where
  | quotePublished
  | rpcError
  | unhandled
  deriving DecidableEq, Repr

/-- `connected` says whether there is a connection manager. -/
structure RedisFanout where
  channel : String
  dryRun : Bool
  connected : Bool
  deriving DecidableEq, Repr

structure Wake where
  vault : String
  slot : UInt64
  fecSetIndex : UInt32
  src : String
  deriving DecidableEq, Repr

inductive FeedData where
  | shredWake (wake : Wake)
  | subscribeUpdate (hasSlot : Bool)
  deriving DecidableEq, Repr

structure FeedPayload where
  event : String
  source : String
  ts : String
  data : Option FeedData
  deriving DecidableEq, Repr

def flag (up : Bool) : Int := if up then 1 else 0

def emptyBoard : String := "\x7b\"schema\":\"mux.titan.size_board.v1\",\"pins\":[]\x7d"

namespace RedisFanout
variable {δ : Type} (fanout : RedisFanout)

def calls (cs : List (RedisCall δ)) : List (RedisCall δ) :=
  if fanout.dryRun || !fanout.connected then [] else cs

/-- Decimal texts are numbers of the store. -/
def setInt (key : String) (n : Int) : RedisCmd δ := .set key (.int n)

def setMs (key : String) (ts : UInt64) : RedisCmd δ := setInt key ts.toNat

/-- Clear stale Titan mux counters left by a prior process. -/
def resetTitanStateAtBoot : List (RedisCall δ) :=
  fanout.calls
    [[setInt MuxKeys.titanFrames 0, setInt MuxKeys.titanDecoded 0, setInt MuxKeys.titanErrors 0,
      setInt MuxKeys.titanServed 0, setInt MuxKeys.titanHop1Served 0,
      .set MuxKeys.titanSizeBoard (.doc (.text emptyBoard)), setInt MuxKeys.titanFellThrough 0,
      setInt MuxKeys.titanPairsLive 0, setInt MuxKeys.titanLastFrameMs 0,
      setInt MuxKeys.titanFreshestMs 0, setInt MuxKeys.metaTitanUp 0],
     [setInt MuxKeys.metaTritonUp 0, setInt MuxKeys.tritonFrames 0,
      setInt MuxKeys.tritonLastFrameMs 0]]

/-- Clear stale shred mux counters at boot. -/
def resetShredStateAtBoot : List (RedisCall δ) :=
  fanout.calls
    [[setInt MuxKeys.metaShredUp 0, setInt MuxKeys.shredShreds 0,
      setInt MuxKeys.shredTxsDeshredded 0, setInt MuxKeys.shredVaultHits 0,
      setInt MuxKeys.shredLastMs 0, setInt MuxKeys.shredLastHitMs 0, .del MuxKeys.shredHit]]

def heartbeat (nowMs : UInt64) : List (RedisCall δ) :=
  fanout.calls [[setMs MuxKeys.metaHeartbeatMs nowMs]]

/-- `pairs_live` is set only after a real quote, never on handshake. -/
def setTitanUpstreamUp (up : Bool) : List (RedisCall δ) :=
  fanout.calls <|
    [setInt MuxKeys.metaTitanUp (flag up)] ::
      if up then [] else [[setInt MuxKeys.titanPairsLive 0]]

def incr (key : String) : List (RedisCall δ) := fanout.calls [[.incr key 1]]

def recordTitanDecodeError : List (RedisCall δ) := fanout.incr MuxKeys.titanErrors

def recordTitanQuoteSuccess (ts : UInt64) : List (RedisCall δ) :=
  fanout.calls
    [[.incr MuxKeys.titanFrames 1, .incr MuxKeys.titanDecoded 1,
      setMs MuxKeys.titanLastFrameMs ts, setMs MuxKeys.titanFreshestMs ts,
      setInt MuxKeys.titanPairsLive 1, setInt MuxKeys.metaTitanUp 1]]

def recordTitanMessage (outcome : TitanMessageOutcome) (nowMs : UInt64) : List (RedisCall δ) :=
  match outcome with
  | .quotePublished => fanout.recordTitanQuoteSuccess nowMs
  | .rpcError => fanout.incr MuxKeys.titanErrors
  | .unhandled => fanout.incr MuxKeys.titanFellThrough

/-- Write a hop-1 quote row for Bot 350 hunt consumption. -/
def publishTitanHop1 (row : δ) (pair : String) (sizeLamports ttlSecs : UInt64) :
    List (RedisCall δ) :=
  fanout.calls
    [[.setEx (MuxKeys.hop1RowKey pair sizeLamports) (.doc (.row row)) (max ttlSecs.toNat 1),
      .incr MuxKeys.titanHop1Served 1]]

def setTritonUpstreamUp (up : Bool) : List (RedisCall δ) :=
  fanout.calls [[setInt MuxKeys.metaTritonUp (flag up)]]

def setShredUpstreamUp (up : Bool) : List (RedisCall δ) :=
  fanout.calls [[setInt MuxKeys.metaShredUp (flag up)]]

def recordShredFrame (ts : UInt64) : List (RedisCall δ) :=
  fanout.calls
    [[.incr MuxKeys.shredShreds 1, setMs MuxKeys.shredLastMs ts, setInt MuxKeys.metaShredUp 1]]

def recordShredDeshred (txCount : Nat) (ts : UInt64) : List (RedisCall δ) :=
  fanout.calls
    [[.incr MuxKeys.shredTxsDeshredded txCount, setMs MuxKeys.shredLastMs ts]]

/-- Publish a vault wake row with TTL honesty. -/
def publishShredHit (hit : Shred.VaultHit) (slot : UInt64) (fecSetIndex : UInt32) (src : String)
    (ttlSecs ts : UInt64) : List (RedisCall δ) :=
  fanout.calls
    [[.setEx MuxKeys.shredHit (.doc (.shredHit hit.vaultB58 slot fecSetIndex src ts))
        (max ttlSecs.toNat 1),
      .incr MuxKeys.shredVaultHits 1, setMs MuxKeys.shredLastHitMs ts]]

def recordTritonFrame (nowMs : UInt64) : List (RedisCall δ) :=
  fanout.calls
    [[.incr MuxKeys.tritonFrames 1, setMs MuxKeys.tritonLastFrameMs nowMs,
      setInt MuxKeys.metaTritonUp 1]]

/-- Write aggregate per-size hop ages for Bot 350 /titan pin board. -/
def publishTitanSizeBoard (board : δ) : List (RedisCall δ) :=
  fanout.calls [[.set MuxKeys.titanSizeBoard (.doc (.row board))]]

end RedisFanout

/-- Redis after these calls, all of which succeed. -/
def Redis.after {δ : Type} (redis : Redis δ) (calls : List (RedisCall δ)) : Redis δ :=
  exec redis calls.flatten

end FeedMux
