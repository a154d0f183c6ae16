import FeedMux.Library.Bytes
import FeedMux.Library.Fields

/-!
# Public keys and the configuration (`src/config.rs`)

A `Pubkey` is 32 bytes. Base58 itself is the `bs58` crate; `parseWalletPubkey`
is the source's use of it. `Config` has the fields that starting the upstreams
reads.
-/

namespace FeedMux
open FeedMux.Library

/-- The Unicode `White_Space` characters. -/
def isWhitespace (c : Char) : Bool :=
  let n := c.toNat
  (9 ≤ n && n ≤ 13) || n == 0x20 || n == 0x85 || n == 0xA0 || n == 0x1680 ||
    (0x2000 ≤ n && n ≤ 0x200A) || n == 0x2028 || n == 0x2029 || n == 0x202F || n == 0x205F ||
    n == 0x3000

/-- `str::trim`. -/
def trim (s : List Char) : List Char := (s.dropWhile isWhitespace).rdropWhile isWhitespace

theorem trim_eq (s : List Char) : trim s = strip isWhitespace s := rfl

/-- Above the space, ASCII has no white space. -/
theorem isWhitespace_graphic {c : Char} (h : 0x20 < c.toNat) (h' : c.toNat < 0x80) :
    isWhitespace c = false := by
  unfold isWhitespace
  simp only [Bool.or_eq_false_iff, Bool.and_eq_false_iff, decide_eq_false_iff_not,
    beq_eq_false_iff_ne]
  omega

structure Pubkey where
  bytes : Bytes
  length_eq : bytes.length = 32
  deriving DecidableEq

/-- The `bs58` crate: encoding, and decoding with the text of its error. -/
structure Bs58 where
  encode : Bytes → String
  decode : String → Except String Bytes

def parseWalletPubkey (bs58 : Bs58) (value : String) : Except String Pubkey :=
  let trimmed := trim value.toList
  if trimmed.isEmpty then .error "wallet pubkey is empty"
  else
    match bs58.decode (String.ofList trimmed) with
    | .error e => .error s!"invalid base58 wallet pubkey: {e}"
    | .ok decoded =>
      if h : decoded.length = 32 then .ok ⟨decoded, h⟩
      else .error s!"wallet pubkey must decode to 32 bytes, got {decoded.length}"

structure Config where
  dryRun : Bool
  redisUrl : Option String
  redisChannel : String
  enableTritonGrpc : Bool
  tritonGrpcUrl : Option String
  tritonGrpcToken : Option String
  enableTitanWs : Bool
  titanWsUrl : Option String
  titanWalletPubkey : Option String
  titanHuntSizeLamports : Option String
  titanHop1TtlSecs : UInt64
  enableTritonShred : Bool
  shredBind : String
  shredWatchVaults : List Pubkey
  shredHitTtlSecs : UInt64
  shredUdpPrefixSkip : Nat

end FeedMux
