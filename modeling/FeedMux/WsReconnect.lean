import FeedMux.Library.Utf8

/-!
# Reconnect backoff and failure classes (`src/ws_reconnect.rs`)

Durations are nanoseconds up to `Duration::MAX`. A backoff keeps its delay
between its initial delay and its maximum; once it has waited, the delay is
above the initial one until the next reset (`initial_lt_wait`). The summary of
a gRPC error may panic: it cuts the text at a byte offset.
-/

namespace FeedMux
open FeedMux.Library

/-- `Duration::MAX` in nanoseconds. -/
def durationMaxNanos : Nat := (2 ^ 64 - 1) * 10 ^ 9 + 999999999

abbrev Duration := {nanos : Nat // nanos ≤ durationMaxNanos}

namespace Duration

def fromSecs (secs : UInt64) : Duration :=
  ⟨secs.toNat * 10 ^ 9, by
    have := secs.toNat_lt
    unfold durationMaxNanos
    omega⟩

def fromMillis (millis : UInt64) : Duration :=
  ⟨millis.toNat * 10 ^ 6, by
    have := millis.toNat_lt
    unfold durationMaxNanos
    omega⟩

def saturatingMul (d : Duration) (k : Nat) : Duration :=
  ⟨min (d.val * k) durationMaxNanos, Nat.min_le_right ..⟩

end Duration

/-- Minimum time a session must stay up (without data) before backoff resets. -/
def healthySessionThreshold : Duration := .fromSecs 5

/-- Exponential backoff: the delay stays between `initial` and `max`. -/
structure ReconnectBackoff where
  initial : Duration
  max : Duration
  current : Duration
  initial_pos : 0 < initial.val
  initial_le_current : initial ≤ current
  current_le_max : current ≤ max

namespace ReconnectBackoff

def new (initial max : Duration) : ReconnectBackoff where
  initial := Max.max initial (.fromMillis 1)
  max := Max.max max (Max.max initial (.fromMillis 1))
  current := Max.max initial (.fromMillis 1)
  initial_pos := by
    have h : (Duration.fromMillis 1).val ≤ (Max.max initial (.fromMillis 1)).val :=
      le_max_right initial (.fromMillis 1)
    have h1 : (Duration.fromMillis 1).val = 10 ^ 6 := by decide
    omega
  initial_le_current := le_refl _
  current_le_max := le_max_right ..

def reset (b : ReconnectBackoff) : ReconnectBackoff :=
  { b with
    current := b.initial
    initial_le_current := le_refl _
    current_le_max := b.initial_le_current.trans b.current_le_max }

def nextDelay (b : ReconnectBackoff) : Duration := b.current

/-- The state after sleeping for the current delay. -/
def wait (b : ReconnectBackoff) : ReconnectBackoff :=
  { b with
    current := min (b.current.saturatingMul 2) b.max
    initial_le_current := by
      refine le_min ?_ (b.initial_le_current.trans b.current_le_max)
      have h : b.initial.val ≤ b.current.val := b.initial_le_current
      have hmax := b.current.property
      exact (show b.initial.val ≤ min (b.current.val * 2) durationMaxNanos by omega)
    current_le_max := min_le_right .. }

/-- After a wait the delay is above the initial one, if there is room. -/
theorem initial_lt_wait {b : ReconnectBackoff} (h : b.initial < b.max) :
    b.initial < b.wait.nextDelay := by
  refine lt_min ?_ h
  have hle : b.initial.val ≤ b.current.val := b.initial_le_current
  have hpos := b.initial_pos
  have hmax : b.initial.val < b.max.val := h
  have hbound := b.max.property
  exact (show b.initial.val < min (b.current.val * 2) durationMaxNanos by omega)

end ReconnectBackoff

/-! ## The backoff of the live loops -/

/-- Both live loops wait 5 s at first and at most 30 s. -/
def liveBackoff : ReconnectBackoff := .new (.fromSecs 5) (.fromSecs 30)

/-- Before it waits, a loop may reset its backoff. -/
def ReconnectBackoff.resetIf (b : ReconnectBackoff) (healthy : Bool) : ReconnectBackoff :=
  if healthy then b.reset else b

/-- The backoff of a live loop that has waited `waits` times. -/
structure BackoffAfter (waits : Nat) (b : ReconnectBackoff) : Prop where
  initial : b.initial = .fromSecs 5
  max : b.max = .fromSecs 30
  fresh : waits = 0 → b.nextDelay = .fromSecs 5
  grown : waits ≠ 0 → Duration.fromSecs 5 < b.nextDelay

theorem liveBackoff_after : BackoffAfter 0 liveBackoff :=
  ⟨by decide, by decide, fun _ => by decide, fun h => absurd rfl h⟩

theorem BackoffAfter.next {waits : Nat} {b : ReconnectBackoff} (h : BackoffAfter waits b)
    (healthy : Bool) : BackoffAfter (waits + 1) (b.resetIf healthy).wait := by
  have hi : (b.resetIf healthy).initial = .fromSecs 5 := by
    unfold ReconnectBackoff.resetIf
    split <;> exact h.initial
  have hm : (b.resetIf healthy).max = .fromSecs 30 := by
    unfold ReconnectBackoff.resetIf
    split <;> exact h.max
  refine ⟨hi, hm, fun h0 => absurd h0 (by omega), ?_⟩
  intro _
  have hlt : (b.resetIf healthy).initial < (b.resetIf healthy).max := by
    rw [hi, hm]
    decide
  have hw := ReconnectBackoff.initial_lt_wait hlt
  rwa [hi] at hw

/-- **Delays.** A delay is the initial one after a reset and before the first wait. -/
theorem BackoffAfter.delay_iff {waits : Nat} {b : ReconnectBackoff} (h : BackoffAfter waits b)
    (healthy : Bool) :
    (b.resetIf healthy).nextDelay = .fromSecs 5 ↔ healthy = true ∨ waits = 0 := by
  unfold ReconnectBackoff.resetIf
  cases healthy with
  | true =>
    simp only [↓reduceIte, true_or, iff_true]
    exact h.initial
  | false =>
    simp only [Bool.false_eq_true, ↓reduceIte, false_or]
    constructor
    · intro hd
      by_contra hw
      exact absurd hd (ne_of_gt (h.grown hw))
    · exact h.fresh

/-- Whether a completed session was healthy enough to reset reconnect backoff. -/
def shouldResetBackoff (receivedData : Bool) (connectedFor : Duration) : Bool :=
  receivedData || healthySessionThreshold ≤ connectedFor

/-! ## WebSocket errors -/

/-- Why a WebSocket session ended. -/
inductive WsDisconnectKind where
  /-- Peer sent a Close frame or the session ended after a graceful close. -/
  | cleanClose
  /-- TCP dropped or reset without a WebSocket close handshake. -/
  | abruptClose
  /-- Other read/write/protocol failure. -/
  | transportError
  deriving DecidableEq, Repr

inductive IoErrorKind where
  | connectionReset
  | connectionAborted
  | brokenPipe
  | unexpectedEof
  | invalidInput
  | invalidData
  | other
  deriving DecidableEq, Repr

inductive ProtocolError where
  | resetWithoutClosingHandshake
  | sendAfterClosing
  | other
  deriving DecidableEq, Repr

inductive WsError where
  | connectionClosed
  | alreadyClosed
  | io (kind : IoErrorKind)
  | tls
  | capacity
  | protocol (error : ProtocolError)
  | writeBufferFull
  | utf8
  | attackAttempt
  | url
  | http
  | httpFormat
  deriving DecidableEq, Repr

def isConnectionReset : IoErrorKind → Bool
  | .connectionReset | .connectionAborted | .brokenPipe | .unexpectedEof => true
  | _ => false

/-- Classify tungstenite errors without logging secrets or full debug chains. -/
def classifyWsError : WsError → WsDisconnectKind
  | .connectionClosed | .alreadyClosed => .abruptClose
  | .protocol .resetWithoutClosingHandshake => .abruptClose
  | .protocol .sendAfterClosing => .cleanClose
  | .io kind => if isConnectionReset kind then .abruptClose else .transportError
  | _ => .transportError

/-! ## gRPC errors -/

/-- Why a gRPC stream session ended. -/
inductive GrpcStreamFailure where
  /-- Transient network/protocol issue. -/
  | retryable
  /-- Auth, plan, or permission denial: do not reconnect until process restart. -/
  | authDenied
  deriving DecidableEq, Repr

/-- `to_ascii_lowercase`. -/
def toAsciiLowercase (s : String) : List Char := s.toList.map Char.toLower

def classifyGrpcStreamError (err : String) : GrpcStreamFailure :=
  let lower := toAsciiLowercase err
  let contains (text : String) : Bool := decide (text.toList <:+: lower)
  if contains "403 forbidden" || contains "status: 403" || contains "401 unauthorized" ||
      contains "status: 401" || contains "permissiondenied" || contains "unauthenticated" ||
      contains "access denied" || (contains "invalid compression flag" && contains "403")
  then .authDenied
  else .retryable

/-- Short, safe gRPC error summary: never includes URLs or auth tokens. -/
def grpcErrorSummary (err : String) : Except Panic String :=
  let lower := toAsciiLowercase err
  let contains (text : String) : Bool := decide (text.toList <:+: lower)
  if contains "403 forbidden" || contains "status: 403" then
    .ok "HTTP 403 Forbidden (check TRITON_GRPC_TOKEN/plan)"
  else if contains "401 unauthorized" || contains "status: 401" then
    .ok "HTTP 401 Unauthorized (check TRITON_GRPC_TOKEN)"
  else if contains "invalid compression flag" && contains "403" then
    .ok "HTTP 403 rejected as non-gRPC body (check TRITON_GRPC_TOKEN/plan)"
  else if 200 < err.utf8ByteSize then (sliceTo err 200).map (· ++ "…")
  else .ok err

end FeedMux
