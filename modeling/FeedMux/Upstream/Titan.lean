import FeedMux.Upstream.TitanSubscribe

/-!
# The Titan live loop (`src/upstream/titan.rs`)

A session is run against a script of what the network and the rate limiter do.
`runSession` and `runLiveLoop` give every effect in order. A session that
received data or stayed up long enough resets the backoff exactly when it ends
through `Ok`, that is, without a transport error or a failed send.
-/

namespace FeedMux.Upstream
open FeedMux.Library FeedMux.Titan

/-- What an upstream task does to the world: its flag, Redis, the feed, the
local relay, its own requests, and waiting. -/
inductive Effect (δ ρ μ : Type) where
  | connected (up : Bool)
  | redis (calls : List (RedisCall δ))
  | publish (payload : FeedPayload)
  | relayStatus (up : Bool)
  | relayMessage (message : μ)
  | request (request : ρ)
  | authBlocked
  | wait (delay : Duration)

namespace TitanLive

abbrev TitanEffect := Effect TitanDocument ClientRequest Bytes

/-- `relay` says whether there is a local relay. -/
structure LoopConfig where
  env : TitanEnv
  wallet : Pubkey
  ladder : List UInt64
  relay : Bool

def relayStatus (cfg : LoopConfig) (up : Bool) : List TitanEffect :=
  if cfg.relay then [.relayStatus up] else []

def markTitanConnected (cfg : LoopConfig) : List TitanEffect :=
  [.connected true, .redis (cfg.env.fanout.setTitanUpstreamUp true)] ++ relayStatus cfg true

def markTitanDisconnected (cfg : LoopConfig) : List TitanEffect :=
  [.connected false, .redis (cfg.env.fanout.setTitanUpstreamUp false)] ++ relayStatus cfg false

/-- What the socket yields. A ping comes with the outcome of answering it. -/
inductive Read where
  | binary (frame : TitanFrame)
  | ping (pong : Option WsError)
  | close
  | other
  | failure (error : WsError)

/-- A session as its surroundings shape it: the errors of the request and the
connection, the rate limiter and the sends, what is read until the stream ends,
how long it was connected, and the time since it was started. -/
structure Session where
  request : Option WsError
  connect : Option WsError
  getInfoGranted : Bool
  getInfoSend : Option WsError
  rungs : RungScript
  snapshotMs : UInt64
  order : IterationOrder
  reads : List Read
  connectedFor : Duration
  elapsed : Duration
  connectedFor_le : connectedFor ≤ elapsed

structure SessionOutcome where
  kind : WsDisconnectKind
  receivedData : Bool
  connectedFor : Duration
  deriving DecidableEq

/-- How the read loop ends. -/
structure ReadEnd where
  effects : List TitanEffect
  st : TitanState
  receivedData : Bool
  result : Except WsError WsDisconnectKind

def readLoop (cfg : LoopConfig) : TitanState → Bool → List Read → ReadEnd
  | st, received, [] => ⟨[], st, received, .ok .abruptClose⟩
  | st, _, .binary frame :: rest =>
    let relayed := if cfg.relay then [.relayMessage frame.data] else []
    let (st, out) := handleTitanServerMessage cfg.env st frame
    let read := readLoop cfg st true rest
    { read with effects := relayed ++ [.redis out.calls] ++ read.effects }
  | st, received, .ping none :: rest => readLoop cfg st received rest
  | st, received, .other :: rest => readLoop cfg st received rest
  | st, received, .close :: _ => ⟨[], st, received, .ok .cleanClose⟩
  | st, received, .ping (some e) :: _ | st, received, .failure e :: _ =>
    if classifyWsError e = .transportError then
      ⟨markTitanDisconnected cfg, st, received, .error e⟩
    else ⟨[], st, received, .ok (classifyWsError e)⟩

structure SessionRun where
  effects : List TitanEffect
  st : TitanState
  result : Except WsError SessionOutcome

def sendGetInfo (s : Session) : List TitanEffect × Except WsError Unit :=
  if !s.getInfoGranted then ([], .ok ())
  else
    match s.getInfoSend with
    | some e => ([], .error e)
    | none => ([.request ⟨1, .getInfo⟩], .ok ())

/-- From the subscriptions on. -/
def runSubscribed (cfg : LoopConfig) (s : Session) (st : TitanState) : SessionRun :=
  let sub := subscribeHuntStreams cfg.wallet s.rungs cfg.ladder st
  let sent := sub.requests.map .request
  match sub.result with
  | .error e => ⟨sent, sub.st, .error e⟩
  | .ok () =>
    let (pair, base, mid) := mintPairLabel solMint usdcMint
    let snapshot := publishSizeBoardSnapshot cfg.env.fanout sub.st.board s.order s.snapshotMs
      pair base mid
    let read := readLoop cfg sub.st false s.reads
    let effects := sent ++ [.redis snapshot] ++ read.effects
    match read.result with
    | .error e => ⟨effects, read.st, .error e⟩
    | .ok kind =>
      ⟨effects ++ markTitanDisconnected cfg, read.st, .ok ⟨kind, read.receivedData, s.elapsed⟩⟩

def runSession (cfg : LoopConfig) (st : TitanState) (s : Session) : SessionRun :=
  match s.request <|> s.connect with
  | some e => ⟨[], st, .error e⟩
  | none =>
    let st := startSession st cfg.ladder
    let (info, result) := sendGetInfo s
    match result with
    | .error e => ⟨markTitanConnected cfg ++ info, st, .error e⟩
    | .ok () =>
      let run := runSubscribed cfg s st
      { run with effects := markTitanConnected cfg ++ info ++ run.effects }

structure LoopState where
  backoff : ReconnectBackoff
  st : TitanState

/-- One turn of the live loop. -/
structure Round where
  effects : List TitanEffect
  result : Except WsError SessionOutcome
  delay : Duration

def runLiveRound (cfg : LoopConfig) (loop : LoopState) (s : Session) : LoopState × Round :=
  let run := runSession cfg loop.st s
  let healthy := match run.result with
    | .ok outcome => shouldResetBackoff outcome.receivedData outcome.connectedFor
    | .error _ => false
  let backoff := loop.backoff.resetIf healthy
  let delay := backoff.nextDelay
  (⟨backoff.wait, run.st⟩,
    ⟨markTitanDisconnected cfg ++ run.effects ++ markTitanDisconnected cfg ++ [.wait delay],
      run.result, delay⟩)

def LoopState.start : LoopState := ⟨liveBackoff, {}⟩

/-! ## How a session ends -/

def Connects (s : Session) : Prop := s.request = none ∧ s.connect = none

/-- Neither `GetInfo` nor the request of a granted rung fails to be sent. -/
def SendsSucceed (cfg : LoopConfig) (s : Session) : Prop :=
  (s.getInfoGranted → s.getInfoSend = none) ∧
    ∀ idx < cfg.ladder.length, s.rungs.granted idx → s.rungs.send idx = none

/-- Reading ends by a close, the end of the stream, or a failure that is not
classified as a transport error. -/
def EndsGently : List Read → Prop
  | [] | .close :: _ => True
  | .binary _ :: rest | .ping none :: rest | .other :: rest => EndsGently rest
  | .ping (some e) :: _ | .failure e :: _ => classifyWsError e ≠ .transportError

/-- The binary frames read before reading ends. -/
def framesRead : List Read → List TitanFrame
  | .binary frame :: rest => frame :: framesRead rest
  | .ping none :: rest | .other :: rest => framesRead rest
  | _ => []

theorem readLoop_received (cfg : LoopConfig) (st : TitanState) (received : Bool)
    (reads : List Read) :
    (readLoop cfg st received reads).receivedData =
      (received || !(framesRead reads).isEmpty) := by
  induction reads generalizing st received with
  | nil => simp [readLoop, framesRead]
  | cons read rest ih =>
    cases read with
    | binary frame => simp [readLoop, framesRead, ih]
    | ping pong =>
      cases pong with
      | none => exact ih ..
      | some e =>
        unfold readLoop
        split <;> simp [framesRead]
    | close => simp [readLoop, framesRead]
    | other => exact ih ..
    | failure e =>
      unfold readLoop
      split <;> simp [framesRead]

theorem readLoop_ok_iff (cfg : LoopConfig) (st : TitanState) (received : Bool)
    (reads : List Read) :
    (∃ kind, (readLoop cfg st received reads).result = .ok kind) ↔ EndsGently reads := by
  induction reads generalizing st received with
  | nil => simp [readLoop, EndsGently]
  | cons read rest ih =>
    cases read with
    | binary frame => exact ih ..
    | ping pong =>
      cases pong with
      | none => exact ih ..
      | some e =>
        unfold readLoop EndsGently
        split <;> simp_all
    | close => simp [readLoop, EndsGently]
    | other => exact ih ..
    | failure e =>
      unfold readLoop EndsGently
      split <;> simp_all

theorem sendGetInfo_ok_iff (s : Session) :
    (sendGetInfo s).2 = .ok () ↔ (s.getInfoGranted → s.getInfoSend = none) := by
  unfold sendGetInfo
  cases s.getInfoGranted with
  | false => simp
  | true => cases s.getInfoSend <;> simp

theorem runSubscribed_ok_iff (cfg : LoopConfig) (s : Session) (st : TitanState) :
    (∃ outcome, (runSubscribed cfg s st).result = .ok outcome) ↔
      (∀ idx < cfg.ladder.length, s.rungs.granted idx → s.rungs.send idx = none) ∧
        EndsGently s.reads := by
  have hsub : (subscribeFrom cfg.wallet s.rungs 0 cfg.ladder st).result = .ok () ↔ _ :=
    subscribeFrom_ok_iff 0 cfg.ladder st
  simp only [Nat.zero_add] at hsub
  unfold runSubscribed subscribeHuntStreams
  simp only
  cases hr : (subscribeFrom cfg.wallet s.rungs 0 cfg.ladder st).result with
  | error e =>
    rw [hr] at hsub
    simp [← hsub]
  | ok u =>
    rw [hr] at hsub
    rw [← hsub, ← readLoop_ok_iff cfg (subscribeFrom cfg.wallet s.rungs 0 cfg.ladder st).st false]
    simp only [true_and]
    split <;> simp_all

theorem runSubscribed_outcome {cfg : LoopConfig} {s : Session} {st : TitanState}
    {outcome : SessionOutcome} (h : (runSubscribed cfg s st).result = .ok outcome) :
    outcome.receivedData = !(framesRead s.reads).isEmpty ∧ outcome.connectedFor = s.elapsed := by
  unfold runSubscribed at h
  simp only at h
  split at h
  · cases h
  · split at h
    · cases h
    · obtain rfl := Except.ok.inj h
      simp [readLoop_received]

/-- **Ends of a session.** It ends through `Ok` if it connects, every send
succeeds and reading ends without a transport error. -/
theorem runSession_ok_iff (cfg : LoopConfig) (st : TitanState) (s : Session) :
    (∃ outcome, (runSession cfg st s).result = .ok outcome) ↔
      Connects s ∧ SendsSucceed cfg s ∧ EndsGently s.reads := by
  rw [runSession, Connects, SendsSucceed, ← sendGetInfo_ok_iff]
  cases s.request with
  | some e => simp
  | none =>
    cases s.connect with
    | some e => simp
    | none =>
      simp only [Option.orElse_eq_orElse, Option.orElse_none]
      cases hi : (sendGetInfo s).2 with
      | error e => simp
      | ok u => simp [runSubscribed_ok_iff]

theorem runSession_outcome {cfg : LoopConfig} {s : Session} {st : TitanState}
    {outcome : SessionOutcome} (h : (runSession cfg st s).result = .ok outcome) :
    outcome.receivedData = !(framesRead s.reads).isEmpty ∧ outcome.connectedFor = s.elapsed := by
  unfold runSession at h
  simp only at h
  split at h
  · cases h
  · split at h
    · cases h
    · exact runSubscribed_outcome h

/-! ## Backoff -/

/-- The session received data or stayed connected long enough. -/
def Healthy (cfg : LoopConfig) (s : Session) : Prop :=
  Connects s ∧
    (SendsSucceed cfg s ∧ framesRead s.reads ≠ [] ∨ healthySessionThreshold ≤ s.connectedFor)

/-- Whether the loop resets its backoff after the session. -/
def resets (cfg : LoopConfig) (st : TitanState) (s : Session) : Bool :=
  match (runSession cfg st s).result with
  | .ok outcome => shouldResetBackoff outcome.receivedData outcome.connectedFor
  | .error _ => false

theorem resets_iff {cfg : LoopConfig} {s : Session} (h : Healthy cfg s) (st : TitanState) :
    resets cfg st s ↔ SendsSucceed cfg s ∧ EndsGently s.reads := by
  have hok := runSession_ok_iff cfg st s
  unfold resets
  cases hr : (runSession cfg st s).result with
  | error e =>
    simp only [Bool.false_eq_true, false_iff]
    intro hends
    obtain ⟨outcome, ho⟩ := hok.mpr ⟨h.1, hends⟩
    rw [hr] at ho
    cases ho
  | ok outcome =>
    obtain ⟨hdata, hfor⟩ := runSession_outcome hr
    have hends := (hok.mp ⟨outcome, hr⟩).2
    have hhealthy : shouldResetBackoff outcome.receivedData outcome.connectedFor := by
      rw [shouldResetBackoff, hdata, hfor]
      rcases h.2 with ⟨_, hread⟩ | hlong
      · simp [hread]
      · simp [hlong.trans s.connectedFor_le]
    simp only [hhealthy, true_iff]
    exact hends

theorem runLiveRound_backoff (cfg : LoopConfig) (loop : LoopState) (s : Session) :
    (runLiveRound cfg loop s).1.backoff = (loop.backoff.resetIf (resets cfg loop.st s)).wait ∧
      (runLiveRound cfg loop s).2.delay =
        (loop.backoff.resetIf (resets cfg loop.st s)).nextDelay := ⟨rfl, rfl⟩

theorem loop_backoff (cfg : LoopConfig) (sessions : List Session) :
    BackoffAfter sessions.length (runs (runLiveRound cfg) .start sessions).1.backoff := by
  refine runs_history (R := fun sessions _ (loop : LoopState) =>
    BackoffAfter sessions.length loop.backoff) liveBackoff_after ?_ sessions
  intro sessions _ loop s h
  rw [List.length_append, (runLiveRound_backoff cfg loop s).1]
  exact h.next _

/-- After a healthy session the delay is the initial one exactly when the
session ended through `Ok` or was the first. -/
theorem delay_after_healthy (cfg : LoopConfig) (pre post : List Session) {s : Session}
    (h : Healthy cfg s) :
    ∃ round, (runs (runLiveRound cfg) .start (pre ++ s :: post)).2[pre.length]? = some round ∧
      (round.delay = .fromSecs 5 ↔ (SendsSucceed cfg s ∧ EndsGently s.reads) ∨ pre = []) := by
  refine ⟨_, runs_output .., ?_⟩
  rw [(runLiveRound_backoff ..).2, (loop_backoff cfg pre).delay_iff, resets_iff h,
    List.length_eq_zero_iff]

end TitanLive
end FeedMux.Upstream
