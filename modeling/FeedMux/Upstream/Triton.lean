import FeedMux.Upstream.Titan

/-!
# The Triton live loop (`src/upstream/triton.rs`)

The loop halts on an auth denial and reconnects otherwise. A session that
received an update resets the backoff exactly when its stream simply ends.
-/

namespace FeedMux.Upstream.TritonLive
open FeedMux.Library

inductive UpdateOneof where
  | ping
  | slot
  | other
  deriving DecidableEq, Repr

/-- An update, with the bytes the model does not look into. -/
structure SubscribeUpdate where
  updateOneof : Option UpdateOneof
  body : Bytes
  deriving DecidableEq, Repr

/-- The slot subscription, or the answer to a ping. -/
inductive SubscribeRequest where
  | slots
  | ping (id : Int32)
  deriving DecidableEq

abbrev TritonEffect := Effect Unit SubscribeRequest SubscribeUpdate

/-- `relay` says whether there is a local relay. -/
structure LoopConfig where
  fanout : RedisFanout
  grpcUrl : String
  grpcToken : Option String
  relay : Bool

def relayStatus (cfg : LoopConfig) (up : Bool) : List TritonEffect :=
  if cfg.relay then [.relayStatus up] else []

def markTritonConnected (cfg : LoopConfig) : List TritonEffect :=
  [.connected true, .redis (cfg.fanout.setTritonUpstreamUp true)] ++ relayStatus cfg true

def markTritonDisconnected (cfg : LoopConfig) : List TritonEffect :=
  [.connected false, .redis (cfg.fanout.setTritonUpstreamUp false)] ++ relayStatus cfg false

def normalizeGrpcEndpoint (url : String) : Except String String :=
  let trimmed := trim url.toList
  if trimmed.isEmpty then .error "empty Triton gRPC URL"
  else if "http://".toList.isPrefixOf trimmed || "https://".toList.isPrefixOf trimmed then
    .ok (String.ofList trimmed)
  else .ok s!"https://{String.ofList trimmed}"

/-- What the stream yields: an update, with the clocks read for it, the rate
limiter's answer and the error of sending a ping; or a failure. -/
inductive Read where
  | update (msg : SubscribeUpdate) (nowMs : UInt64) (utc : String) (pingGranted : Bool)
      (pingSend : Option String)
  | failure (error : String)

/-- A session as its surroundings shape it: the rate limiter, the error texts of
each stage, and what is read until the stream ends. -/
structure Session where
  granted : Bool
  build : Option String
  tls : Option String
  token : Option String
  connect : Option String
  subscribe : Option String
  reads : List Read

def throwIf (context : String) : Option String → Except String Unit
  | some e => .error s!"{context}: {e}"
  | none => .ok ()

/-- Everything up to the connected client. -/
def connectClient (cfg : LoopConfig) (s : Session) : Except String Unit := do
  if !s.granted then throw "rate limit exceeded for Triton subscribe"
  let endpoint ← normalizeGrpcEndpoint cfg.grpcUrl
  throwIf "invalid Triton gRPC URL" s.build
  if "https://".toList.isPrefixOf endpoint.toList then throwIf "Triton TLS config failed" s.tls
  if cfg.grpcToken.any fun token => !(trim token.toList).isEmpty then
    throwIf "Triton x-token config failed" s.token
  throwIf "Triton gRPC connect failed" s.connect

/-- Everything up to the open stream. -/
def openStream (cfg : LoopConfig) (s : Session) : Except String Unit := do
  connectClient cfg s
  throwIf "Triton subscribe failed" s.subscribe

/-- A connected client sends the subscription, which may then be refused. -/
def subscribed (cfg : LoopConfig) (s : Session) : List TritonEffect :=
  match connectClient cfg s with
  | .ok () => [.request .slots]
  | .error _ => []

def handleTritonUpdate (cfg : LoopConfig) (msg : SubscribeUpdate) (nowMs : UInt64) (utc : String) :
    List TritonEffect :=
  [.redis (cfg.fanout.recordTritonFrame nowMs),
    .publish ⟨"triton.slot", "triton_grpc", utc,
      some (.subscribeUpdate (msg.updateOneof == some .slot))⟩]

/-- How the read loop ends. -/
structure ReadEnd where
  effects : List TritonEffect
  result : Except String Bool

def readLoop (cfg : LoopConfig) : Int32 → Bool → List Read → ReadEnd
  | _, received, [] => ⟨markTritonDisconnected cfg, .ok received⟩
  | pingId, _, .update msg nowMs utc pingGranted pingSend :: rest =>
    let relayed := if cfg.relay then [.relayMessage msg] else []
    let handled := relayed ++ handleTritonUpdate cfg msg nowMs utc
    if msg.updateOneof == some .ping && pingGranted then
      match pingSend with
      | some e => ⟨handled, .error s!"Triton ping send failed: {e}"⟩
      | none =>
        let read := readLoop cfg (pingId + 1) true rest
        { read with effects := handled ++ [.request (.ping pingId)] ++ read.effects }
    else
      let read := readLoop cfg pingId true rest
      { read with effects := handled ++ read.effects }
  | _, _, .failure e :: _ => ⟨[], .error s!"Triton stream error: {e}"⟩

def runSession (cfg : LoopConfig) (s : Session) : ReadEnd :=
  match openStream cfg s with
  | .error e => ⟨subscribed cfg s, .error e⟩
  | .ok () =>
    let read := readLoop cfg 1 false s.reads
    { read with effects := subscribed cfg s ++ (markTritonConnected cfg ++ read.effects) }

/-- One turn of the live loop; without a delay it was the last. -/
structure Round where
  effects : List TritonEffect
  result : Except String Bool
  delay : Option Duration

/-- Once halted the loop does nothing. A denial is summarised for the log too, but
only after the flag is set, and the loop ends there anyway. -/
def runLiveRound (cfg : LoopConfig) :
    Option ReconnectBackoff → Session → Option ReconnectBackoff × Option Round
  | none, _ => (none, none)
  | some backoff, s =>
    let run := runSession cfg s
    let effects := markTritonDisconnected cfg ++ run.effects ++ markTritonDisconnected cfg
    match run.result with
    | .ok received =>
      let backoff := backoff.resetIf received
      let delay := backoff.nextDelay
      (some backoff.wait, some ⟨effects ++ [.wait delay], run.result, some delay⟩)
    | .error e =>
      match classifyGrpcStreamError e with
      | .authDenied => (none, some ⟨effects ++ [.authBlocked], run.result, none⟩)
      | .retryable =>
        let delay := backoff.nextDelay
        match grpcErrorSummary e with
        | .ok _ => (some backoff.wait, some ⟨effects ++ [.wait delay], run.result, some delay⟩)
        -- the log line panics, and with it the task
        | .error _ => (none, some ⟨effects, run.result, none⟩)

/-- A loop with a local relay. -/
def sampleConfig : LoopConfig := ⟨⟨"feed:350", false, true⟩, "grpc.example.test", none, true⟩

/-- A session whose stream opens. -/
def sampleSession (reads : List Read) : Session where
  granted := true
  build := none
  tls := none
  token := none
  connect := none
  subscribe := none
  reads := reads

/-- What opens is connected. -/
theorem connected_of_open {cfg : LoopConfig} {s : Session} (h : openStream cfg s = .ok ()) :
    connectClient cfg s = .ok () := by
  cases hc : connectClient cfg s with
  | ok u => rfl
  | error e =>
    rw [openStream, hc] at h
    cases h

theorem subscribed_open {cfg : LoopConfig} {s : Session} (h : openStream cfg s = .ok ()) :
    subscribed cfg s = [.request .slots] := by
  rw [subscribed, connected_of_open h]

/-- The subscription is all that a session without a stream does. -/
theorem subscribed_cases (cfg : LoopConfig) (s : Session) :
    subscribed cfg s = [] ∨ subscribed cfg s = [.request .slots] := by
  unfold subscribed
  split
  · exact .inr rfl
  · exact .inl rfl

/-! ## How a session ends -/

/-- The rate limiter answers for a ping, and the answer cannot be sent. -/
def Read.PingFails : Read → Prop
  | .update msg _ _ pingGranted pingSend =>
    msg.updateOneof = some .ping ∧ pingGranted = true ∧ pingSend ≠ none
  | .failure _ => False

/-- The stream ends: no failure is read, and no answer to a ping fails. -/
def StreamEnds (reads : List Read) : Prop :=
  ∀ read ∈ reads, ¬ read.PingFails ∧ ∀ e, read ≠ .failure e

/-- The first thing read is an update. -/
def ReceivesUpdate (reads : List Read) : Prop :=
  ∃ msg nowMs utc pingGranted pingSend rest,
    reads = .update msg nowMs utc pingGranted pingSend :: rest

/-- After an update that fails no ping the loop reads on. -/
theorem readLoop_answered (cfg : LoopConfig) (pingId : Int32) (received : Bool)
    {msg : SubscribeUpdate} {nowMs : UInt64} {utc : String} {pingGranted : Bool}
    {pingSend : Option String}
    (h : ¬ (Read.update msg nowMs utc pingGranted pingSend).PingFails) (rest : List Read) :
    ∃ next, (readLoop cfg pingId received
        (.update msg nowMs utc pingGranted pingSend :: rest)).result =
      (readLoop cfg next true rest).result := by
  by_cases hping : (msg.updateOneof == some .ping && pingGranted) = true
  · cases pingSend with
    | some e =>
      obtain ⟨hm, hg⟩ := Bool.and_eq_true_iff.mp hping
      exact absurd ⟨beq_iff_eq.mp hm, hg, Option.some_ne_none e⟩ h
    | none => exact ⟨pingId + 1, by simp only [readLoop, hping, ↓reduceIte]⟩
  · exact ⟨pingId, by simp only [readLoop, hping, Bool.false_eq_true, ↓reduceIte]⟩

theorem readLoop_result (cfg : LoopConfig) (pingId : Int32) (received : Bool)
    (reads : List Read) :
    (StreamEnds reads → (readLoop cfg pingId received reads).result =
        .ok (received || !reads.isEmpty)) ∧
      (¬ StreamEnds reads → ∃ e, (readLoop cfg pingId received reads).result = .error e) := by
  induction reads generalizing pingId received with
  | nil => simp [readLoop, StreamEnds]
  | cons read rest ih =>
    cases read with
    | failure e =>
      have hfails : ¬ StreamEnds (.failure e :: rest) := fun h => (h _ List.mem_cons_self).2 e rfl
      exact ⟨fun h => absurd h hfails, fun _ => ⟨_, rfl⟩⟩
    | update msg nowMs utc pingGranted pingSend =>
      have hsplit : StreamEnds (.update msg nowMs utc pingGranted pingSend :: rest) ↔
          ¬ (Read.update msg nowMs utc pingGranted pingSend).PingFails ∧ StreamEnds rest := by
        simp [StreamEnds]
      rw [hsplit]
      by_cases hfails : (Read.update msg nowMs utc pingGranted pingSend).PingFails
      · obtain ⟨hm, hg, hs⟩ := hfails
        obtain ⟨e, rfl⟩ := Option.ne_none_iff_exists'.mp hs
        refine ⟨fun h => absurd ⟨hm, hg, hs⟩ h.1, fun _ => ⟨s!"Triton ping send failed: {e}", ?_⟩⟩
        simp [readLoop, hm, hg]
      · obtain ⟨next, hnext⟩ := readLoop_answered cfg pingId received hfails rest
        rw [hnext]
        simpa [hfails] using ih next true

/-! ## Backoff -/

/-- The session received an update. -/
def Healthy (cfg : LoopConfig) (s : Session) : Prop :=
  openStream cfg s = .ok () ∧ ReceivesUpdate s.reads

theorem runSession_healthy {cfg : LoopConfig} {s : Session} (h : Healthy cfg s) :
    (StreamEnds s.reads → (runSession cfg s).result = .ok true) ∧
      (¬ StreamEnds s.reads → ∃ e, (runSession cfg s).result = .error e) := by
  obtain ⟨hopen, _, _, _, _, _, _, hreads⟩ := h
  rw [runSession, hopen]
  simpa [hreads] using readLoop_result cfg 1 false s.reads

/-- Whether the loop resets its backoff after the session. -/
def resets (cfg : LoopConfig) (s : Session) : Bool :=
  match (runSession cfg s).result with
  | .ok received => received
  | .error _ => false

theorem resets_iff {cfg : LoopConfig} {s : Session} (h : Healthy cfg s) :
    resets cfg s ↔ StreamEnds s.reads := by
  obtain ⟨hok, herr⟩ := runSession_healthy h
  unfold resets
  by_cases hends : StreamEnds s.reads
  · simp [hok hends, hends]
  · obtain ⟨e, he⟩ := herr hends
    simp [he, hends]

/-- A turn that reconnects waits the backoff's delay, reset or not. -/
theorem runLiveRound_some (cfg : LoopConfig) (backoff : ReconnectBackoff) (s : Session) :
    ((runLiveRound cfg (some backoff) s).1 = none ∨
        (runLiveRound cfg (some backoff) s).1 = some (backoff.resetIf (resets cfg s)).wait) ∧
      ∀ round delay, (runLiveRound cfg (some backoff) s).2 = some round →
        round.delay = some delay → delay = (backoff.resetIf (resets cfg s)).nextDelay := by
  unfold runLiveRound resets
  simp only
  split
  · rename_i received hres
    simp only [hres]
    refine ⟨by simp, ?_⟩
    rintro _ _ ⟨⟩ ⟨⟩
    rfl
  · rename_i e hres
    simp only [hres]
    split
    · refine ⟨.inl rfl, ?_⟩
      rintro _ _ ⟨⟩ ⟨⟩
    · split
      · refine ⟨.inr rfl, ?_⟩
        rintro _ _ ⟨⟩ ⟨⟩
        rfl
      · refine ⟨.inl rfl, ?_⟩
        rintro _ _ ⟨⟩ ⟨⟩

theorem loop_backoff (cfg : LoopConfig) (sessions : List Session) :
    ∀ backoff, (runs (runLiveRound cfg) (some liveBackoff) sessions).1 = some backoff →
      BackoffAfter sessions.length backoff := by
  refine runs_history (R := fun sessions _ (loop : Option ReconnectBackoff) =>
    ∀ backoff, loop = some backoff → BackoffAfter sessions.length backoff) ?_ ?_ sessions
  · rintro _ ⟨⟩
    exact liveBackoff_after
  · intro sessions _ loop s ih backoff hb
    rw [List.length_append]
    cases loop with
    | none => cases hb
    | some before =>
      rcases (runLiveRound_some cfg before s).1 with hn | hs
      · rw [hn] at hb
        cases hb
      · rw [hs] at hb
        obtain rfl := Option.some.inj hb
        exact (ih before rfl).next _

/-- After a session that received an update and a reconnect, the delay is the
initial one exactly when the stream simply ended or the session was the first. -/
theorem delay_after_healthy (cfg : LoopConfig) (pre post : List Session) {s : Session}
    (h : Healthy cfg s) {round : Round} {delay : Duration}
    (hround : (runs (runLiveRound cfg) (some liveBackoff) (pre ++ s :: post)).2[pre.length]? =
      some (some round)) (hdelay : round.delay = some delay) :
    delay = .fromSecs 5 ↔ StreamEnds s.reads ∨ pre = [] := by
  rw [runs_output] at hround
  have hr := Option.some.inj hround
  cases hb : (runs (runLiveRound cfg) (some liveBackoff) pre).1 with
  | none =>
    rw [hb] at hr
    cases hr
  | some backoff =>
    rw [hb] at hr
    rw [(runLiveRound_some cfg backoff s).2 round delay hr hdelay,
      (loop_backoff cfg pre backoff hb).delay_iff, resets_iff h, List.length_eq_zero_iff]

end FeedMux.Upstream.TritonLive
