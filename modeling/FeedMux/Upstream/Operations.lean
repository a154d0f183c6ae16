import FeedMux.Library.Since
import FeedMux.Upstream.Liveness

/-!
# The operations of the live loops (`src/upstream/titan.rs`, `src/upstream/triton.rs`)

A session event makes a sequence of `RedisFanout` operations. What a live loop
writes to Redis is what the events of its sessions write (`loop_calls`).
-/

namespace FeedMux.Upstream
open FeedMux.Library FeedMux.Library.KeyValue FeedMux.Titan

/-- The Redis calls of an effect. -/
def Effect.redisCalls {δ ρ μ : Type} : Effect δ ρ μ → List (RedisCall δ)
  | .redis calls => calls
  | .connected _ | .publish _ | .relayStatus _ | .relayMessage _ | .request _ | .authBlocked
  | .wait _ => []

/-! ## Titan -/

namespace TitanLive

inductive SessionEvent where
  | connectFailed
  | connected
  | handshake (script : RungScript) (snapshotMs : UInt64) (order : IterationOrder)
  | frame (frame : TitanFrame)
  | disconnected

/-- The operations of an event. After the subscriptions of a handshake the board
is stored as it is. -/
def sessionStep (cfg : LoopConfig) (st : TitanState) :
    SessionEvent → TitanState × List (TitanOp TitanDocument)
  | .connectFailed => (st, [])
  | .connected => (startSession st cfg.ladder, [.upstreamUp true])
  | .handshake script snapshotMs order =>
    let sub := subscribeHuntStreams cfg.wallet script cfg.ladder st
    let (pair, base, mid) := mintPairLabel solMint usdcMint
    match sub.result with
    | .error _ => (sub.st, [])
    | .ok () =>
      (sub.st, [.sizeBoard (.sizeBoard
        (buildSizeBoardDocWithPair sub.st.board order snapshotMs pair base mid))])
  | .frame frame => ((handleTitanServerMessage cfg.env st frame).1, frameOps cfg.env st frame)
  | .disconnected => (st, [.upstreamUp false])

def opsFrom (cfg : LoopConfig) (st : TitanState) (events : List SessionEvent) :
    List (TitanOp TitanDocument) :=
  (runs (sessionStep cfg) st events).2.flatten

theorem opsFrom_append (cfg : LoopConfig) (st : TitanState) (events more : List SessionEvent) :
    opsFrom cfg st (events ++ more) =
      opsFrom cfg st events ++ opsFrom cfg (runs (sessionStep cfg) st events).1 more := by
  simp [opsFrom, runs_append]

/-- What follows the handshake, up to the mark at the end. -/
def readEvents : List Read → List SessionEvent
  | [] | .close :: _ | .ping (some _) :: _ | .failure _ :: _ => [.disconnected]
  | .binary frame :: rest => .frame frame :: readEvents rest
  | .ping none :: rest | .other :: rest => readEvents rest

/-- From the subscriptions on. -/
def subscribedEvents (cfg : LoopConfig) (st : TitanState) (s : Session) : List SessionEvent :=
  .handshake s.rungs s.snapshotMs s.order ::
    match (subscribeHuntStreams cfg.wallet s.rungs cfg.ladder st).result with
    | .error _ => []
    | .ok () => readEvents s.reads

def sessionEvents (cfg : LoopConfig) (st : TitanState) (s : Session) : List SessionEvent :=
  match s.request <|> s.connect with
  | some _ => [.connectFailed]
  | none =>
    .connected ::
      match (sendGetInfo s).2 with
      | .error _ => []
      | .ok () => subscribedEvents cfg (startSession st cfg.ladder) s

/-- A turn of the live loop; it marks the upstream disconnected before and after. -/
def roundEvents (cfg : LoopConfig) (st : TitanState) (s : Session) : List SessionEvent :=
  .disconnected :: (sessionEvents cfg st s ++ [.disconnected])

def loopEvents (cfg : LoopConfig) : TitanState → List Session → List SessionEvent
  | _, [] => []
  | st, s :: rest => roundEvents cfg st s ++ loopEvents cfg (runSession cfg st s).st rest

/-- From one state to another, the effects write what the events write. -/
structure Plays (cfg : LoopConfig) (st : TitanState) (events : List SessionEvent)
    (effects : List TitanEffect) (st' : TitanState) : Prop where
  state : (runs (sessionStep cfg) st events).1 = st'
  calls : effects.flatMap Effect.redisCalls =
    (opsFrom cfg st events).flatMap (TitanOp.calls cfg.env.fanout)

section
variable {cfg : LoopConfig} {st st' st'' : TitanState} {events more : List SessionEvent}
  {effects effects' : List TitanEffect}

theorem Plays.append (h : Plays cfg st events effects st')
    (h' : Plays cfg st' more effects' st'') :
    Plays cfg st (events ++ more) (effects ++ effects') st'' := by
  obtain ⟨rfl, hcalls⟩ := h
  obtain ⟨rfl, hcalls'⟩ := h'
  refine ⟨by rw [runs_append], ?_⟩
  rw [List.flatMap_append, hcalls, hcalls', opsFrom_append, List.flatMap_append]

theorem Plays.silent (h : ∀ e ∈ effects, e.redisCalls = []) : Plays cfg st [] effects st :=
  ⟨rfl, List.flatMap_eq_nil_iff.mpr h⟩

theorem Plays.event {event : SessionEvent} {ops : List (TitanOp TitanDocument)}
    (h : sessionStep cfg st event = (st', ops))
    (hc : effects.flatMap Effect.redisCalls = ops.flatMap (TitanOp.calls cfg.env.fanout)) :
    Plays cfg st [event] effects st' := by
  refine ⟨congrArg Prod.fst h, ?_⟩
  rw [hc, opsFrom, runs_cons, h]
  simp

/-- An event with one operation. -/
theorem Plays.one {event : SessionEvent} {op : TitanOp TitanDocument}
    (h : sessionStep cfg st event = (st', [op])) :
    Plays cfg st [event] [.redis (op.calls cfg.env.fanout)] st' := by
  refine .event h ?_
  rw [List.flatMap_singleton, List.flatMap_singleton]
  rfl

theorem relayStatus_silent (up : Bool) : ∀ e ∈ relayStatus cfg up, e.redisCalls = [] := by
  unfold relayStatus
  split <;> simp [Effect.redisCalls]

theorem disconnect_plays : Plays cfg st [.disconnected] (markTitanDisconnected cfg) st := by
  have hstep : sessionStep cfg st .disconnected = (st, [.upstreamUp false]) := rfl
  have hflag : Plays cfg st [] [.connected false] st := .silent (by simp [Effect.redisCalls])
  exact (hflag.append (.one hstep)).append (.silent (relayStatus_silent false))

theorem connect_plays :
    Plays cfg st [.connected] (markTitanConnected cfg) (startSession st cfg.ladder) := by
  have hstep : sessionStep cfg st .connected =
      (startSession st cfg.ladder, [.upstreamUp true]) := rfl
  have hflag : Plays cfg st [] [.connected true] st := .silent (by simp [Effect.redisCalls])
  exact (hflag.append (.one hstep)).append (.silent (relayStatus_silent true))

/-- A session that ends through `Ok` closes with a mark. -/
def closing (cfg : LoopConfig) (read : ReadEnd) : List TitanEffect :=
  match read.result with
  | .ok _ => markTitanDisconnected cfg
  | .error _ => []

theorem closing_stopped (received : Bool) (e : WsError) {rest : List Read} {read : Read}
    (hread : read = .ping (some e) ∨ read = .failure e) :
    (readLoop cfg st received (read :: rest)).effects ++
        closing cfg (readLoop cfg st received (read :: rest)) = markTitanDisconnected cfg ∧
      (readLoop cfg st received (read :: rest)).st = st := by
  rcases hread with rfl | rfl <;> unfold readLoop closing <;>
    by_cases he : classifyWsError e = .transportError <;> simp [he]

theorem readLoop_plays (received : Bool) (reads : List Read) :
    Plays cfg st (readEvents reads)
      ((readLoop cfg st received reads).effects ++ closing cfg (readLoop cfg st received reads))
      (readLoop cfg st received reads).st := by
  induction reads generalizing st received with
  | nil => exact disconnect_plays
  | cons read rest ih =>
    cases read with
    | binary frame =>
      have hstep : sessionStep cfg st (.frame frame) =
          ((handleTitanServerMessage cfg.env st frame).1, frameOps cfg.env st frame) := rfl
      have hframe : Plays cfg st [.frame frame]
          ((if cfg.relay then [.relayMessage frame.data] else []) ++
            [.redis (handleTitanServerMessage cfg.env st frame).2.calls])
          (handleTitanServerMessage cfg.env st frame).1 := by
        have hrelayed : ∀ e ∈ (if cfg.relay then [.relayMessage frame.data] else [] :
            List TitanEffect), e.redisCalls = [] := by
          split <;> simp [Effect.redisCalls]
        refine (Plays.silent hrelayed).append (.event hstep ?_)
        rw [frameOps_calls]
        exact List.append_nil _
      have hrest := hframe.append (ih true)
      rw [← List.append_assoc] at hrest
      exact hrest
    | ping pong =>
      cases pong with
      | none => exact ih received
      | some e =>
        obtain ⟨heffects, hst⟩ := closing_stopped received e (.inl rfl)
        rw [heffects, hst]
        exact disconnect_plays
    | close => exact disconnect_plays
    | other => exact ih received
    | failure e =>
      obtain ⟨heffects, hst⟩ := closing_stopped received e (.inr rfl)
      rw [heffects, hst]
      exact disconnect_plays

theorem runSubscribed_plays (s : Session) :
    Plays cfg st (subscribedEvents cfg st s) (runSubscribed cfg s st).effects
      (runSubscribed cfg s st).st := by
  have hsent : ∀ e ∈ (subscribeHuntStreams cfg.wallet s.rungs cfg.ladder st).requests.map
      Effect.request, (e : TitanEffect).redisCalls = [] := by
    intro e he
    obtain ⟨request, _, rfl⟩ := List.mem_map.mp he
    rfl
  unfold runSubscribed subscribedEvents
  simp only
  cases hr : (subscribeHuntStreams cfg.wallet s.rungs cfg.ladder st).result with
  | error e =>
    have hstep : sessionStep cfg st (.handshake s.rungs s.snapshotMs s.order) =
        ((subscribeHuntStreams cfg.wallet s.rungs cfg.ladder st).st, []) := by
      simp [sessionStep, hr]
    exact .event hstep (List.flatMap_eq_nil_iff.mpr hsent)
  | ok u =>
    have hstep : ∃ doc, sessionStep cfg st (.handshake s.rungs s.snapshotMs s.order) =
        ((subscribeHuntStreams cfg.wallet s.rungs cfg.ladder st).st, [.sizeBoard doc]) ∧
        (TitanOp.sizeBoard doc).calls cfg.env.fanout = publishSizeBoardSnapshot cfg.env.fanout
          (subscribeHuntStreams cfg.wallet s.rungs cfg.ladder st).st.board s.order s.snapshotMs
          (mintPairLabel solMint usdcMint).1 (mintPairLabel solMint usdcMint).2.1
          (mintPairLabel solMint usdcMint).2.2 := by
      refine ⟨_, ?_, rfl⟩
      simp only [sessionStep, hr]
    obtain ⟨doc, hdoc, hcalls⟩ := hstep
    have hopen := (Plays.silent hsent).append (.one hdoc)
    have hread := hopen.append (readLoop_plays false s.reads)
    rw [hcalls, ← List.append_assoc] at hread
    simp only
    unfold closing at hread
    split at hread
    · rename_i hres
      simp only [hres]
      exact hread
    · rename_i hres
      simp only [hres]
      rw [List.append_nil] at hread
      exact hread

theorem runSession_plays (s : Session) :
    Plays cfg st (sessionEvents cfg st s) (runSession cfg st s).effects
      (runSession cfg st s).st := by
  unfold runSession sessionEvents
  cases s.request <|> s.connect with
  | some e =>
    have hstep : sessionStep cfg st .connectFailed = (st, []) := rfl
    exact .event hstep rfl
  | none =>
    have hinfo : ∀ e ∈ (sendGetInfo s).1, e.redisCalls = [] := by
      unfold sendGetInfo
      split
      · simp
      · split <;> simp [Effect.redisCalls]
    have hopen : Plays cfg st [.connected] (markTitanConnected cfg ++ (sendGetInfo s).1)
        (startSession st cfg.ladder) := connect_plays.append (.silent hinfo)
    simp only
    cases (sendGetInfo s).2 with
    | error e => exact hopen
    | ok u => exact hopen.append (runSubscribed_plays s)

theorem loop_plays (loop : LoopState) (sessions : List Session) :
    Plays cfg loop.st (loopEvents cfg loop.st sessions)
      ((runs (runLiveRound cfg) loop sessions).2.flatMap Round.effects)
      (runs (runLiveRound cfg) loop sessions).1.st := by
  induction sessions generalizing loop with
  | nil => exact .silent (by simp)
  | cons s rest ih =>
    have hwait : Plays cfg (runSession cfg loop.st s).st []
        [.wait (runLiveRound cfg loop s).2.delay] (runSession cfg loop.st s).st :=
      .silent (by simp [Effect.redisCalls])
    have hround := (disconnect_plays.append ((runSession_plays s).append
      (disconnect_plays.append hwait)))
    rw [← round_effects] at hround
    rw [runs_cons, List.flatMap_cons]
    exact hround.append (ih (runLiveRound cfg loop s).1)

end

/-- The operations of the loop. -/
def loopOps (cfg : LoopConfig) (sessions : List Session) : List (TitanOp TitanDocument) :=
  opsFrom cfg {} (loopEvents cfg {} sessions)

/-- **The Titan loop.** Its Redis calls are those of its operations. -/
theorem loop_calls (cfg : LoopConfig) (sessions : List Session) :
    (loopEffects cfg sessions).flatMap Effect.redisCalls =
      (loopOps cfg sessions).flatMap (TitanOp.calls cfg.env.fanout) :=
  (loop_plays .start sessions).calls

/-! ## While connected -/

/-- Marks the upstream as connected. -/
def MarksUp : TitanOp TitanDocument → Prop
  | .upstreamUp true => True
  | _ => False

/-- Counts a published quote. -/
def Quotes : TitanOp TitanDocument → Prop
  | .message .quotePublished _ => True
  | _ => False

/-- Writes the row of a quote. -/
def WritesRow : TitanOp TitanDocument → Prop
  | .hop1 .. => True
  | _ => False

/-- Marks the upstream as disconnected. -/
def Clears : TitanOp TitanDocument → Prop
  | .upstreamUp false => True
  | _ => False

theorem marksUp_iff {op : TitanOp TitanDocument} : MarksUp op ↔ op = .upstreamUp true := by
  unfold MarksUp
  split <;> simp_all

theorem quotes_iff {op : TitanOp TitanDocument} :
    Quotes op ↔ ∃ nowMs, op = .message .quotePublished nowMs := by
  unfold Quotes
  split <;> simp_all

theorem clears_iff {op : TitanOp TitanDocument} : Clears op ↔ op = .upstreamUp false := by
  unfold Clears
  split <;> simp_all

/-- The event is a frame with a quote. -/
def SessionEvent.Publishes (cfg : LoopConfig) (st : TitanState) : SessionEvent → Prop
  | .frame read => (handleTitanServerMessage cfg.env st read).2.kind = .hop1Published
  | _ => False

section
variable {cfg : LoopConfig} {st : TitanState} {event : SessionEvent}

theorem other_ops (h : ¬ event.Publishes cfg st) :
    ∀ op ∈ (sessionStep cfg st event).2, ¬ Quotes op ∧ ¬ WritesRow op := by
  cases event with
  | connectFailed => simp [sessionStep]
  | connected => simp [sessionStep, Quotes, WritesRow]
  | handshake script snapshotMs order =>
    unfold sessionStep
    simp only
    split <;> simp [Quotes, WritesRow]
  | frame frame =>
    unfold sessionStep frameOps
    cases hq : quoteOf cfg.env st frame with
    | some quote =>
      refine absurd ?_ h
      rw [SessionEvent.Publishes, handle_quote hq]
    | none =>
      simp only [hq]
      cases (handleTitanServerMessage cfg.env st frame).2.kind <;>
        simp [answerOps, Quotes, WritesRow]
  | disconnected => simp [sessionStep, Quotes, WritesRow]

variable (cfg st event) in
/-- Only connecting and disconnecting make marks. -/
theorem unmarked_ops (hc : event ≠ .connected) (hd : event ≠ .disconnected) :
    ∀ op ∈ (sessionStep cfg st event).2, ¬ MarksUp op ∧ ¬ Clears op := by
  cases event with
  | connectFailed => simp [sessionStep]
  | connected => exact absurd rfl hc
  | handshake script snapshotMs order =>
    unfold sessionStep
    simp only
    split <;> simp [MarksUp, Clears]
  | frame frame =>
    unfold sessionStep frameOps
    cases hq : quoteOf cfg.env st frame with
    | some quote => simp [hq, publishOps, MarksUp, Clears]
    | none =>
      simp only [hq]
      cases (handleTitanServerMessage cfg.env st frame).2.kind <;>
        simp [answerOps, MarksUp, Clears]
  | disconnected => exact absurd rfl hd

end

theorem opsFrom_cons (cfg : LoopConfig) (st : TitanState) (event : SessionEvent)
    (events : List SessionEvent) :
    opsFrom cfg st (event :: events) =
      (sessionStep cfg st event).2 ++ opsFrom cfg (sessionStep cfg st event).1 events := rfl

/-- Every quote of these operations is counted while connected. -/
abbrev QuotesWhileUp (ops : List (TitanOp TitanDocument)) : Prop :=
  OnlyWhile Quotes MarksUp Clears ops

section
variable (cfg : LoopConfig) {h : List (TitanOp TitanDocument)}

theorem plain_step (hw : QuotesWhileUp h) (st : TitanState) (event : SessionEvent)
    (hp : ¬ event.Publishes cfg st) : QuotesWhileUp (h ++ (sessionStep cfg st event).2) :=
  hw.append_of_none fun op hop => (other_ops hp op hop).1

theorem frame_step (hw : QuotesWhileUp h) (hs : Since MarksUp Clears h) (st : TitanState)
    (frame : TitanFrame) :
    QuotesWhileUp (h ++ (sessionStep cfg st (.frame frame)).2) ∧
      Since MarksUp Clears (h ++ (sessionStep cfg st (.frame frame)).2) := by
  have hops := unmarked_ops cfg st (.frame frame) (by simp) (by simp)
  refine ⟨hw.append_of_since hs hops, ?_⟩
  exact (since_append (fun op hop => (hops op hop).1) h).mpr ⟨fun op hop => (hops op hop).2, hs⟩

theorem reads_step (hw : QuotesWhileUp h) (hs : Since MarksUp Clears h) (st : TitanState)
    (reads : List Read) : QuotesWhileUp (h ++ opsFrom cfg st (readEvents reads)) := by
  have hend (h : List (TitanOp TitanDocument)) (hw : QuotesWhileUp h) (st : TitanState) :
      QuotesWhileUp (h ++ opsFrom cfg st [.disconnected]) := by
    rw [opsFrom_cons, ← List.append_assoc]
    have hplain := plain_step cfg hw st .disconnected (by simp [SessionEvent.Publishes])
    exact hplain.append_of_none (by simp [opsFrom])
  induction reads generalizing h st with
  | nil => exact hend h hw st
  | cons read rest ih =>
    cases read with
    | binary frame =>
      obtain ⟨hw', hs'⟩ := frame_step cfg hw hs st frame
      have hrest := ih hw' hs' (sessionStep cfg st (.frame frame)).1
      rwa [List.append_assoc] at hrest
    | ping pong =>
      cases pong with
      | none => exact ih hw hs st
      | some e => exact hend h hw st
    | close => exact hend h hw st
    | other => exact ih hw hs st
    | failure e => exact hend h hw st

theorem session_step (hw : QuotesWhileUp h) (st : TitanState) (s : Session) :
    QuotesWhileUp (h ++ opsFrom cfg st (sessionEvents cfg st s)) := by
  unfold sessionEvents
  cases s.request <|> s.connect with
  | some e => exact hw.append_of_none (by simp [opsFrom, sessionStep])
  | none =>
    have hopen : QuotesWhileUp (h ++ [.upstreamUp true]) :=
      onlyWhile_concat hw (by simp [Quotes])
    have hup : Since MarksUp Clears (h ++ [.upstreamUp true]) :=
      (since_concat ..).mpr (.inl trivial)
    simp only
    cases (sendGetInfo s).2 with
    | error e =>
      rw [opsFrom_cons, ← List.append_assoc]
      exact hopen.append_of_none (by simp [opsFrom])
    | ok u =>
      let started := startSession st cfg.ladder
      let handshake : SessionEvent := .handshake s.rungs s.snapshotMs s.order
      have hplain := plain_step cfg hopen started handshake
        (by simp [handshake, SessionEvent.Publishes])
      have hmarks := unmarked_ops cfg started handshake (by simp [handshake]) (by simp [handshake])
      have hstill := (since_append (fun op hop => (hmarks op hop).1) _).mpr
        ⟨fun op hop => (hmarks op hop).2, hup⟩
      have hsub : opsFrom cfg st (.connected :: subscribedEvents cfg started s) =
          [.upstreamUp true] ++ ((sessionStep cfg started handshake).2 ++
            opsFrom cfg (sessionStep cfg started handshake).1
              (match (subscribeHuntStreams cfg.wallet s.rungs cfg.ladder started).result with
                | .error _ => []
                | .ok () => readEvents s.reads)) := rfl
      simp only
      rw [hsub, ← List.append_assoc, ← List.append_assoc]
      cases (subscribeHuntStreams cfg.wallet s.rungs cfg.ladder started).result with
      | error e => exact hplain.append_of_none (by simp [opsFrom])
      | ok u => exact reads_step cfg hplain hstill _ s.reads

theorem round_step (hw : QuotesWhileUp h) (st : TitanState) (s : Session) :
    QuotesWhileUp (h ++ opsFrom cfg st (roundEvents cfg st s)) := by
  have hmark (h : List (TitanOp TitanDocument)) (hw : QuotesWhileUp h) :
      QuotesWhileUp (h ++ [.upstreamUp false]) := onlyWhile_concat hw (by simp [Quotes])
  have hops : opsFrom cfg st (roundEvents cfg st s) =
      [.upstreamUp false] ++ (opsFrom cfg st (sessionEvents cfg st s) ++ [.upstreamUp false]) := by
    rw [roundEvents, opsFrom_cons, opsFrom_append]
    rfl
  rw [hops, ← List.append_assoc, ← List.append_assoc]
  exact hmark _ (session_step cfg (hmark h hw) st s)

end

/-- **Quotes of the Titan loop** are counted only while it is connected. -/
theorem quotes_while_up (cfg : LoopConfig) (sessions : List Session) :
    QuotesWhileUp (loopOps cfg sessions) := by
  have hloop : ∀ (st : TitanState) (h : List (TitanOp TitanDocument)), QuotesWhileUp h →
      QuotesWhileUp (h ++ opsFrom cfg st (loopEvents cfg st sessions)) := by
    induction sessions with
    | nil =>
      intro st h hw
      exact hw.append_of_none (by simp [opsFrom, loopEvents])
    | cons s rest ih =>
      intro st h hw
      have hstate : (runs (sessionStep cfg) st (roundEvents cfg st s)).1 =
          (runSession cfg st s).st :=
        (disconnect_plays.append ((runSession_plays s).append disconnect_plays)).state
      rw [loopEvents, opsFrom_append, hstate, ← List.append_assoc]
      exact ih _ _ (round_step cfg hw st s)
  exact hloop {} [] onlyWhile_nil

end TitanLive

/-! ## Triton -/

namespace TritonLive

/-- The operations while reading, a mark at the end of the stream included. -/
def readOps : List Read → List TritonOp
  | [] => [.upstreamUp false]
  | .update msg nowMs _ pingGranted pingSend :: rest =>
    .frame nowMs ::
      if msg.updateOneof == some .ping && pingGranted && pingSend.isSome then [] else readOps rest
  | .failure _ :: _ => []

def sessionOps (cfg : LoopConfig) (s : Session) : List TritonOp :=
  match openStream cfg s with
  | .error _ => []
  | .ok () => .upstreamUp true :: readOps s.reads

def roundOps (cfg : LoopConfig) (s : Session) : List TritonOp :=
  .upstreamUp false :: (sessionOps cfg s ++ [.upstreamUp false])

/-- The operations of the loop from its backoff on; once halted it makes none. -/
def opsFrom (cfg : LoopConfig) : Option ReconnectBackoff → List Session → List TritonOp
  | some backoff, s :: rest =>
    roundOps cfg s ++ opsFrom cfg (runLiveRound cfg (some backoff) s).1 rest
  | none, _ | _, [] => []

def loopOps (cfg : LoopConfig) (sessions : List Session) : List TritonOp :=
  opsFrom cfg (some liveBackoff) sessions

/-- The effects write what the operations write. -/
def Plays (cfg : LoopConfig) (ops : List TritonOp) (effects : List TritonEffect) : Prop :=
  effects.flatMap Effect.redisCalls = ops.flatMap (TritonOp.calls cfg.fanout)

section
variable {cfg : LoopConfig} {ops more : List TritonOp} {effects effects' : List TritonEffect}

theorem Plays.append (h : Plays cfg ops effects) (h' : Plays cfg more effects') :
    Plays cfg (ops ++ more) (effects ++ effects') := by
  unfold Plays at h h' ⊢
  rw [List.flatMap_append, h, h', List.flatMap_append]

theorem Plays.silent (h : ∀ e ∈ effects, e.redisCalls = []) : Plays cfg [] effects :=
  List.flatMap_eq_nil_iff.mpr h

theorem Plays.one (op : TritonOp) : Plays cfg [op] [.redis (op.calls cfg.fanout)] := by
  unfold Plays
  rw [List.flatMap_singleton, List.flatMap_singleton]
  rfl

theorem relayStatus_silent (up : Bool) : ∀ e ∈ relayStatus cfg up, e.redisCalls = [] := by
  unfold relayStatus
  split <;> simp [Effect.redisCalls]

theorem mark_plays (up : Bool) : Plays cfg [.upstreamUp up]
    ([.connected up, .redis (cfg.fanout.setTritonUpstreamUp up)] ++ relayStatus cfg up) := by
  have hflag : Plays cfg [] [.connected up] := .silent (by simp [Effect.redisCalls])
  exact (hflag.append (.one (.upstreamUp up))).append (.silent (relayStatus_silent up))

theorem readLoop_plays (pingId : Int32) (received : Bool) (reads : List Read) :
    Plays cfg (readOps reads) (readLoop cfg pingId received reads).effects := by
  induction reads generalizing pingId received with
  | nil => exact mark_plays false
  | cons read rest ih =>
    cases read with
    | failure e => exact .silent (by simp [readLoop])
    | update msg nowMs utc pingGranted pingSend =>
      have hupdate : Plays cfg [.frame nowMs]
          ((if cfg.relay then [.relayMessage msg] else []) ++
            handleTritonUpdate cfg msg nowMs utc) := by
        have hrelayed : ∀ e ∈ (if cfg.relay then [.relayMessage msg] else [] :
            List TritonEffect), e.redisCalls = [] := by
          split <;> simp [Effect.redisCalls]
        refine (Plays.silent hrelayed).append ?_
        exact (Plays.one (.frame nowMs)).append (.silent (by simp [Effect.redisCalls]))
      have hping : Plays cfg [] [.request (.ping pingId)] := .silent (by simp [Effect.redisCalls])
      unfold readOps readLoop
      by_cases hp : (msg.updateOneof == some .ping && pingGranted) = true
      · simp only [hp, Bool.true_and, ↓reduceIte]
        cases pingSend with
        | some e => exact hupdate
        | none => exact (hupdate.append hping).append (ih (pingId + 1) true)
      · simp only [hp, Bool.false_and, Bool.false_eq_true, ↓reduceIte]
        exact hupdate.append (ih pingId true)

theorem runSession_plays (s : Session) :
    Plays cfg (sessionOps cfg s) (runSession cfg s).effects := by
  have hsent : Plays cfg [] (subscribed cfg s) := by
    refine .silent ?_
    rcases subscribed_cases cfg s with h | h <;> simp [h, Effect.redisCalls]
  unfold runSession sessionOps
  cases openStream cfg s with
  | error e => exact hsent
  | ok u => exact hsent.append ((mark_plays true).append (readLoop_plays 1 false s.reads))

theorem loop_plays (loop : Option ReconnectBackoff) (sessions : List Session) :
    Plays cfg (opsFrom cfg loop sessions)
      ((runs (runLiveRound cfg) loop sessions).2.reduceOption.flatMap Round.effects) := by
  induction sessions generalizing loop with
  | nil =>
    cases loop <;> exact .silent (by simp)
  | cons s rest ih =>
    rw [runs_cons]
    cases loop with
    | none =>
      have hnone : opsFrom cfg none (s :: rest) = opsFrom cfg none rest := by
        cases rest <;> rfl
      rw [hnone]
      exact ih none
    | some backoff =>
      obtain ⟨round, hround, heffects, -⟩ := runLiveRound_turn cfg backoff s
      have hend : Plays cfg [] (endEffects round) := by
        refine .silent ?_
        unfold endEffects
        split
        · simp [Effect.redisCalls]
        · split <;> simp [Effect.redisCalls]
        · simp
      have hplays : Plays cfg (roundOps cfg s) round.effects := by
        rw [heffects]
        exact (mark_plays false).append
          ((runSession_plays s).append ((mark_plays false).append hend))
      rw [hround, List.reduceOption_cons_of_some, List.flatMap_cons]
      exact hplays.append (ih _)

end

/-- **The Triton loop.** Its Redis calls are those of its operations. -/
theorem loop_calls (cfg : LoopConfig) (sessions : List Session) :
    (loopEffects cfg sessions).flatMap Effect.redisCalls =
      (loopOps cfg sessions).flatMap (TritonOp.calls cfg.fanout) :=
  loop_plays (some liveBackoff) sessions

/-! ## While connected -/

def Frames : TritonOp → Prop
  | .frame _ => True
  | _ => False

def MarksUp : TritonOp → Prop
  | .upstreamUp true => True
  | _ => False

def Clears : TritonOp → Prop
  | .upstreamUp false => True
  | _ => False

abbrev FramesWhileUp (ops : List TritonOp) : Prop := OnlyWhile Frames MarksUp Clears ops

theorem reads_step {h : List TritonOp} (hw : FramesWhileUp h) (hs : Since MarksUp Clears h)
    (reads : List Read) : FramesWhileUp (h ++ readOps reads) := by
  induction reads generalizing h with
  | nil => exact onlyWhile_concat hw (by simp [Frames])
  | cons read rest ih =>
    cases read with
    | failure e => exact hw.append_of_none (by simp [readOps])
    | update msg nowMs utc pingGranted pingSend =>
      have hframe : FramesWhileUp (h ++ [.frame nowMs]) := onlyWhile_concat hw fun _ => hs
      have hup : Since MarksUp Clears (h ++ [.frame nowMs]) :=
        (since_concat ..).mpr (.inr ⟨by simp [Clears], hs⟩)
      rw [readOps, List.append_cons]
      split
      · exact hframe.append_of_none (by simp)
      · exact ih hframe hup

theorem round_step {h : List TritonOp} (hw : FramesWhileUp h) (cfg : LoopConfig) (s : Session) :
    FramesWhileUp (h ++ roundOps cfg s) := by
  have hmark (h : List TritonOp) (hw : FramesWhileUp h) (up : Bool) :
      FramesWhileUp (h ++ [.upstreamUp up]) := onlyWhile_concat hw (by simp [Frames])
  rw [roundOps, List.append_cons, ← List.append_assoc]
  refine hmark _ ?_ false
  unfold sessionOps
  cases openStream cfg s with
  | error e => exact (hmark h hw false).append_of_none (by simp)
  | ok u =>
    simp only
    rw [List.append_cons]
    exact reads_step (hmark _ (hmark h hw false) true)
      ((since_concat ..).mpr (.inl trivial)) s.reads

/-- **Frames of the Triton loop** are recorded only while it is connected. -/
theorem frames_while_up (cfg : LoopConfig) (sessions : List Session) :
    FramesWhileUp (loopOps cfg sessions) := by
  have hloop : ∀ (loop : Option ReconnectBackoff) (h : List TritonOp), FramesWhileUp h →
      FramesWhileUp (h ++ opsFrom cfg loop sessions) := by
    induction sessions with
    | nil =>
      intro loop h hw
      exact hw.append_of_none (by cases loop <;> simp [opsFrom])
    | cons s rest ih =>
      intro loop h hw
      cases loop with
      | none => exact hw.append_of_none (by simp [opsFrom])
      | some backoff =>
        rw [opsFrom, ← List.append_assoc]
        exact ih _ _ (round_step hw cfg s)
  exact hloop (some liveBackoff) [] onlyWhile_nil

/-- Every operation sets the upstream's flag. -/
theorem op_sets {δ : Type} {fanout : RedisFanout} (hw : fanout.writes = true) (op : TritonOp)
    (redis : Redis δ) :
    counter (redis.after (op.calls fanout)) MuxKeys.metaTritonUp =
      some (flag (op ≠ .upstreamUp false)) := by
  cases op with
  | upstreamUp up =>
    have hcalls : ((TritonOp.upstreamUp up).calls fanout : List (RedisCall δ)) =
        [[RedisFanout.setInt MuxKeys.metaTritonUp (flag up)]] := RedisFanout.calls_of_writes hw _
    rw [hcalls]
    cases up <;> exact counter_set ..
  | frame nowMs =>
    have hcalls : ((TritonOp.frame nowMs).calls fanout : List (RedisCall δ)) =
        [[.incr MuxKeys.tritonFrames 1, RedisFanout.setMs MuxKeys.tritonLastFrameMs nowMs,
          RedisFanout.setInt MuxKeys.metaTritonUp 1]] := RedisFanout.calls_of_writes hw _
    rw [hcalls]
    exact counter_set ..

/-- If frames are recorded only while connected, the flag is up exactly while it is. -/
theorem ops_up_iff {δ : Type} {fanout : RedisFanout} (hw : fanout.writes = true)
    {redis : Redis δ} (h0 : counter redis MuxKeys.metaTritonUp = some 0) {ops : List TritonOp}
    (hops : FramesWhileUp ops) :
    counter (redis.after (ops.flatMap (TritonOp.calls fanout))) MuxKeys.metaTritonUp = some 1 ↔
      Since MarksUp Clears ops := by
  have hd : ∀ op, Frames op → ¬ Clears op := by
    intro op hf hc
    cases op with
    | upstreamUp up => exact hf
    | frame nowMs => exact hc
  rw [after_flatMap, ← since_or hd hops]
  refine foldl_since (F := fun redis => counter redis MuxKeys.metaTritonUp = some 1) ?_ ?_ ?_ ?_ ops
  · intro redis op hr
    rw [op_sets hw]
    rcases op with (_ | _) | _
    · simp [MarksUp, Frames] at hr
    · rfl
    · rfl
  · intro redis op hr hc
    rw [op_sets hw]
    rcases op with (_ | _) | _
    · decide
    · exact absurd (.inl trivial) hr
    · exact absurd (.inr trivial) hr
  · intro redis op hr hc
    rcases op with (_ | _) | _
    · exact absurd trivial hc
    · exact absurd (.inl trivial) hr
    · exact absurd (.inr trivial) hr
  · rw [h0]
    decide

end TritonLive

end FeedMux.Upstream
