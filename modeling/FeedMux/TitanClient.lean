import FeedMux.TitanLocal
import FeedMux.Upstream.Operations
import FeedMux.Upstream.Reconnect

/-!
# A client of the local Titan relay (`serve_client` in `src/titan_local.rs`)

The relay is written by the live loop, and each client is served by a task of
its own: a handshake, the current status, and then whatever comes first of an
event of the channel and a message of the client. What a client is sent is the
status, then in order and without repetition what the sessions of the loop read
after it subscribed, less what its receiver says it skipped (`client_hears`).
-/

namespace FeedMux.TitanLocal
open FeedMux.Library FeedMux.Library.Broadcast FeedMux.Titan FeedMux.Upstream
open FeedMux.Upstream.TitanLive

/-! ## What the live loop does to the relay -/

def relaySteps : TitanEffect → List (RelayStep Bytes)
  | .relayStatus up => (UpstreamCall.setUpstreamConnected up).steps
  | .relayMessage data => (UpstreamCall.publishFrame data).steps
  | _ => []

def upstreamSteps (cfg : LoopConfig) (sessions : List Session) : List (RelayStep Bytes) :=
  (loopEffects cfg sessions).flatMap relaySteps

/-- What an event of a session tells the clients. -/
def relayEvent : SessionEvent → Option TitanLocalEvent
  | .connected => some (.upstreamConnected true)
  | .disconnected => some (.upstreamConnected false)
  | .frame frame => some (.message frame.data)
  | .connectFailed | .handshake .. => none

/-- The connects, the disconnects and the frames of the sessions, in order. -/
def relayEvents (cfg : LoopConfig) (sessions : List Session) : List TitanLocalEvent :=
  (loopEvents cfg {} sessions).filterMap relayEvent

/-- The effects send what the events tell. -/
def Relays (events : List SessionEvent) (effects : List TitanEffect) : Prop :=
  sends (effects.flatMap relaySteps) = events.filterMap relayEvent

section
variable {cfg : LoopConfig} {events more : List SessionEvent} {effects effects' : List TitanEffect}

theorem Relays.append (h : Relays events effects) (h' : Relays more effects') :
    Relays (events ++ more) (effects ++ effects') := by
  unfold Relays at h h' ⊢
  rw [List.flatMap_append, sends_append, h, h', List.filterMap_append]

theorem Relays.silent (h : ∀ e ∈ effects, relaySteps e = []) : Relays [] effects := by
  unfold Relays
  rw [List.flatMap_eq_nil_iff.mpr h]
  rfl

variable (hr : cfg.relay = true)
include hr

theorem mark_relays (up : Bool) : Relays [if up then .connected else .disconnected]
    (if up then markTitanConnected cfg else markTitanDisconnected cfg) := by
  unfold Relays markTitanConnected markTitanDisconnected relayStatus
  rw [if_pos hr, if_pos hr]
  cases up <;> rfl

theorem readLoop_relays (st : TitanState) (received : Bool) (reads : List Read) :
    Relays (readEvents reads)
      ((readLoop cfg st received reads).effects ++
        closing cfg (readLoop cfg st received reads)) := by
  induction reads generalizing st received with
  | nil => exact mark_relays hr false
  | cons read rest ih =>
    cases read with
    | binary frame =>
      have hframe : Relays [.frame frame] ([.relayMessage frame.data] ++
          [.redis (handleTitanServerMessage cfg.env st frame).2.calls]) := rfl
      have hrest := hframe.append
        (ih (handleTitanServerMessage cfg.env st frame).1 true)
      rw [← List.append_assoc] at hrest
      simp only [readLoop, hr, ↓reduceIte]
      exact hrest
    | ping pong =>
      cases pong with
      | none => exact ih st received
      | some e =>
        rw [(closing_stopped received e (.inl rfl)).1]
        exact mark_relays hr false
    | close => exact mark_relays hr false
    | other => exact ih st received
    | failure e =>
      rw [(closing_stopped received e (.inr rfl)).1]
      exact mark_relays hr false

theorem runSubscribed_relays (st : TitanState) (s : Session) :
    Relays (subscribedEvents cfg st s) (runSubscribed cfg s st).effects := by
  have hsent : Relays [] ((subscribeHuntStreams cfg.wallet s.rungs cfg.ladder st).requests.map
      Effect.request) := by
    refine .silent fun e he => ?_
    obtain ⟨request, _, rfl⟩ := List.mem_map.mp he
    rfl
  have hhandshake (effects : List TitanEffect) (h : Relays [] effects) :
      Relays [.handshake s.rungs s.snapshotMs s.order] effects := h
  unfold runSubscribed subscribedEvents
  simp only
  cases hres : (subscribeHuntStreams cfg.wallet s.rungs cfg.ladder st).result with
  | error e => exact hhandshake _ hsent
  | ok u =>
    have hread := readLoop_relays hr
      (subscribeHuntStreams cfg.wallet s.rungs cfg.ladder st).st false s.reads
    have hsnapshot (calls : List (RedisCall TitanDocument)) :
        Relays [] ([.redis calls] : List TitanEffect) := rfl
    simp only
    unfold closing at hread
    split at hread
    · rename_i hend
      simp only [hend]
      rw [List.append_assoc]
      exact (hhandshake _ (hsent.append (hsnapshot _))).append hread
    · rename_i hend
      simp only [hend]
      rw [List.append_nil] at hread
      exact (hhandshake _ (hsent.append (hsnapshot _))).append hread

theorem runSession_relays (st : TitanState) (s : Session) :
    Relays (sessionEvents cfg st s) (runSession cfg st s).effects := by
  unfold runSession sessionEvents
  cases s.request <|> s.connect with
  | some e => rfl
  | none =>
    have hinfo : Relays [] (sendGetInfo s).1 := by
      refine .silent ?_
      unfold sendGetInfo
      split
      · simp
      · split <;> simp [relaySteps]
    have hopen : Relays [.connected] (markTitanConnected cfg ++ (sendGetInfo s).1) :=
      (mark_relays hr true).append hinfo
    simp only
    cases (sendGetInfo s).2 with
    | error e => exact hopen
    | ok u => exact hopen.append (runSubscribed_relays hr _ s)

theorem loop_relays (loop : LoopState) (sessions : List Session) :
    Relays (loopEvents cfg loop.st sessions)
      ((runs (runLiveRound cfg) loop sessions).2.flatMap Round.effects) := by
  induction sessions generalizing loop with
  | nil => rfl
  | cons s rest ih =>
    have hmark : Relays [.disconnected] (markTitanDisconnected cfg) := mark_relays hr false
    have hwait : Relays [] ([.wait (runLiveRound cfg loop s).2.delay] : List TitanEffect) := rfl
    have hround := hmark.append ((runSession_relays hr loop.st s).append (hmark.append hwait))
    rw [← round_effects] at hround
    rw [runs_cons, List.flatMap_cons]
    exact hround.append (ih (runLiveRound cfg loop s).1)

/-- **The relay of the Titan loop** is sent the frames that its sessions read,
between their connects and disconnects. -/
theorem sends_upstream (sessions : List Session) :
    sends (upstreamSteps cfg sessions) = relayEvents cfg sessions :=
  loop_relays hr .start sessions

end

/-! ## The task of a client -/

/-- Whether a WebSocket error is a normal end of a session. -/
def isExpectedDisconnect (e : WsError) : Bool :=
  match classifyWsError e with
  | .cleanClose | .abruptClose => true
  | .transportError => false

/-- What the client's half of the socket yields. -/
inductive Incoming where
  | ping (payload : Bytes)
  | close
  | ended
  | other
  | failure (e : WsError)

inductive Outgoing where
  | message (message : LocalMessage)
  | pong (payload : Bytes)
  deriving DecidableEq, Repr

/-- A client that has subscribed: the status it is greeted with, its receiver
and how many events that has skipped, the pings read, and what was sent. -/
structure Served where
  initial : Bool
  events : Receiver TitanLocalEvent
  skipped : Nat := 0
  pings : List Bytes := []
  written : List Outgoing := []
  deriving DecidableEq

/-- How far `serve_client` is; `closed` says whether it closed the write half. -/
inductive Conn where
  | accepted
  | upgraded
  | subscribed (events : Receiver TitanLocalEvent)
  | loaded (session : Served)
  | serving (session : Served)
  | finished (session : Option Served) (closed : Bool) (result : Except WsError Unit)
  deriving DecidableEq

/-- What comes next, with the error of the handshake or of the send, if any. -/
inductive ConnAction where
  | handshake (failure : Option WsError)
  | subscribe
  | load
  | greet (failure : Option WsError)
  | recv (failure : Option WsError)
  | read (incoming : Incoming) (failure : Option WsError)

namespace Served

/-- The loop ends through `break` on an expected disconnect, else with the error. -/
def stop (session : Served) (e : WsError) : Conn :=
  if isExpectedDisconnect e then .finished (some session) true (.ok ())
  else .finished (some session) false (.error e)

def send (session : Served) (out : Outgoing) : Option WsError → Conn
  | none => .serving { session with written := session.written ++ [out] }
  | some e => session.stop e

end Served

/-- The channel never closes: the task holds a sender of its own. -/
def serveConn (relay : LocalRelay Bytes) : Conn → ConnAction → Option Conn
  | .accepted, .handshake none => some .upgraded
  | .accepted, .handshake (some e) => some (.finished none false (.error e))
  | .upgraded, .subscribe => some (.subscribed (Broadcast.subscribe relay.log))
  | .subscribed events, .load => some (.loaded { initial := relay.upstreamConnected, events })
  | .loaded session, .greet none =>
    some (.serving { session with written := [.message (statusMessage session.initial)] })
  | .loaded session, .greet (some e) => some (.finished (some session) false (.error e))
  | .serving session, .recv failure =>
    match session.events.next broadcastCapacity relay.log,
        session.events.recv broadcastCapacity relay.log with
    | some (.lagged skipped), some events =>
      some (.serving { session with events, skipped := session.skipped + skipped })
    | some (.event e), some events =>
      some (Served.send { session with events } (.message (eventMessage e)) failure)
    | _, _ => none
  | .serving session, .read incoming failure =>
    match incoming with
    | .ping payload =>
      some (Served.send { session with pings := session.pings ++ [payload] } (.pong payload)
        failure)
    | .close | .ended => some (.finished (some session) true (.ok ()))
    | .other => some (.serving session)
    | .failure e => some (session.stop e)
  | _, _ => none

def Outgoing.message? : Outgoing → Option LocalMessage
  | .message m => some m
  | .pong _ => none

def Outgoing.pong? : Outgoing → Option Bytes
  | .message _ => none
  | .pong payload => some payload

def messagesOf (out : List Outgoing) : List LocalMessage := out.filterMap Outgoing.message?

def pongsOf (out : List Outgoing) : List Bytes := out.filterMap Outgoing.pong?

@[simp] theorem messagesOf_append (out more : List Outgoing) :
    messagesOf (out ++ more) = messagesOf out ++ messagesOf more := List.filterMap_append

@[simp] theorem pongsOf_append (out more : List Outgoing) :
    pongsOf (out ++ more) = pongsOf out ++ pongsOf more := List.filterMap_append

@[simp] theorem messagesOf_message (m : LocalMessage) : messagesOf [.message m] = [m] := rfl

@[simp] theorem messagesOf_pong (payload : Bytes) : messagesOf [.pong payload] = [] := rfl

@[simp] theorem pongsOf_message (m : LocalMessage) : pongsOf [.message m] = [] := rfl

@[simp] theorem pongsOf_pong (payload : Bytes) : pongsOf [.pong payload] = [payload] := rfl

/-- The messages to send for what a receiver received. -/
def heard (events : Receiver TitanLocalEvent) : List LocalMessage :=
  events.received.map fun e => eventMessage e.2

/-- What a client was sent, and what could not be sent to it, are the status and
what it received, and a pong for every ping. -/
structure Told (log : List TitanLocalEvent) (session : Served) (lost : List Outgoing) : Prop where
  follows : session.events.Follows broadcastCapacity log
  counted : session.events.received.length + session.skipped =
    session.events.cursor - session.events.joined
  messages : messagesOf (session.written ++ lost) =
    statusMessage session.initial :: heard session.events
  pongs : pongsOf (session.written ++ lost) = session.pings

/-- At most one send has failed, and then the session is over. -/
def Conn.Faithful (log : List TitanLocalEvent) : Conn → Prop
  | .accepted | .upgraded => True
  | .subscribed events => events.Follows broadcastCapacity log ∧ events.received = [] ∧
      events.cursor = events.joined
  | .loaded session => session.written = [] ∧
      Told log session [.message (statusMessage session.initial)]
  | .serving session => Told log session []
  | .finished session closed result => (closed = true ↔ result = .ok ()) ∧
      ∀ s ∈ session, ∃ lost : Option Outgoing, Told log s lost.toList ∧ (s.written = [] ∨
        ∀ e, result = .error e → classifyWsError e = .transportError)

abbrev ClientSystem := RelaySystem Bytes Conn

section
variable {log : List TitanLocalEvent} {session : Served} {lost : List Outgoing}

/-- Sending leaves what a client was told as it is. -/
theorem Told.send (h : Told log session lost) (e : TitanLocalEvent) :
    Told (log ++ [e]) session lost :=
  ⟨h.follows.send e, h.counted, h.messages, h.pongs⟩

theorem Conn.Faithful.send {conn : Conn} (h : conn.Faithful log) (e : TitanLocalEvent) :
    conn.Faithful (log ++ [e]) := by
  cases conn with
  | accepted => trivial
  | upgraded => trivial
  | subscribed events => exact ⟨h.1.send e, h.2⟩
  | loaded session => exact ⟨h.1, h.2.send e⟩
  | serving session => exact Told.send h e
  | finished session closed result =>
    refine ⟨h.1, fun s hs => ?_⟩
    obtain ⟨lost, htold, hend⟩ := h.2 s hs
    exact ⟨lost, htold.send e, hend⟩

theorem expected_iff (e : WsError) :
    isExpectedDisconnect e = false ↔ classifyWsError e = .transportError := by
  unfold isExpectedDisconnect
  cases classifyWsError e <;> simp

/-- A session that stops has lost what it could not send. -/
theorem stop_faithful (lost : Option Outgoing) (h : Told log session lost.toList) (e : WsError) :
    (session.stop e).Faithful log := by
  unfold Served.stop
  cases he : isExpectedDisconnect e with
  | true =>
    refine ⟨by simp, fun s hs => ?_⟩
    obtain rfl := Option.some.inj hs
    exact ⟨lost, h, .inr (by simp)⟩
  | false =>
    refine ⟨by simp, fun s hs => ?_⟩
    obtain rfl := Option.some.inj hs
    refine ⟨lost, h, .inr ?_⟩
    rintro _ ⟨⟩
    exact (expected_iff e).mp he

theorem send_faithful {out : Outgoing} (h : Told log session [out]) (failure : Option WsError) :
    (session.send out failure).Faithful log := by
  cases failure with
  | none => exact ⟨h.follows, h.counted, by simpa using h.messages, by simpa using h.pongs⟩
  | some e => exact stop_faithful (some out) h e

/-- An event that is received is sent or lost. -/
theorem recv_faithful (skipped : Nat) {session : Served} (h : Told log session [])
    {events : Receiver TitanLocalEvent}
    (hrecv : session.events.recv broadcastCapacity log = some events)
    (hcounted : events.received.length + session.skipped + skipped =
      events.cursor - events.joined) {out : List Outgoing}
    (hmessages : heard events = heard session.events ++ messagesOf out)
    (hpongs : pongsOf out = []) :
    Told log { session with events, skipped := session.skipped + skipped } out where
  follows := h.follows.recv hrecv
  counted := by rw [← hcounted, Nat.add_assoc]
  messages := by
    have hbefore := h.messages
    rw [List.append_nil] at hbefore
    rw [messagesOf_append, hbefore, hmessages]
    rfl
  pongs := by
    have hbefore := h.pongs
    rw [List.append_nil] at hbefore
    rw [pongsOf_append, hbefore, hpongs, List.append_nil]

theorem serve_recv {relay : LocalRelay Bytes} {session : Served} (h : Told relay.log session [])
    {failure : Option WsError} {conn : Conn}
    (hstep : serveConn relay (.serving session) (.recv failure) = some conn) :
    conn.Faithful relay.log := by
  have hcounted := h.counted
  have hjoined := h.follows.joined_le
  simp only [serveConn] at hstep
  split at hstep
  · rename_i skipped events hnext hrecv
    obtain rfl := Option.some.inj hstep
    obtain rfl := Option.some.inj (hrecv.symm.trans (Receiver.recv_lagged hnext))
    refine recv_faithful skipped h hrecv ?_ (by simp [heard, messagesOf]) rfl
    simp only
    omega
  · rename_i e events hnext hrecv
    obtain rfl := Option.some.inj hstep
    obtain rfl := Option.some.inj (hrecv.symm.trans (Receiver.recv_event hnext))
    refine send_faithful (recv_faithful 0 h hrecv ?_ (by simp [heard]) rfl) failure
    simp only [List.length_append, List.length_cons, List.length_nil]
    omega
  · cases hstep

theorem serve_read {relay : LocalRelay Bytes} {session : Served} (h : Told relay.log session [])
    {incoming : Incoming} {failure : Option WsError} {conn : Conn}
    (hstep : serveConn relay (.serving session) (.read incoming failure) = some conn) :
    conn.Faithful relay.log := by
  have hover : (Conn.finished (some session) true (.ok ())).Faithful relay.log := by
    refine ⟨by simp, fun s hs => ?_⟩
    obtain rfl := Option.some.inj hs
    exact ⟨none, h, .inr (by simp)⟩
  cases incoming with
  | ping payload =>
    obtain rfl := Option.some.inj hstep
    have hpinged : Told relay.log { session with pings := session.pings ++ [payload] }
        [.pong payload] := by
      refine ⟨h.follows, h.counted, ?_, ?_⟩
      · have hbefore := h.messages
        rw [List.append_nil] at hbefore
        rw [messagesOf_append, hbefore, messagesOf_pong, List.append_nil]
      · have hbefore := h.pongs
        rw [List.append_nil] at hbefore
        rw [pongsOf_append, hbefore, pongsOf_pong]
    exact send_faithful hpinged failure
  | close | ended =>
    obtain rfl := Option.some.inj hstep
    exact hover
  | other =>
    obtain rfl := Option.some.inj hstep
    exact h
  | failure e =>
    obtain rfl := Option.some.inj hstep
    exact stop_faithful none h e

/-- One action of the client's task. -/
theorem serveConn_faithful {relay : LocalRelay Bytes} {conn conn' : Conn} {action : ConnAction}
    (h : conn.Faithful relay.log) (hstep : serveConn relay conn action = some conn') :
    conn'.Faithful relay.log := by
  cases conn with
  | accepted =>
    cases action with
    | handshake failure => cases failure <;> obtain rfl := Option.some.inj hstep <;>
        simp [Conn.Faithful]
    | _ => cases hstep
  | upgraded =>
    cases action with
    | subscribe =>
      obtain rfl := Option.some.inj hstep
      exact ⟨Receiver.subscribe_follows .., rfl, rfl⟩
    | _ => cases hstep
  | subscribed events =>
    cases action with
    | load =>
      obtain rfl := Option.some.inj hstep
      obtain ⟨hfollows, hnone, hat⟩ := h
      exact ⟨rfl, hfollows, by simp [hnone, hat], by simp [heard, hnone], rfl⟩
    | _ => cases hstep
  | loaded session =>
    obtain ⟨hnone, htold⟩ := h
    cases action with
    | greet failure =>
      cases failure with
      | none =>
        obtain rfl := Option.some.inj hstep
        have hmessages := htold.messages
        have hpongs := htold.pongs
        rw [hnone] at hmessages hpongs
        exact ⟨htold.follows, htold.counted, hmessages, hpongs⟩
      | some e =>
        obtain rfl := Option.some.inj hstep
        refine ⟨by simp, fun s hs => ?_⟩
        obtain rfl := Option.some.inj hs
        exact ⟨some _, htold, .inl hnone⟩
    | _ => cases hstep
  | serving session =>
    cases action with
    | recv failure => exact serve_recv h hstep
    | read incoming failure => exact serve_read h hstep
    | _ => cases hstep
  | finished session closed result => cases hstep

end

theorem client_step {s t : ClientSystem} {a : RelayAction ConnAction}
    (h : s.step serveConn a = some t) (hs : s.client.Faithful s.relay.log) :
    t.client.Faithful t.relay.log := by
  rcases RelaySystem.step_cases h with ⟨relayStep, rest, -, rfl⟩ | ⟨action, conn, hc, rfl⟩
  · cases relayStep with
    | store up => exact hs
    | send event => exact hs.send event
  · exact serveConn_faithful hs hc

/-- The session of a client that has loaded the flag. -/
def Conn.session? : Conn → Option Served
  | .loaded session | .serving session => some session
  | .finished session .. => session
  | .accepted | .upgraded | .subscribed _ => none

theorem Conn.Faithful.told {log : List TitanLocalEvent} {conn : Conn} (h : conn.Faithful log)
    {session : Served} (hs : conn.session? = some session) :
    ∃ lost : Option Outgoing, Told log session lost.toList := by
  cases conn with
  | accepted | upgraded => cases hs
  | subscribed events => cases hs
  | loaded session =>
    obtain rfl := Option.some.inj hs
    exact ⟨some _, h.2⟩
  | serving session =>
    obtain rfl := Option.some.inj hs
    exact ⟨none, h⟩
  | finished s closed result =>
    obtain ⟨lost, htold, -⟩ := h.2 session hs
    exact ⟨lost, htold⟩

/-- **Clients of the Titan relay.** In every interleaving of the live loop with
the task of a client, whatever sends fail: apart from at most one message that
could not be sent, the client was sent the status and then events that the
sessions of the loop told after it subscribed, in order and without repetition;
those left out are as many as its receiver reported skipped. The session errs only
on a transport error, except that any error of sending the greeting ends it. -/
theorem client_hears (cfg : LoopConfig) (hr : cfg.relay = true) (sessions : List Session)
    (actions : List (RelayAction ConnAction)) (s : ClientSystem)
    (h : runActions (RelaySystem.step serveConn)
      (.start .accepted (upstreamSteps cfg sessions)) actions = some s)
    (session : Served) (hs : s.client.session? = some session) :
    let told := session.events.passed (relayEvents cfg sessions)
    ∃ (lost : Option Outgoing) (events : List TitanLocalEvent),
      messagesOf (session.written ++ lost.toList) =
        statusMessage session.initial :: events.map eventMessage ∧
      events.Sublist told ∧ events.length + session.skipped = told.length ∧
      pongsOf (session.written ++ lost.toList) = session.pings ∧
      ∀ closed result, s.client = .finished (some session) closed result →
        (closed = true ↔ result = .ok ()) ∧ (session.written = [] ∨
          ∀ e, result = .error e → classifyWsError e = .transportError) := by
  intro told
  have hfaithful := runActions_invariant (I := fun t : ClientSystem =>
    t.client.Faithful t.relay.log) (fun _ _ _ => client_step) h trivial
  obtain ⟨lost, htold⟩ := hfaithful.told hs
  have hlog : s.relay.log <+: relayEvents cfg sessions := by
    have hkept := RelaySystem.sends_kept h
    rw [← sends_upstream hr]
    exact ⟨_, hkept⟩
  have hpassed : told = session.events.passed s.relay.log := htold.follows.passed_of_prefix hlog
  refine ⟨lost, session.events.received.map Prod.snd, ?_, ?_, ?_, htold.pongs, ?_⟩
  · rw [htold.messages, heard, List.map_map]
    rfl
  · rw [hpassed]
    exact htold.follows.received_sublist
  · rw [hpassed, htold.follows.length_passed, List.length_map]
    exact htold.counted
  · intro closed result hclient
    rw [hclient] at hfaithful
    obtain ⟨_, -, hend⟩ := hfaithful.2 session rfl
    exact ⟨hfaithful.1, hend⟩

/-! A client joins before the session connects, and its third send is reset. -/

theorem sampleSteps : upstreamSteps titanSample [titanSession .close] =
    [.store false, .send (.upstreamConnected false), .store true, .send (.upstreamConnected true),
      .send (.message []), .store false, .send (.upstreamConnected false), .store false,
      .send (.upstreamConnected false)] := by decide +kernel

def sampleActions : List (RelayAction ConnAction) :=
  [.upstream, .upstream, .client (.handshake none), .client .subscribe, .client .load,
    .client (.greet none), .upstream, .upstream, .upstream, .client (.recv none),
    .client (.read (.ping [7]) none), .client (.recv (some (.io .connectionReset)))]

def sampleServed : Served where
  initial := false
  events := ⟨1, 3, [(1, .upstreamConnected true), (2, .message [])]⟩
  pings := [[7]]
  written := [.message (statusMessage false), .message (statusMessage true), .pong [7]]

theorem client_hears_sample :
    ∃ (lost : Option Outgoing) (events : List TitanLocalEvent),
      messagesOf (sampleServed.written ++ lost.toList) =
        statusMessage false :: events.map eventMessage ∧
      events.Sublist (sampleServed.events.passed
        (relayEvents titanSample [titanSession .close])) := by
  have hrun : runActions (RelaySystem.step serveConn)
      (.start .accepted (upstreamSteps titanSample [titanSession .close])) sampleActions =
      some ⟨⟨true, [.upstreamConnected false, .upstreamConnected true, .message []]⟩,
        [.store false, .send (.upstreamConnected false), .store false,
          .send (.upstreamConnected false)], .finished (some sampleServed) true (.ok ())⟩ := by
    rw [sampleSteps]
    decide +kernel
  obtain ⟨lost, events, hmessages, hsublist, -⟩ := client_hears titanSample rfl
    [titanSession .close] sampleActions _ hrun sampleServed rfl
  exact ⟨lost, events, hmessages, hsublist⟩

end FeedMux.TitanLocal
