import FeedMux.LocalRelay
import FeedMux.Upstream.Triton

/-!
# The local Triton relay (`src/triton_local.rs`)

A client checks the flag and subscribes in two steps. It is told of the last
disconnect exactly when it subscribed before that event was sent; a client
that checked before and subscribed after is not told (`told_iff_joined_before`).
-/

namespace FeedMux.TritonLocal
open FeedMux.Library FeedMux.Library.Broadcast FeedMux.Upstream FeedMux.Upstream.TritonLive

abbrev TritonLocalEvent := LocalEvent SubscribeUpdate

def broadcastCapacity : Nat := 512

def publishUpdate (update : SubscribeUpdate) : List (RelayStep SubscribeUpdate) :=
  LocalRelay.publish update

def setUpstreamConnected (up : Bool) : List (RelayStep SubscribeUpdate) :=
  LocalRelay.setUpstreamConnected up

/-! ## What the live loop does to the relay -/

def relaySteps : TritonEffect → List (RelayStep SubscribeUpdate)
  | .relayStatus up => setUpstreamConnected up
  | .relayMessage update => publishUpdate update
  | _ => []

/-- The relay steps of the turns that the live loop makes. -/
def roundsSteps (rounds : List (Option Round)) : List (RelayStep SubscribeUpdate) :=
  (rounds.reduceOption.flatMap Round.effects).flatMap relaySteps

/-- The relay steps of the live loop over these sessions. -/
def upstreamSteps (cfg : LoopConfig) (sessions : List Session) :
    List (RelayStep SubscribeUpdate) :=
  roundsSteps (runs (runLiveRound cfg) (some liveBackoff) sessions).2

/-! ## A client -/

inductive Client where
  | idle
  | accepted
  | rejected (status : String)
  | streaming (rx : Receiver TritonLocalEvent)
  deriving DecidableEq

/-- `subscribe` checks the flag, then creates the receiver; the stream receives. -/
inductive ClientAction where
  | check
  | join
  | recv
  deriving DecidableEq

def clientStep (relay : LocalRelay SubscribeUpdate) : Client → ClientAction → Option Client
  | .idle, .check =>
    if !relay.upstreamConnected then
      some (.rejected
        "Triton upstream not connected — check ENABLE_TRITON_GRPC and TRITON_GRPC_URL")
    else some .accepted
  | .accepted, .join => some (.streaming (subscribe relay.log))
  | .streaming rx, .recv => (rx.recv broadcastCapacity relay.log).map .streaming
  | _, _ => none

def upstreamDisconnected : String := "Triton upstream disconnected"

/-- A lag yields nothing, and neither does a connect. -/
def streamItem : TritonLocalEvent → Option (Except String SubscribeUpdate)
  | .message update => some (.ok update)
  | .upstreamConnected false => some (.error upstreamDisconnected)
  | .upstreamConnected true => none

/-- What the stream has yielded. -/
def yielded (rx : Receiver TritonLocalEvent) : List (Except String SubscribeUpdate) :=
  rx.received.filterMap fun e => streamItem e.2

abbrev System := RelaySystem SubscribeUpdate Client

/-! ## The last event is a disconnect -/

theorem roundsSteps_concat (rounds : List (Option Round)) (round : Option Round) :
    roundsSteps (rounds ++ [round]) = roundsSteps rounds ++ roundsSteps [round] := by
  simp [roundsSteps, List.reduceOption_append]

theorem relaySteps_disconnected (cfg : LoopConfig) :
    (markTritonDisconnected cfg).flatMap relaySteps =
      if cfg.relay then setUpstreamConnected false else [] := by
  unfold markTritonDisconnected relayStatus
  cases cfg.relay <;> rfl

theorem relaySteps_connected (cfg : LoopConfig) :
    (markTritonConnected cfg).flatMap relaySteps =
      if cfg.relay then setUpstreamConnected true else [] := by
  unfold markTritonConnected relayStatus
  cases cfg.relay <;> rfl

theorem relaySteps_subscribed (cfg : LoopConfig) (s : Session) :
    (subscribed cfg s).flatMap relaySteps = [] := by
  rcases subscribed_cases cfg s with h | h <;> rw [h] <;> rfl

theorem relaySteps_handled (cfg : LoopConfig) (msg : SubscribeUpdate) (nowMs : UInt64)
    (utc : String) : (handleTritonUpdate cfg msg nowMs utc).flatMap relaySteps = [] := rfl

theorem readLoop_no_relay {cfg : LoopConfig} (h : cfg.relay = false) (pingId : Int32)
    (received : Bool) (reads : List Read) :
    (readLoop cfg pingId received reads).effects.flatMap relaySteps = [] := by
  induction reads generalizing pingId received with
  | nil => simp [readLoop, relaySteps_disconnected, h]
  | cons read rest ih =>
    cases read with
    | failure e => rfl
    | update msg nowMs utc pingGranted pingSend =>
      simp only [readLoop, h, Bool.false_eq_true, ↓reduceIte, List.nil_append]
      split
      · split
        · exact relaySteps_handled ..
        · simp only [List.flatMap_append, relaySteps_handled, ih]
          rfl
      · simp only [List.flatMap_append, relaySteps_handled, ih]
        rfl

theorem runSession_no_relay {cfg : LoopConfig} (h : cfg.relay = false) (s : Session) :
    (runSession cfg s).effects.flatMap relaySteps = [] := by
  unfold runSession
  split
  · exact relaySteps_subscribed cfg s
  · simp [relaySteps_subscribed, relaySteps_connected, readLoop_no_relay, h]

/-- Every turn of the loop begins and ends by marking the upstream down. -/
theorem round_marks (cfg : LoopConfig) (backoff : ReconnectBackoff) (s : Session) :
    roundsSteps [(runLiveRound cfg (some backoff) s).2] =
      (markTritonDisconnected cfg).flatMap relaySteps ++
        (runSession cfg s).effects.flatMap relaySteps ++
        (markTritonDisconnected cfg).flatMap relaySteps := by
  unfold runLiveRound
  simp only
  split
  · simp [roundsSteps, List.reduceOption, relaySteps]
  · split
    · simp [roundsSteps, List.reduceOption, relaySteps]
    · split <;> simp [roundsSteps, List.reduceOption, relaySteps]

/-- The steps end by marking the upstream down, if there are any. -/
theorem upstreamSteps_end (cfg : LoopConfig) (sessions : List Session) :
    upstreamSteps cfg sessions = [] ∨
      ∃ steps, upstreamSteps cfg sessions = steps ++ setUpstreamConnected false := by
  refine runs_history (R := fun _ rounds _ => roundsSteps rounds = [] ∨
    ∃ steps, roundsSteps rounds = steps ++ setUpstreamConnected false) (.inl rfl) ?_ sessions
  intro _ rounds loop s ih
  rw [roundsSteps_concat]
  cases loop with
  | none => simpa [runLiveRound, roundsSteps, List.reduceOption] using ih
  | some backoff =>
    rw [round_marks, relaySteps_disconnected]
    cases h : cfg.relay with
    | false => simpa [runSession_no_relay h] using ih
    | true => exact .inr ⟨_, by rw [← List.append_assoc]; rfl⟩

/-- A loop that goes on marks the upstream down again at its next turn. -/
theorem next_turn_marks {cfg : LoopConfig} (h : cfg.relay = true) {sessions : List Session}
    {backoff : ReconnectBackoff}
    (hb : (runs (runLiveRound cfg) (some liveBackoff) sessions).1 = some backoff) (s : Session) :
    ∃ steps, upstreamSteps cfg (sessions ++ [s]) =
      upstreamSteps cfg sessions ++ setUpstreamConnected false ++ steps := by
  unfold upstreamSteps
  rw [runs_concat, hb, roundsSteps_concat, round_marks, relaySteps_disconnected, if_pos h]
  exact ⟨_, by simp only [List.append_assoc]; rfl⟩

/-- The last event of the live loop is a disconnect. -/
theorem last_event {cfg : LoopConfig} {sessions : List Session} {event : TritonLocalEvent}
    (h : (sends (upstreamSteps cfg sessions)).getLast? = some event) :
    event = .upstreamConnected false := by
  rcases upstreamSteps_end cfg sessions with hn | ⟨steps, hs⟩
  · rw [hn] at h
    cases h
  · have he : sends (setUpstreamConnected false) = [.upstreamConnected false] := rfl
    rw [hs, sends_append, he, List.getLast?_concat] at h
    exact (Option.some.inj h).symm

/-! ## Clients -/

theorem mem_yielded {rx : Receiver TritonLocalEvent} :
    .error upstreamDisconnected ∈ yielded rx ↔
      ∃ i, (i, .upstreamConnected false) ∈ rx.received := by
  rw [yielded, List.mem_filterMap]
  constructor
  · rintro ⟨⟨i, event⟩, hm, he⟩
    cases event with
    | message update => cases he
    | upstreamConnected up =>
      cases up with
      | false => exact ⟨i, hm⟩
      | true => cases he
  · rintro ⟨i, hm⟩
    exact ⟨_, hm, rfl⟩

/-- The client streams what is sent after the first `joined` events. -/
def Streams (joined : Nat) (s : System) : Prop :=
  ∃ rx, s.client = .streaming rx ∧ rx.joined = joined ∧ rx.Follows broadcastCapacity s.relay.log

theorem streams_step {joined : Nat} {s t : System} {a : RelayAction ClientAction}
    (h : s.step clientStep a = some t) (hs : Streams joined s) : Streams joined t := by
  obtain ⟨rx, hclient, hjoined, hfollows⟩ := hs
  rcases RelaySystem.step_cases h with ⟨relayStep, _, _, rfl⟩ | ⟨action, client, hc, rfl⟩
  · exact ⟨rx, hclient, hjoined, RelayStep.follows hfollows relayStep⟩
  · rw [hclient] at hc
    cases action with
    | check => cases hc
    | join => cases hc
    | recv =>
      obtain ⟨rx', hr, rfl⟩ := Option.map_eq_some_iff.mp hc
      exact ⟨rx', rfl, (Receiver.recv_joined hr).trans hjoined, hfollows.recv hr⟩

theorem join_streams {s t : System} (h : s.step clientStep (.client .join) = some t) :
    t.relay = s.relay ∧ t.upstream = s.upstream ∧ Streams s.relay.log.length t := by
  obtain ⟨client, hc, rfl⟩ := Option.map_eq_some_iff.mp h
  refine ⟨rfl, rfl, ?_⟩
  cases hs : s.client with
  | accepted =>
    rw [hs] at hc
    obtain rfl := Option.some.inj hc
    exact ⟨_, rfl, rfl, Receiver.subscribe_follows ..⟩
  | _ =>
    rw [hs] at hc
    cases hc

/-- **Who is told.** In every interleaving of the live loop, over any sessions,
with a client: once the loop has done all its steps and the client has drained
its receiver, its stream has yielded the error exactly when a disconnect was
still to be sent as the receiver was created. -/
theorem told_iff_joined_before (cfg : LoopConfig) (sessions : List Session)
    (before after : List (RelayAction ClientAction)) (s₁ s₂ s₃ : System)
    (rx : Receiver TritonLocalEvent)
    (h₁ : runActions (RelaySystem.step clientStep) (.start .idle (upstreamSteps cfg sessions))
      before = some s₁)
    (hjoin : s₁.step clientStep (.client .join) = some s₂)
    (h₃ : runActions (RelaySystem.step clientStep) s₂ after = some s₃)
    (hdone : s₃.upstream = []) (hclient : s₃.client = .streaming rx)
    (hdrained : rx.Drained s₃.relay.log) :
    .error upstreamDisconnected ∈ yielded rx ↔
      .send (.upstreamConnected false) ∈ s₁.upstream := by
  obtain ⟨hrelay, hupstream, hstreams⟩ := join_streams hjoin
  obtain ⟨rx', hclient', hjoined, hfollows⟩ :=
    runActions_invariant (fun _ _ _ => streams_step) h₃ hstreams
  obtain rfl : rx = rx' := Client.streaming.inj (hclient.symm.trans hclient')
  have hlog : s₃.relay.log = s₁.relay.log ++ sends s₁.upstream := by
    have hkept := RelaySystem.sends_kept h₃
    rwa [hdone, hrelay, hupstream, sends_nil, List.append_nil] at hkept
  rw [mem_yielded, ← mem_sends]
  constructor
  · rintro ⟨i, hm⟩
    have hdrop := hfollows.mem_drop hm
    rwa [hlog, hjoined, List.drop_left] at hdrop
  · intro hm
    have hlt : rx.joined < s₃.relay.log.length := by
      have hpos := List.length_pos_of_mem hm
      rw [hjoined, hlog, List.length_append]
      omega
    obtain ⟨event, hlast, i, hi⟩ := hfollows.saw_last (by decide) hdrained hlt
    have hall : s₃.relay.log = sends (upstreamSteps cfg sessions) := by
      rw [hlog, RelaySystem.sends_kept h₁]
      rfl
    rw [hall] at hlast
    exact ⟨i, last_event hlast ▸ hi⟩

/-- The stream opens, then the subscription is denied: the loop halts. -/
def deniedSession : Session := sampleSession [.failure "status: PermissionDenied"]

theorem denied_steps : upstreamSteps sampleConfig [deniedSession] =
    setUpstreamConnected false ++ setUpstreamConnected true ++ setUpstreamConnected false := by
  decide

/-- The client checks while the upstream is up, and joins after its last step. -/
def lateJoin : List (RelayAction ClientAction) :=
  List.replicate 3 .upstream ++ [.client .check] ++ List.replicate 3 .upstream ++ [.client .join]

theorem late_client_hangs :
    (runs (runLiveRound sampleConfig) (some liveBackoff) [deniedSession]).1 = none ∧
      ∃ s rx, runActions (RelaySystem.step clientStep)
          (.start .idle (upstreamSteps sampleConfig [deniedSession])) lateJoin = some s ∧
        s.upstream = [] ∧ s.client = .streaming rx ∧ rx.Drained s.relay.log ∧
        .error upstreamDisconnected ∉ yielded rx :=
  ⟨rfl, by rw [denied_steps]; exact ⟨_, _, rfl, rfl, rfl, rfl, by decide⟩⟩

set_option maxRecDepth 4000 in
/-- A client that joins while the upstream is up is told. -/
theorem early_client_told :
    ∃ s₁ s₂ s₃ rx, runActions (RelaySystem.step clientStep)
        (.start .idle (upstreamSteps sampleConfig [deniedSession]))
        (List.replicate 3 .upstream ++ [.client .check]) = some s₁ ∧
      s₁.step clientStep (.client .join) = some s₂ ∧
      runActions (RelaySystem.step clientStep) s₂
        (List.replicate 3 .upstream ++ [.client .recv, .client .recv]) = some s₃ ∧
      s₃.client = .streaming rx ∧ .error upstreamDisconnected ∈ yielded rx := by
  obtain ⟨s₁, s₂, s₃, rx, h₁, hjoin, h₃, hdone, hclient, hdrained, hsend⟩ :
      ∃ s₁ s₂ s₃ rx, runActions (RelaySystem.step clientStep)
          (.start .idle (upstreamSteps sampleConfig [deniedSession]))
          (List.replicate 3 .upstream ++ [.client .check]) = some s₁ ∧
        s₁.step clientStep (.client .join) = some s₂ ∧
        runActions (RelaySystem.step clientStep) s₂
          (List.replicate 3 .upstream ++ [.client .recv, .client .recv]) = some s₃ ∧
        s₃.upstream = [] ∧ s₃.client = .streaming rx ∧ rx.Drained s₃.relay.log ∧
        .send (.upstreamConnected false) ∈ s₁.upstream := by
    rw [denied_steps]
    exact ⟨_, _, _, _, rfl, rfl, rfl, rfl, rfl, rfl, by decide⟩
  exact ⟨s₁, s₂, s₃, rx, h₁, hjoin, h₃, hclient,
    (told_iff_joined_before sampleConfig [deniedSession] _ _ s₁ s₂ s₃ rx h₁ hjoin h₃ hdone hclient
      hdrained).mpr hsend⟩

end FeedMux.TritonLocal
