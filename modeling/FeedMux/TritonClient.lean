import FeedMux.TritonLocal
import FeedMux.Upstream.Sinks

/-!
# A stream of the local Triton relay (`subscribe` in `src/triton_local.rs`)

A stream is refused while the upstream is down. One that is accepted is told the
updates received since it subscribed, and an error for each disconnect, so the
updates told between two errors come from one session (`stream_hears`).
-/

namespace FeedMux.TritonLocal
open FeedMux.Library FeedMux.Library.Broadcast FeedMux.Upstream FeedMux.Upstream.TritonLive

/-! ## What a turn of the loop tells a stream -/

/-- What a stream yields for these steps of the relay. -/
def itemsOf (steps : List (RelayStep SubscribeUpdate)) : List (Except String SubscribeUpdate) :=
  (sends steps).filterMap streamItem

/-- The relay steps of a session. -/
def sessionSteps (cfg : LoopConfig) (s : Session) : List (RelayStep SubscribeUpdate) :=
  (runSession cfg s).effects.flatMap relaySteps

/-- The relay steps of a turn of the loop. -/
def turnSteps (cfg : LoopConfig) (s : Session) : List (RelayStep SubscribeUpdate) :=
  setUpstreamConnected false ++ (sessionSteps cfg s ++ setUpstreamConnected false)

/-- The updates that a session receives, as a stream yields them. -/
def sessionItems (cfg : LoopConfig) (s : Session) : List (Except String SubscribeUpdate) :=
  ((sessionReceived cfg s).map (·.msg)).map .ok

@[simp] theorem itemsOf_append (steps more : List (RelayStep SubscribeUpdate)) :
    itemsOf (steps ++ more) = itemsOf steps ++ itemsOf more := by
  rw [itemsOf, sends_append, List.filterMap_append]
  rfl

section
variable {cfg : LoopConfig} (hr : cfg.relay = true)

include hr in

/-- Reading tells of the updates, and of the stream's end. -/
theorem readLoop_items (pingId : Int32) (done : Bool) (reads : List Read) :
    ∃ tail, (tail = [] ∨ tail = [.error upstreamDisconnected]) ∧
      itemsOf ((readLoop cfg pingId done reads).effects.flatMap relaySteps) =
        ((received reads).map (·.msg)).map .ok ++ tail := by
  induction reads generalizing pingId done with
  | nil =>
    refine ⟨[.error upstreamDisconnected], .inr rfl, ?_⟩
    simp only [readLoop, relaySteps_disconnected, hr, ↓reduceIte]
    rfl
  | cons read rest ih =>
    cases read with
    | failure e => exact ⟨[], .inl rfl, rfl⟩
    | update msg nowMs utc pingGranted pingSend =>
      let item : Except String SubscribeUpdate := .ok msg
      unfold received readLoop
      simp only [hr, ↓reduceIte]
      by_cases hp : (msg.updateOneof == some .ping && pingGranted) = true
      · simp only [hp, Bool.true_and, ↓reduceIte]
        cases pingSend with
        | some e => exact ⟨[], .inl rfl, rfl⟩
        | none =>
          obtain ⟨tail, htail, hitems⟩ := ih (pingId + 1) true
          exact ⟨tail, htail, congrArg (List.cons item) hitems⟩
      · simp only [hp, Bool.false_and, Bool.false_eq_true, ↓reduceIte]
        obtain ⟨tail, htail, hitems⟩ := ih pingId true
        exact ⟨tail, htail, congrArg (List.cons item) hitems⟩

include hr in
theorem sessionSteps_items (s : Session) :
    ∃ tail, (tail = [] ∨ tail = [.error upstreamDisconnected]) ∧
      itemsOf (sessionSteps cfg s) = sessionItems cfg s ++ tail := by
  unfold sessionSteps runSession sessionItems sessionReceived
  cases openStream cfg s with
  | error e => exact ⟨[], .inl rfl, by simp [relaySteps_subscribed, itemsOf]⟩
  | ok u =>
    obtain ⟨tail, htail, hitems⟩ := readLoop_items hr 1 false s.reads
    refine ⟨tail, htail, ?_⟩
    rw [← hitems]
    simp only [List.flatMap_append, relaySteps_subscribed, relaySteps_connected, hr, ↓reduceIte]
    rfl

include hr in
/-- A loop that has halted makes no turn. -/
theorem upstreamSteps_turn (pre : List Session) (s : Session) :
    upstreamSteps cfg (pre ++ [s]) = upstreamSteps cfg pre ∨
      upstreamSteps cfg (pre ++ [s]) = upstreamSteps cfg pre ++ turnSteps cfg s := by
  unfold upstreamSteps
  rw [runs_concat, roundsSteps_concat]
  cases (runs (runLiveRound cfg) (some liveBackoff) pre).1 with
  | none => exact .inl (List.append_nil _)
  | some backoff =>
    rw [round_marks, relaySteps_disconnected, if_pos hr, List.append_assoc]
    exact .inr rfl

theorem turn_items (s : Session) : itemsOf (turnSteps cfg s) =
    .error upstreamDisconnected ::
      (itemsOf (sessionSteps cfg s) ++ [.error upstreamDisconnected]) := by
  rw [turnSteps, itemsOf_append, itemsOf_append]
  rfl

include hr in
/-- Updates without an error between them are from one session. -/
theorem one_session {s : Session} {updates : List SubscribeUpdate} (hne : updates ≠ [])
    (h : updates.map .ok <:+: itemsOf (turnSteps cfg s)) :
    updates <:+: (sessionReceived cfg s).map (·.msg) := by
  have hsep : .error upstreamDisconnected ∉ updates.map Except.ok := by simp
  obtain ⟨tail, htail, hitems⟩ := sessionSteps_items hr s
  have hnot : ¬ updates.map Except.ok <:+: ([] : List (Except String SubscribeUpdate)) := by
    simpa using hne
  rw [turn_items, hitems, ← List.nil_append (_ :: _)] at h
  have hsession : updates.map .ok <:+: sessionItems cfg s := by
    have hturn := (infix_around h hsep).resolve_left hnot
    have hbefore := (infix_around hturn hsep).resolve_right hnot
    rcases htail with rfl | rfl
    · rwa [List.append_nil] at hbefore
    · exact (infix_around hbefore hsep).resolve_right hnot
  obtain ⟨part, hpart, heq⟩ := List.infix_map_iff.mp hsession
  obtain rfl := List.map_injective_iff.mpr (fun _ _ => Except.ok.inj) heq
  exact hpart

include hr in
/-- The same for what is told once the sessions before are over. -/
theorem stretch_of_session {pre post : List Session} {start : Nat}
    (hstart : (sends (upstreamSteps cfg pre)).length ≤ start) {updates : List SubscribeUpdate}
    (hne : updates ≠ []) (h : updates.map .ok <:+:
      ((sends (upstreamSteps cfg (pre ++ post))).drop start).filterMap streamItem) :
    ∃ s ∈ post, updates <:+: (sessionReceived cfg s).map (·.msg) := by
  induction post using List.reverseRecOn with
  | nil =>
    rw [List.append_nil, List.drop_eq_nil_of_le hstart] at h
    simp [hne] at h
  | append_singleton post s ih =>
    rw [← List.append_assoc] at h
    rcases upstreamSteps_turn hr (pre ++ post) s with hturn | hturn
    · rw [hturn] at h
      obtain ⟨t, ht, hpart⟩ := ih h
      exact ⟨t, List.mem_append_left _ ht, hpart⟩
    · have hs : s ∈ post ++ [s] := by simp
      rw [hturn, sends_append, List.drop_append, List.filterMap_append] at h
      by_cases hlate : (sends (upstreamSteps cfg (pre ++ post))).length ≤ start
      · rw [List.drop_eq_nil_of_le hlate] at h
        have hpart := (List.drop_suffix (start - (sends (upstreamSteps cfg (pre ++ post))).length)
          (sends (turnSteps cfg s))).filterMap streamItem
        exact ⟨s, hs, one_session hr hne (h.trans hpart.isInfix)⟩
      · have hzero : start - (sends (upstreamSteps cfg (pre ++ post))).length = 0 := by omega
        have hsep : .error upstreamDisconnected ∉ updates.map Except.ok := by simp
        rw [hzero, List.drop_zero, ← itemsOf, turn_items] at h
        rcases infix_around h hsep with hbefore | hin
        · obtain ⟨t, ht, hpart⟩ := ih hbefore
          exact ⟨t, List.mem_append_left _ ht, hpart⟩
        · exact ⟨s, hs, one_session hr hne (turn_items s ▸ List.infix_cons hin)⟩

/-! ## Which clients are accepted -/

/-- The relay after these steps. -/
def relayAfter (steps : List (RelayStep SubscribeUpdate)) : LocalRelay SubscribeUpdate :=
  steps.foldl RelayStep.apply {}

/-- The loop is in the turn of this session, whose stream opens, and has these steps
still to do. -/
structure UnderWay (cfg : LoopConfig) (sessions pre : List Session) (s : Session)
    (post : List Session) (ahead : List (RelayStep SubscribeUpdate)) : Prop where
  split : sessions = pre ++ s :: post
  opens : openStream cfg s = .ok ()
  turn : ∃ part, part <+: turnSteps cfg s ∧
    upstreamSteps cfg sessions = upstreamSteps cfg pre ++ part ++ ahead

theorem relayAfter_append (steps more : List (RelayStep SubscribeUpdate)) :
    relayAfter (steps ++ more) = more.foldl RelayStep.apply (relayAfter steps) :=
  List.foldl_append

theorem unraised {steps : List (RelayStep SubscribeUpdate)} (h : .store true ∉ steps)
    {relay : LocalRelay SubscribeUpdate} (hdown : relay.upstreamConnected = false) :
    (steps.foldl RelayStep.apply relay).upstreamConnected = false := by
  induction steps generalizing relay with
  | nil => exact hdown
  | cons relayStep rest ih =>
    rw [List.mem_cons, not_or] at h
    refine ih h.2 ?_
    cases relayStep with
    | store up =>
      cases up with
      | false => rfl
      | true => exact absurd rfl h.1
    | send event => exact hdown

theorem relay_down (sessions : List Session) :
    (relayAfter (upstreamSteps cfg sessions)).upstreamConnected = false := by
  rcases upstreamSteps_end cfg sessions with hnone | ⟨steps, hsteps⟩
  · rw [hnone]
    rfl
  · rw [hsteps, relayAfter_append]
    rfl

/-- In a part of a turn that leaves the flag up, the stream has opened. -/
theorem opened_of_up {s : Session} {relay : LocalRelay SubscribeUpdate}
    (hdown : relay.upstreamConnected = false) {part : List (RelayStep SubscribeUpdate)}
    (h : part <+: turnSteps cfg s)
    (hup : (part.foldl RelayStep.apply relay).upstreamConnected = true) :
    openStream cfg s = .ok () := by
  have hraised : .store true ∈ part := by
    by_contra hno
    rw [unraised hno hdown] at hup
    cases hup
  cases hopen : openStream cfg s with
  | ok u => rfl
  | error e =>
    have hturn : turnSteps cfg s = setUpstreamConnected false ++ setUpstreamConnected false := by
      simp [turnSteps, sessionSteps, runSession, hopen, relaySteps_subscribed]
    have hdowns : .store true ∉ setUpstreamConnected false ++ setUpstreamConnected false := by
      simp [setUpstreamConnected, LocalRelay.setUpstreamConnected]
    rw [hturn] at h
    exact absurd (h.subset hraised) hdowns

include hr in
/-- The flag is up only in the turn of a session whose stream opens. -/
theorem flag_opened {sessions : List Session} {steps : List (RelayStep SubscribeUpdate)}
    (h : steps <+: upstreamSteps cfg sessions)
    (hup : (relayAfter steps).upstreamConnected = true) :
    ∃ pre s post part, sessions = pre ++ s :: post ∧ openStream cfg s = .ok () ∧
      part <+: turnSteps cfg s ∧ steps = upstreamSteps cfg pre ++ part := by
  induction sessions using List.reverseRecOn with
  | nil =>
    obtain rfl := List.prefix_nil.mp h
    cases hup
  | append_singleton before last ih =>
    have hearlier (hbefore : steps <+: upstreamSteps cfg before) :
        ∃ pre s post part, before ++ [last] = pre ++ s :: post ∧ openStream cfg s = .ok () ∧
          part <+: turnSteps cfg s ∧ steps = upstreamSteps cfg pre ++ part := by
      obtain ⟨pre, s, post, part, rfl, hopens, hpart⟩ := ih hbefore
      exact ⟨pre, s, post ++ [last], part, by simp, hopens, hpart⟩
    rcases upstreamSteps_turn hr before last with hturn | hturn
    · exact hearlier (hturn ▸ h)
    · rw [hturn] at h
      rcases part_of_append h with hbefore | ⟨part, hpart, rfl⟩
      · exact hearlier hbefore
      · rw [relayAfter_append] at hup
        exact ⟨before, last, [], part, rfl, opened_of_up (relay_down before) hpart hup, hpart, rfl⟩

/-- The relay is as the loop's steps so far have left it. -/
def Relayed (cfg : LoopConfig) (sessions : List Session) (s : System) : Prop :=
  ∃ steps, steps ++ s.upstream = upstreamSteps cfg sessions ∧ s.relay = relayAfter steps

theorem relayed_step {sessions : List Session} {s t : System} {a : RelayAction ClientAction}
    (h : s.step clientStep a = some t) (hs : Relayed cfg sessions s) :
    Relayed cfg sessions t := by
  obtain ⟨steps, hall, hrelay⟩ := hs
  rcases RelaySystem.step_cases h with ⟨relayStep, rest, hup, rfl⟩ | ⟨action, client, hc, rfl⟩
  · refine ⟨steps ++ [relayStep], by rw [← hall, hup, ← List.append_cons], ?_⟩
    rw [hrelay, relayAfter_append]
    rfl
  · exact ⟨steps, hall, hrelay⟩

/-- What an action of the client does. -/
theorem clientStep_cases {relay : LocalRelay SubscribeUpdate} {client client' : Client}
    {action : ClientAction} (h : clientStep relay client action = some client') :
    (∃ status, client' = .rejected status) ∨
      (relay.upstreamConnected = true ∧ client' = .accepted) ∨
      (client = .accepted ∧ client' = .streaming (subscribe relay.log)) ∨
      ∃ rx rx', client = .streaming rx ∧ rx.recv broadcastCapacity relay.log = some rx' ∧
        client' = .streaming rx' := by
  cases client with
  | idle =>
    cases action with
    | check =>
      cases hup : relay.upstreamConnected with
      | false =>
        simp only [clientStep, hup] at h
        exact .inl ⟨_, (Option.some.inj h).symm⟩
      | true =>
        simp only [clientStep, hup] at h
        exact .inr (.inl ⟨rfl, (Option.some.inj h).symm⟩)
    | _ => cases h
  | accepted =>
    cases action with
    | join => exact .inr (.inr (.inl ⟨rfl, (Option.some.inj h).symm⟩))
    | _ => cases h
  | rejected status => cases action <;> cases h
  | streaming rx =>
    cases action with
    | recv =>
      obtain ⟨rx', hrecv, rfl⟩ := Option.map_eq_some_iff.mp h
      exact .inr (.inr (.inr ⟨rx, rx', rfl, hrecv, rfl⟩))
    | _ => cases h

include hr in
/-- A client that checks is accepted in the turn of a session whose stream opens. -/
theorem accepted_under_way {sessions : List Session} {s t : System} (hs : Relayed cfg sessions s)
    (hcheck : s.step clientStep (.client .check) = some t) (hc : t.client = .accepted) :
    t.relay = s.relay ∧ t.upstream = s.upstream ∧
      ∃ pre first post, UnderWay cfg sessions pre first post s.upstream := by
  obtain ⟨client, hclient, rfl⟩ := Option.map_eq_some_iff.mp hcheck
  obtain rfl : client = .accepted := hc
  refine ⟨rfl, rfl, ?_⟩
  obtain ⟨steps, hall, hrelay⟩ := hs
  have hup : s.relay.upstreamConnected = true := by
    rcases clientStep_cases hclient with ⟨status, hno⟩ | ⟨hup, -⟩ | ⟨-, hno⟩ | ⟨_, _, -, -, hno⟩
    · cases hno
    · exact hup
    · cases hno
    · cases hno
  rw [hrelay] at hup
  obtain ⟨pre, first, post, part, hsplit, hopens, hpart, rfl⟩ := flag_opened hr ⟨_, hall⟩ hup
  exact ⟨pre, first, post, hsplit, hopens, part, hpart, hall.symm⟩

end

/-- A stream follows what is sent after this position. -/
structure Follows (position : Nat) (s : System) : Prop where
  sent : position ≤ s.relay.log.length
  streaming : ∀ rx, s.client = .streaming rx →
    rx.Follows broadcastCapacity s.relay.log ∧ position ≤ rx.joined

theorem follows_step {position : Nat} {s t : System} {a : RelayAction ClientAction}
    (h : s.step clientStep a = some t) (hs : Follows position s) : Follows position t := by
  rcases RelaySystem.step_cases h with ⟨relayStep, _, _, rfl⟩ | ⟨action, client, hc, rfl⟩
  · refine ⟨?_, ?_⟩
    · refine hs.sent.trans ?_
      cases relayStep with
      | store up => exact le_refl _
      | send event => simp [RelayStep.apply]
    · intro rx hclient
      obtain ⟨hfollows, hjoined⟩ := hs.streaming rx hclient
      exact ⟨RelayStep.follows hfollows relayStep, hjoined⟩
  · refine ⟨hs.sent, ?_⟩
    intro rx hstream
    rcases clientStep_cases hc with ⟨status, rfl⟩ | ⟨-, rfl⟩ | ⟨-, rfl⟩ |
      ⟨earlier, rx', hclient, hrecv, rfl⟩
    · cases hstream
    · cases hstream
    · obtain rfl := Client.streaming.inj hstream
      exact ⟨Receiver.subscribe_follows .., hs.sent⟩
    · obtain rfl := Client.streaming.inj hstream
      obtain ⟨hfollows, hjoined⟩ := hs.streaming earlier hclient
      rw [Receiver.recv_joined hrecv]
      exact ⟨hfollows.recv hrecv, hjoined⟩

/-- **Streams of the Triton relay.** In every interleaving of the live loop with a
client whose check is accepted, what its stream has yielded is some of what it was
told since it subscribed, the updates and the disconnects, in their order, and all
of it if it skipped nothing. The check falls into the turn of a session whose stream
opens. Nothing is from before the check, and the updates told between two errors are
consecutive updates of that session or of one after it. -/
theorem stream_hears (cfg : LoopConfig) (hr : cfg.relay = true) (sessions : List Session)
    (before after : List (RelayAction ClientAction)) (s₁ s₂ s : System)
    (h₁ : runActions (RelaySystem.step clientStep) (.start .idle (upstreamSteps cfg sessions))
      before = some s₁)
    (hcheck : s₁.step clientStep (.client .check) = some s₂) (haccepted : s₂.client = .accepted)
    (h₂ : runActions (RelaySystem.step clientStep) s₂ after = some s)
    (rx : Receiver TritonLocalEvent) (hclient : s.client = .streaming rx) :
    let told := (rx.passed (sends (upstreamSteps cfg sessions))).filterMap streamItem
    (yielded rx).Sublist told ∧ ((∀ i, ¬ rx.Skipped i) → yielded rx = told) ∧
      s₁.relay.log.length ≤ rx.joined ∧
      ∃ pre first post, UnderWay cfg sessions pre first post s₁.upstream ∧
        ∀ updates : List SubscribeUpdate, updates ≠ [] → updates.map .ok <:+: told →
          ∃ t ∈ first :: post, updates <:+: (sessionReceived cfg t).map (·.msg) := by
  intro told
  have hstart : Relayed cfg sessions (.start .idle (upstreamSteps cfg sessions)) := ⟨[], rfl, rfl⟩
  have hrelayed : Relayed cfg sessions s₁ :=
    runActions_invariant (fun _ _ _ => relayed_step) h₁ hstart
  obtain ⟨hrelay, hupstream, pre, first, post, hway⟩ :=
    accepted_under_way hr hrelayed hcheck haccepted
  have hfollows : Follows s₁.relay.log.length s := by
    refine runActions_invariant (fun _ _ _ => follows_step) h₂ ⟨by rw [hrelay], ?_⟩
    intro rx' hstream
    rw [haccepted] at hstream
    cases hstream
  obtain ⟨hfollows, hjoined⟩ := hfollows.streaming rx hclient
  have hall : s₁.relay.log ++ sends s₁.upstream = sends (upstreamSteps cfg sessions) :=
    RelaySystem.sends_kept h₁
  have hlog : s.relay.log <+: sends (upstreamSteps cfg sessions) := by
    have hkept := RelaySystem.sends_kept h₂
    rw [hrelay, hupstream, hall] at hkept
    exact ⟨_, hkept⟩
  have hpassed : told = (rx.passed s.relay.log).filterMap streamItem :=
    congrArg _ (hfollows.passed_of_prefix hlog)
  have hyielded : yielded rx = (rx.received.map Prod.snd).filterMap streamItem := by
    rw [yielded, List.filterMap_map]
    rfl
  refine ⟨?_, ?_, hjoined, pre, first, post, hway, ?_⟩
  · rw [hpassed, hyielded]
    exact hfollows.received_sublist.filterMap streamItem
  · intro hkept
    rw [hpassed, hyielded, hfollows.received_all hkept]
  · intro updates hne hpart
    obtain ⟨rfl, -, part, -, hdone⟩ := hway
    have hbefore : (sends (upstreamSteps cfg pre)).length ≤ rx.joined := by
      rw [hdone, sends_append, List.append_left_inj, sends_append] at hall
      rw [hall, List.length_append] at hjoined
      omega
    have hbegins : rx.passed (sends (upstreamSteps cfg (pre ++ first :: post))) <+:
        (sends (upstreamSteps cfg (pre ++ first :: post))).drop rx.joined := by
      rw [Receiver.passed, List.drop_take]
      exact List.take_prefix ..
    exact stretch_of_session hr hbefore hne
      (hpart.trans (hbegins.filterMap streamItem).isInfix)

/-! A client is accepted while a session is connecting, and hears its updates. -/

def numberedUpdate (body : Bytes) : Read := .update ⟨some .slot, body⟩ 1000 "now" false none

def numberedSession : Session := sampleSession [numberedUpdate [1], numberedUpdate [2]]

def streamReceiver : Receiver TritonLocalEvent where
  joined := 1
  cursor := 4
  received := [(1, .upstreamConnected true), (2, .message ⟨some .slot, [1]⟩),
    (3, .message ⟨some .slot, [2]⟩)]

set_option maxRecDepth 4000 in
theorem stream_hears_sample :
    yielded streamReceiver = [.ok ⟨some .slot, [1]⟩, .ok ⟨some .slot, [2]⟩] ∧
      (yielded streamReceiver).Sublist ((streamReceiver.passed
        (sends (upstreamSteps sampleConfig [numberedSession]))).filterMap streamItem) := by
  obtain ⟨s₁, s₂, s, h₁, hcheck, haccepted, h₂, hclient⟩ : ∃ s₁ s₂ s,
      runActions (RelaySystem.step clientStep)
        (.start .idle (upstreamSteps sampleConfig [numberedSession]))
        (List.replicate 3 .upstream) = some s₁ ∧
      s₁.step clientStep (.client .check) = some s₂ ∧ s₂.client = .accepted ∧
      runActions (RelaySystem.step clientStep) s₂ ([.client .join] ++
        List.replicate 3 .upstream ++ List.replicate 3 (.client .recv)) = some s ∧
      s.client = .streaming streamReceiver := by
    have hsteps : upstreamSteps sampleConfig [numberedSession] =
        setUpstreamConnected false ++ setUpstreamConnected true ++
          publishUpdate ⟨some .slot, [1]⟩ ++ publishUpdate ⟨some .slot, [2]⟩ ++
          setUpstreamConnected false ++ setUpstreamConnected false := by decide
    rw [hsteps]
    exact ⟨_, _, _, rfl, rfl, rfl, rfl, rfl⟩
  exact ⟨by decide, (stream_hears sampleConfig rfl [numberedSession] _ _ s₁ s₂ s h₁ hcheck
    haccepted h₂ streamReceiver hclient).1⟩

end FeedMux.TritonLocal
