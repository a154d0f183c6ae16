import FeedMux.Library.Bytes
import FeedMux.LocalRelay

/-!
# The local Titan relay (`src/titan_local.rs`)

A client subscribes before it loads the flag, so no status change falls
between the two. A client that has drained its receiver was last told the true
state, unless the latest status event was overwritten before it was received
(`told_true_status`): a lagged client goes on with the latest frames only.
-/

namespace FeedMux.TitanLocal
open FeedMux.Library FeedMux.Library.Broadcast

abbrev TitanLocalEvent := LocalEvent Bytes

def broadcastCapacity : Nat := 256

/-- What the upstream task does with the relay. -/
inductive UpstreamCall where
  | publishFrame (data : Bytes)
  | setUpstreamConnected (up : Bool)
  deriving DecidableEq, Repr

def UpstreamCall.steps : UpstreamCall → List (RelayStep Bytes)
  | .publishFrame data => LocalRelay.publish data
  | .setUpstreamConnected up => LocalRelay.setUpstreamConnected up

structure LocalStatus where
  event : String
  upstream : String
  connected : Bool
  deriving DecidableEq, Repr

inductive LocalMessage where
  | text (status : LocalStatus)
  | binary (data : Bytes)
  deriving DecidableEq, Repr

def statusMessage (connected : Bool) : LocalMessage :=
  .text ⟨"titan.local.status", "titan_ws", connected⟩

def eventMessage : TitanLocalEvent → LocalMessage
  | .message data => .binary data
  | .upstreamConnected up => statusMessage up

inductive Client where
  | idle
  | subscribed (events : Receiver TitanLocalEvent)
  | serving (initial : Bool) (events : Receiver TitanLocalEvent)
  deriving DecidableEq

/-- `serve_client` subscribes, loads the flag and sends it, then receives. -/
inductive ClientAction where
  | subscribe
  | load
  | recv
  deriving DecidableEq

def serveClient (relay : LocalRelay Bytes) : Client → ClientAction → Option Client
  | .idle, .subscribe => some (.subscribed (Broadcast.subscribe relay.log))
  | .subscribed events, .load => some (.serving relay.upstreamConnected events)
  | .serving initial events, .recv =>
    (events.recv broadcastCapacity relay.log).map (.serving initial)
  | _, _ => none

/-- The messages sent to a client: the initial status, then what it received. -/
def sentMessages (initial : Bool) (events : Receiver TitanLocalEvent) : List LocalMessage :=
  statusMessage initial :: events.received.map fun e => eventMessage e.2

def statusOf : LocalMessage → Option Bool
  | .text status => if status.event = "titan.local.status" then some status.connected else none
  | .binary _ => none

/-- The last status sent to a client. -/
def lastStatusSent (initial : Bool) (events : Receiver TitanLocalEvent) : Option Bool :=
  ((sentMessages initial events).filterMap statusOf).getLast?

abbrev System := RelaySystem Bytes Client

/-- A stored flag is not yet announced. -/
def HalfDone (s : System) : Prop :=
  ∃ up, s.upstream.head? = some (.send (.upstreamConnected up))

/-- The last status event of the log, and its position. -/
def LastStatusAt (log : List TitanLocalEvent) (i : Nat) (up : Bool) : Prop :=
  ∃ pre post, log = pre ++ .upstreamConnected up :: post ∧ pre.length = i ∧
    ∀ up', .upstreamConnected up' ∉ post

/-! ## Statuses of a log -/

def eventStatus : TitanLocalEvent → Option Bool
  | .message _ => none
  | .upstreamConnected up => some up

/-- The last status announced. -/
def announced (log : List TitanLocalEvent) : Option Bool := (log.filterMap eventStatus).getLast?

theorem announced_concat (log : List TitanLocalEvent) (event : TitanLocalEvent) :
    announced (log ++ [event]) = (eventStatus event).or (announced log) := by
  rw [announced, List.filterMap_append, List.getLast?_append]
  cases event <;> rfl

theorem no_status {log : List TitanLocalEvent} (h : ∀ up, .upstreamConnected up ∉ log) :
    log.filterMap eventStatus = [] := by
  rw [List.filterMap_eq_nil_iff]
  intro event he
  cases event with
  | message data => rfl
  | upstreamConnected up => exact absurd he (h up)

theorem announced_split {pre post : List TitanLocalEvent} {up : Bool}
    (h : ∀ up', .upstreamConnected up' ∉ post) :
    announced (pre ++ .upstreamConnected up :: post) = some up := by
  rw [announced, List.filterMap_append, List.filterMap_cons, no_status h]
  exact List.getLast?_concat

/-- A log with a status has a last one. -/
theorem split_last_status {log : List TitanLocalEvent} (h : ∃ up, .upstreamConnected up ∈ log) :
    ∃ pre up post, log = pre ++ .upstreamConnected up :: post ∧
      ∀ up', .upstreamConnected up' ∉ post := by
  induction log with
  | nil => simp at h
  | cons event rest ih =>
    by_cases hr : ∃ up, .upstreamConnected up ∈ rest
    · obtain ⟨pre, up, post, rfl, hpost⟩ := ih hr
      exact ⟨event :: pre, up, post, rfl, hpost⟩
    · obtain ⟨up, hm⟩ := h
      rcases List.mem_cons.mp hm with rfl | hm
      · exact ⟨[], up, rest, rfl, fun up' h' => hr ⟨up', h'⟩⟩
      · exact absurd ⟨up, hm⟩ hr

theorem statusOf_eventMessage (event : TitanLocalEvent) :
    statusOf (eventMessage event) = eventStatus event := by
  cases event <;> rfl

theorem lastStatusSent_eq (initial : Bool) (events : Receiver TitanLocalEvent) :
    lastStatusSent initial events =
      some ((announced (events.received.map Prod.snd)).getD initial) := by
  have h : (sentMessages initial events).filterMap statusOf =
      initial :: (events.received.map Prod.snd).filterMap eventStatus := by
    rw [sentMessages, List.filterMap_cons, List.filterMap_map, List.filterMap_map]
    simp only [Function.comp_def, statusOf_eventMessage]
    rfl
  rw [lastStatusSent, announced, h, List.getLast?_cons]

/-! ## The upstream task -/

/-- Between calls the flag is what was announced last; within a call it is what
is announced next. -/
inductive Consistent (s : System) : Prop where
  | between (calls : List UpstreamCall) (hup : s.upstream = calls.flatMap UpstreamCall.steps)
    (hflag : s.relay.upstreamConnected = (announced s.relay.log).getD false)
  | within (up : Bool) (calls : List UpstreamCall)
    (hup : s.upstream = .send (.upstreamConnected up) :: calls.flatMap UpstreamCall.steps)
    (hflag : s.relay.upstreamConnected = up)

/-- One step of the upstream task. -/
theorem consistent_upstream {s : System} {relayStep : RelayStep Bytes}
    {rest : List (RelayStep Bytes)} (hup : s.upstream = relayStep :: rest) (h : Consistent s) :
    Consistent { s with relay := relayStep.apply s.relay, upstream := rest } := by
  cases h with
  | within up calls hup' hflag =>
    obtain ⟨rfl, rfl⟩ := List.cons.inj (hup.symm.trans hup')
    refine .between calls rfl ?_
    simp [RelayStep.apply, announced_concat, eventStatus, hflag]
  | between calls hup' hflag =>
    cases calls with
    | nil => simp [hup'] at hup
    | cons call calls =>
      cases call with
      | publishFrame data =>
        obtain ⟨rfl, rfl⟩ := List.cons.inj (hup.symm.trans hup')
        refine .between calls rfl ?_
        simpa [RelayStep.apply, announced_concat, eventStatus] using hflag
      | setUpstreamConnected up =>
        obtain ⟨rfl, rfl⟩ := List.cons.inj (hup.symm.trans hup')
        exact .within up calls rfl rfl

/-! ## The client -/

/-- A serving client follows the channel. While no status was announced since
it subscribed, its initial status is the flag, unless a call is half done. -/
structure Serves (s : System) (initial : Bool) (events : Receiver TitanLocalEvent) : Prop where
  follows : events.Follows broadcastCapacity s.relay.log
  initial_eq : (∀ up, .upstreamConnected up ∉ s.relay.log.drop events.joined) →
    ¬ HalfDone s → initial = s.relay.upstreamConnected

/-- A store is the first half of a call. -/
theorem halfDone_of_store {s : System} {up : Bool} {rest : List (RelayStep Bytes)}
    (hup : s.upstream = .store up :: rest) (h : Consistent s) :
    rest.head? = some (.send (.upstreamConnected up)) := by
  cases h with
  | within up' calls hup' => cases hup.symm.trans hup'
  | between calls hup' =>
    cases calls with
    | nil => simp [hup'] at hup
    | cons call calls =>
      cases call with
      | publishFrame data => cases hup.symm.trans hup'
      | setUpstreamConnected up' =>
        obtain ⟨he, rfl⟩ := List.cons.inj (hup.symm.trans hup')
        rw [RelayStep.store.inj he]
        rfl

theorem serves_upstream {s : System} {initial : Bool} {events : Receiver TitanLocalEvent}
    {relayStep : RelayStep Bytes} {rest : List (RelayStep Bytes)}
    (hup : s.upstream = relayStep :: rest) (hcons : Consistent s) (h : Serves s initial events) :
    Serves { s with relay := relayStep.apply s.relay, upstream := rest } initial events := by
  refine ⟨RelayStep.follows h.follows relayStep, ?_⟩
  intro hno hwhole
  cases relayStep with
  | store up => exact absurd ⟨up, halfDone_of_store hup hcons⟩ hwhole
  | send event =>
    have hle := h.follows.joined_le.trans h.follows.cursor_le
    simp only [RelayStep.apply, List.drop_append_of_le_length hle] at hno
    cases event with
    | upstreamConnected up => exact absurd (by simp) (hno up)
    | message data =>
      refine h.initial_eq (fun up hm => hno up (List.mem_append_left _ hm)) ?_
      rintro ⟨up, hhead⟩
      rw [hup] at hhead
      cases hhead

/-- The invariant of a relay with a client. -/
structure Invariant (s : System) : Prop where
  consistent : Consistent s
  subscribed : ∀ events, s.client = .subscribed events →
    events.Follows broadcastCapacity s.relay.log
  serving : ∀ initial events, s.client = .serving initial events → Serves s initial events

theorem invariant_start (calls : List UpstreamCall) :
    Invariant (.start .idle (calls.flatMap UpstreamCall.steps)) :=
  ⟨.between calls rfl rfl, (fun _ h => nomatch h), (fun _ _ h => nomatch h)⟩

theorem invariant_step {s t : System} {a : RelayAction ClientAction}
    (h : s.step serveClient a = some t) (hs : Invariant s) : Invariant t := by
  rcases RelaySystem.step_cases h with ⟨relayStep, rest, hup, rfl⟩ | ⟨action, client, hc, rfl⟩
  · exact ⟨consistent_upstream hup hs.consistent,
      fun events he => RelayStep.follows (hs.subscribed events he) relayStep,
      fun initial events he => serves_upstream hup hs.consistent (hs.serving initial events he)⟩
  · have hcons : Consistent { s with client } := by
      cases hs.consistent with
      | between calls hup hflag => exact .between calls hup hflag
      | within up calls hup hflag => exact .within up calls hup hflag
    cases hclient : s.client with
    | idle =>
      rw [hclient] at hc
      cases action with
      | subscribe =>
        obtain rfl := Option.some.inj hc
        refine ⟨hcons, ?_, (fun _ _ he => nomatch he)⟩
        rintro _ ⟨⟩
        exact Receiver.subscribe_follows ..
      | load => cases hc
      | recv => cases hc
    | subscribed events =>
      rw [hclient] at hc
      cases action with
      | subscribe => cases hc
      | load =>
        obtain rfl := Option.some.inj hc
        refine ⟨hcons, (fun _ he => nomatch he), ?_⟩
        rintro _ _ ⟨⟩
        exact ⟨hs.subscribed events hclient, fun _ _ => rfl⟩
      | recv => cases hc
    | serving initial events =>
      rw [hclient] at hc
      cases action with
      | subscribe => cases hc
      | load => cases hc
      | recv =>
        obtain ⟨events', hr, rfl⟩ := Option.map_eq_some_iff.mp hc
        have hserves := hs.serving initial events hclient
        refine ⟨hcons, (fun _ he => nomatch he), ?_⟩
        rintro _ _ ⟨⟩
        refine ⟨hserves.follows.recv hr, fun hno hwhole => hserves.initial_eq ?_ hwhole⟩
        rwa [Receiver.recv_joined hr] at hno

/-! ## Convergence -/

/-- A received status that is the log's last one is the last one received. -/
theorem announced_received {log : List TitanLocalEvent} {events : Receiver TitanLocalEvent}
    (hf : events.Follows broadcastCapacity log) {i : Nat} {up : Bool}
    (hlast : LastStatusAt log i up) (hr : i ∈ events.received.map Prod.fst) :
    announced (events.received.map Prod.snd) = some up := by
  obtain ⟨pre, post, rfl, rfl, hpost⟩ := hlast
  obtain ⟨⟨_, event⟩, hm, rfl⟩ := List.mem_map.mp hr
  have he := hf.genuine _ hm
  simp only [List.getElem?_append_right (le_refl _), Nat.sub_self, List.getElem?_cons_zero,
    Option.some.injEq] at he
  subst he
  obtain ⟨before, after, hsplit⟩ := List.append_of_mem hm
  rw [hsplit, List.map_append, List.map_cons]
  apply announced_split
  intro up' hmem
  obtain ⟨⟨j, _⟩, hj, rfl⟩ := List.mem_map.mp hmem
  have horder := hf.inOrder
  rw [hsplit, List.map_append, List.map_cons, List.pairwise_append, List.pairwise_cons] at horder
  have hlt : pre.length < j := horder.2.1.1 j (List.mem_map.mpr ⟨_, hj, rfl⟩)
  have hg := hf.genuine (j, .upstreamConnected up') (by rw [hsplit]; simp [hj])
  simp only at hg
  rw [List.getElem?_append_right hlt.le, List.getElem?_cons, if_neg (by omega)] at hg
  exact hpost up' (List.mem_of_getElem? hg)

/-- **Convergence.** In every interleaving of any upstream calls with a client:
when the client has drained its receiver and no upstream call is half done, the
last status it was sent is the flag, if the latest status event was not
overwritten before the client received it. -/
theorem told_true_status (calls : List UpstreamCall) (actions : List (RelayAction ClientAction))
    (s : System) (initial : Bool) (events : Receiver TitanLocalEvent)
    (h : runActions (RelaySystem.step serveClient)
      (.start .idle (calls.flatMap UpstreamCall.steps)) actions = some s)
    (hclient : s.client = .serving initial events) (hdrained : events.Drained s.relay.log)
    (hwhole : ¬ HalfDone s)
    (hkept : ∀ i up, LastStatusAt s.relay.log i up → ¬ events.Skipped i) :
    lastStatusSent initial events = some s.relay.upstreamConnected := by
  have hinv := runActions_invariant (fun _ _ _ => invariant_step) h (invariant_start calls)
  have hserves := hinv.serving initial events hclient
  have hflag : s.relay.upstreamConnected = (announced s.relay.log).getD false := by
    cases hinv.consistent with
    | between _ _ hflag => exact hflag
    | within up _ hup _ => exact absurd ⟨up, by rw [hup]; rfl⟩ hwhole
  rw [lastStatusSent_eq]
  by_cases hnew : ∃ up, .upstreamConnected up ∈ s.relay.log.drop events.joined
  · obtain ⟨pre, up, post, hsplit, hpost⟩ := split_last_status hnew
    have hlog : s.relay.log =
        (s.relay.log.take events.joined ++ pre) ++ .upstreamConnected up :: post := by
      rw [List.append_assoc, ← hsplit, List.take_append_drop]
    have hlast : LastStatusAt s.relay.log (s.relay.log.take events.joined ++ pre).length up :=
      ⟨_, post, hlog, rfl, hpost⟩
    have hreceived : (s.relay.log.take events.joined ++ pre).length ∈
        events.received.map Prod.fst := by
      by_contra hno
      refine hkept _ _ hlast ⟨?_, ?_, hno⟩
      · have hle := hserves.follows.joined_le.trans hserves.follows.cursor_le
        rw [List.length_append, List.length_take]
        omega
      · have hlen := congrArg List.length hlog
        rw [List.length_append, List.length_cons] at hlen
        rw [show events.cursor = s.relay.log.length from hdrained]
        omega
    rw [announced_received hserves.follows hlast hreceived, hflag, hlog, announced_split hpost]
    rfl
  · have hnone : announced (events.received.map Prod.snd) = none := by
      rw [announced, no_status]
      · rfl
      · intro up hm
        obtain ⟨⟨i, _⟩, hi, rfl⟩ := List.mem_map.mp hm
        exact hnew ⟨up, hserves.follows.mem_drop hi⟩
    rw [hnone, Option.getD_none, hserves.initial_eq (fun up hm => hnew ⟨up, hm⟩) hwhole]

theorem prompt_client_told :
    runActions (RelaySystem.step serveClient)
        (.start .idle (UpstreamCall.steps (.setUpstreamConnected true)))
        [.client .subscribe, .client .load, .upstream, .upstream, .client .recv] =
      some ⟨⟨true, [.upstreamConnected true]⟩, [],
        .serving false ⟨0, 1, [(0, .upstreamConnected true)]⟩⟩ ∧
      lastStatusSent false ⟨0, 1, [(0, .upstreamConnected true)]⟩ = some true := by
  have hrun : runActions (RelaySystem.step serveClient)
      (.start .idle ([UpstreamCall.setUpstreamConnected true].flatMap UpstreamCall.steps))
      [.client .subscribe, .client .load, .upstream, .upstream, .client .recv] =
        some ⟨⟨true, [.upstreamConnected true]⟩, [],
          .serving false ⟨0, 1, [(0, .upstreamConnected true)]⟩⟩ := by decide
  refine ⟨hrun, told_true_status _ _ _ _ _ hrun rfl rfl ?_ ?_⟩
  · rintro ⟨up, hhead⟩
    cases hhead
  · rintro i up _ ⟨_, hlt, hno⟩
    obtain rfl : i = 0 := Nat.lt_one_iff.mp hlt
    exact hno (by decide)

/-! A client receives nothing while the upstream connects and publishes 256
frames: its status event is overwritten, and only frames reach it. -/

def floodedCalls : List UpstreamCall :=
  .setUpstreamConnected true :: List.replicate 256 (.publishFrame [])

def slowActions : List (RelayAction ClientAction) :=
  [.client .subscribe, .client .load] ++ List.replicate 258 .upstream ++
    List.replicate 257 (.client .recv)

def framesOnly : Receiver TitanLocalEvent :=
  ⟨0, 257, (List.range 256).map fun i => (i + 1, .message [])⟩

def laggedSystem : System :=
  ⟨⟨true, .upstreamConnected true :: List.replicate 256 (.message [])⟩, [],
    .serving false framesOnly⟩

theorem lagged_client_misled :
    runActions (RelaySystem.step serveClient)
        (.start .idle (floodedCalls.flatMap UpstreamCall.steps)) slowActions =
      some laggedSystem ∧
      laggedSystem.client = .serving false framesOnly ∧
      framesOnly.Drained laggedSystem.relay.log ∧ ¬ HalfDone laggedSystem ∧
      lastStatusSent false framesOnly ≠ some laggedSystem.relay.upstreamConnected := by
  refine ⟨by decide +kernel, rfl, ?_, ?_, by decide +kernel⟩
  · show 257 = _
    decide +kernel
  · rintro ⟨up, hhead⟩
    cases hhead

end FeedMux.TitanLocal
