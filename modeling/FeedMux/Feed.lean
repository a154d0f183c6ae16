import FeedMux.Environment
import FeedMux.Library.Json
import FeedMux.Upstream.Sinks

/-!
# The feed channel (`publish` in `src/redis_fanout.rs`, `src/http.rs`, `src/mock.rs`)

Four publishers hand events to `publish`: the Triton loop, the shred loop, the
mock ticks of a dry run and the HTTP endpoint. Under every schedule the channel
has, of each of them and in its order, the events that reached Redis, as texts
from which the events can be read back (`feed_follows`).
-/

namespace FeedMux
open FeedMux.Library FeedMux.Shred FeedMux.Upstream

/-! ## Events -/

/-- `json!` sorts the keys of an object. -/
def FeedData.toJson : FeedData → Json
  | .shredWake wake =>
    .obj [("fec_set_index", .num wake.fecSetIndex.toNat), ("schema", .str "mux.shred.wake.v1"),
      ("slot", .num wake.slot.toNat), ("src", .str wake.src), ("vault", .str wake.vault)]
  | .subscribeUpdate hasSlot =>
    .obj [("has_slot", .bool hasSlot), ("kind", .str "SubscribeUpdate")]

/-- A `FeedPayload` with any JSON as its data. -/
structure FeedEvent where
  event : String
  source : String
  ts : String
  data : Option Json

def FeedPayload.toEvent (payload : FeedPayload) : FeedEvent where
  event := payload.event
  source := payload.source
  ts := payload.ts
  data := payload.data.map FeedData.toJson

namespace FeedEvent

/-- Without data there is no such field. -/
def toJson (e : FeedEvent) : Json :=
  .obj ([("event", .str e.event), ("source", .str e.source), ("ts", .str e.ts)] ++
    (e.data.map fun data => ("data", data)).toList)

def text (e : FeedEvent) : String := e.toJson.text

/-- What a consumer makes of a message. -/
def ofJson (json : Json) : Option FeedEvent :=
  match json.get? "event", json.get? "source", json.get? "ts" with
  | some (.str event), some (.str source), some (.str ts) =>
    some ⟨event, source, ts, json.get? "data"⟩
  | _, _, _ => none

def read (text : String) : Option FeedEvent := (Json.read text).bind ofJson

theorem ofJson_toJson (e : FeedEvent) : ofJson e.toJson = some e := by
  obtain ⟨event, source, ts, data⟩ := e
  cases data <;> rfl

theorem read_text (e : FeedEvent) : read e.text = some e := by
  rw [read, text, Json.read_text, Option.bind_some, ofJson_toJson]

end FeedEvent

/-! ## Publishing -/

inductive FanoutError where
  | notConfigured
  | publish (error : String)
  deriving DecidableEq, Repr

structure PublishResult where
  channel : String
  dryRun : Bool
  delivered : Bool
  payloadBytes : Nat
  deriving DecidableEq, Repr

/-- How Redis takes a message. Without an error it is on the channel; with one,
such as a lost connection, it may be. -/
structure Delivery where
  reaches : Bool
  error : Option String
  answered : error = none → reaches = true

structure FeedMessage where
  channel : String
  text : String
  deriving DecidableEq, Repr

section
variable (fanout : RedisFanout)

/-- The message that reaches the channel, and what the caller is told. -/
def RedisFanout.publish (e : FeedEvent) (d : Delivery) :
    Option FeedMessage × Except FanoutError PublishResult :=
  if fanout.dryRun then (none, .ok ⟨fanout.channel, true, false, e.text.utf8ByteSize⟩)
  else if !fanout.connected then (none, .error .notConfigured)
  else
    (if d.reaches then some ⟨fanout.channel, e.text⟩ else none,
      match d.error with
      | some error => .error (.publish error)
      | none => .ok ⟨fanout.channel, false, true, e.text.utf8ByteSize⟩)

/-- The body of a request to `/publish`. A float in its data is the numeral that
`serde_json` writes for it, since all that happens to the data is to be written. -/
structure PublishRequest where
  event : Option String
  source : Option String
  data : Option Json

def PublishRequest.toEvent (req : PublishRequest) (utc : String) : FeedEvent where
  event := req.event.getD "manual.publish"
  source := req.source.getD "feed-mux"
  ts := utc
  data := req.data

structure PublishResponse where
  ok : Bool
  result : PublishResult
  deriving DecidableEq, Repr

abbrev StatusCode := Nat

def serviceUnavailable : StatusCode := 503

/-- The handler's answer, once its event has been published. -/
def publishAnswer : Except FanoutError PublishResult → Except StatusCode PublishResponse
  | .ok result => .ok ⟨true, result⟩
  | .error _ => .error serviceUnavailable

def mockEvent (tick : Nat) (utc : String) : FeedEvent where
  event := "mock.tick"
  source := "feed-mux"
  ts := utc
  data := some (.obj [("dry_run", .bool fanout.dryRun),
    ("note", .str "MVP mock event for Bot 350 / python 35-bot consumers"), ("tick", .num tick)])

/-- The ticks at which the clock shows these texts; an interval of zero turns
them off. -/
def mockEvents (intervalSecs : UInt64) (clocks : List String) : List FeedEvent :=
  if intervalSecs = 0 then []
  else clocks.mapIdx fun i utc => mockEvent fanout (i + 1) utc

end

/-! ## The publishers -/

inductive Publisher where
  | triton
  | shred
  | mock
  | http
  deriving DecidableEq, Repr

abbrev Attempt := FeedEvent × Delivery

/-- What each publisher has handed to `publish`, in its order; the requests in
the order in which they were served. -/
structure FeedTraces where
  triton : List Attempt
  shred : List Attempt
  mock : List Attempt
  http : List (PublishRequest × String × Delivery)

def FeedTraces.attempts (traces : FeedTraces) : Publisher → List Attempt
  | .triton => traces.triton
  | .shred => traces.shred
  | .mock => traces.mock
  | .http => traces.http.map fun r => (r.1.toEvent r.2.1, r.2.2)

def tritonEvents (cfg : TritonLive.LoopConfig) (sessions : List TritonLive.Session) :
    List FeedEvent :=
  ((TritonLive.loopEffects cfg sessions).filterMap Effect.payload?).map FeedPayload.toEvent

/-- A loop that cannot bind publishes nothing. -/
def shredEvents (cfg : UdpConfig) (binds : Bool) (ds : List Datagram) : List FeedEvent :=
  if binds then
    (runs (udpStep cfg) (.start {}) ds).2.flatMap fun out => out.wakes.map FeedPayload.toEvent
  else []

/-- What the publishers of a process have done: a live loop only where it was
started, and ticks only in a dry run. -/
structure FeedTraces.Started (platform : Platform) (config : FullConfig) (fanout : RedisFanout)
    (binds : Bool) (traces : FeedTraces) : Prop where
  triton : match spawnTriton config.toConfig fanout with
    | none => traces.triton = []
    | some cfg => ∃ sessions, traces.triton.map Prod.fst <+: tritonEvents cfg sessions
  shred : match spawnShred platform config.toConfig fanout with
    | none => traces.shred = []
    | some cfg => ∃ ds, traces.shred.map Prod.fst <+: shredEvents cfg binds ds
  mock : if config.dryRun then ∃ clocks, traces.mock.map Prod.fst <+:
      mockEvents fanout config.mockPublishIntervalSecs clocks
    else traces.mock = []

/-- The messages of a schedule on the channel, with who published them. -/
def feedOf (fanout : RedisFanout) (trace : List (Publisher × Attempt)) :
    List (Publisher × FeedMessage) :=
  trace.filterMap fun e => (fanout.publish e.2.1 e.2.2).1.map fun m => (e.1, m)

section
variable {fanout : RedisFanout} {trace : List (Publisher × Attempt)}

theorem publish_sent (fanout : RedisFanout) (e : FeedEvent) (d : Delivery) :
    (fanout.publish e d).1 =
      if fanout.writes && d.reaches then some ⟨fanout.channel, e.text⟩ else none := by
  unfold RedisFanout.publish RedisFanout.writes
  cases fanout.dryRun <;> cases fanout.connected <;> simp

/-- A publisher's messages are those of its own attempts. -/
theorem feedOf_own (fanout : RedisFanout) (trace : List (Publisher × Attempt)) (p : Publisher) :
    ((feedOf fanout trace).filter fun m => m.1 = p).map Prod.snd =
      ((trace.filter fun e => e.1 = p).map Prod.snd).filterMap fun a =>
        (fanout.publish a.1 a.2).1 := by
  unfold feedOf
  induction trace with
  | nil => rfl
  | cons e trace ih =>
    rw [List.filterMap_cons, List.filter_cons]
    cases hm : (fanout.publish e.2.1 e.2.2).1 with
    | none => by_cases hp : e.1 = p <;> simp [hp, hm, ih]
    | some m => by_cases hp : e.1 = p <;> simp [hp, hm, ih]

/-- What reached Redis, read back. -/
theorem sent_read (fanout : RedisFanout) (attempts : List Attempt) :
    (attempts.filterMap fun a => (fanout.publish a.1 a.2).1).map
        (fun m => (m.channel, FeedEvent.read m.text)) =
      if fanout.writes then
        (attempts.filter fun a => a.2.reaches).map fun a => (fanout.channel, some a.1)
      else [] := by
  simp only [publish_sent]
  cases fanout.writes with
  | false => simp
  | true =>
    induction attempts with
    | nil => rfl
    | cons a attempts ih =>
      cases hr : a.2.reaches <;> simpa [hr, FeedEvent.read_text] using ih

theorem mem_feedOf {p : Publisher} {a : Attempt} (hm : (p, a) ∈ trace)
    (hw : fanout.writes = true) (hr : a.2.reaches = true) :
    (p, ⟨fanout.channel, a.1.text⟩) ∈ feedOf fanout trace := by
  refine List.mem_filterMap.mpr ⟨(p, a), hm, ?_⟩
  rw [publish_sent, hw, hr]
  rfl

end

/-- Nothing goes wrong: a dry run, or Redis answers. -/
def Served (fanout : RedisFanout) (d : Delivery) : Prop :=
  fanout.dryRun = true ∨ fanout.connected = true ∧ d.error = none

/-- A request's answer is right about what is on the channel. -/
structure Answered (fanout : RedisFanout) (feed : List (Publisher × FeedMessage)) (e : FeedEvent)
    (d : Delivery) (answer : Except StatusCode PublishResponse) : Prop where
  served : Served fanout d → answer =
    .ok ⟨true, ⟨fanout.channel, fanout.dryRun, !fanout.dryRun, e.text.utf8ByteSize⟩⟩
  failed : ¬ Served fanout d → answer = .error 503
  delivered : ∀ r, answer = .ok r → r.result.delivered = true →
    (.http, ⟨r.result.channel, e.text⟩) ∈ feed

theorem publish_answered {fanout : RedisFanout} {trace : List (Publisher × Attempt)}
    {e : FeedEvent} {d : Delivery} (hm : (.http, (e, d)) ∈ trace) :
    Answered fanout (feedOf fanout trace) e d (publishAnswer (fanout.publish e d).2) := by
  have hmessage : fanout.writes = true → d.reaches = true →
      (.http, ⟨fanout.channel, e.text⟩) ∈ feedOf fanout trace := mem_feedOf hm
  have herror := d.answered
  unfold RedisFanout.publish
  cases hd : fanout.dryRun with
  | true => constructor <;> simp [Served, publishAnswer, hd]
  | false =>
    cases hc : fanout.connected with
    | false => constructor <;> simp [Served, publishAnswer, serviceUnavailable, hd, hc]
    | true =>
      have hw : fanout.writes = true := RedisFanout.writes_of hd hc
      cases he : d.error with
      | some error => constructor <;> simp [Served, publishAnswer, serviceUnavailable, hd, hc, he]
      | none =>
        refine ⟨by simp [publishAnswer, hd], by simp [Served, hc, he], ?_⟩
        rintro r ⟨⟩ -
        exact hmessage hw (herror he)

/-- What a live loop can have published: slot events of the Triton loop, and of the
shred loop hits of a watched vault. -/
def Genuine (platform : Platform) (config : Config) (e : FeedEvent) : Publisher → Prop
  | .triton => ∃ utc hasSlot, e = FeedPayload.toEvent
      ⟨"triton.slot", "triton_grpc", utc, some (.subscribeUpdate hasSlot)⟩
  | .shred => ∃ utc slot fecSetIndex src, ∃ vault ∈ config.shredWatchVaults,
      e = FeedPayload.toEvent ⟨"shred.vault_hit", "triton_shred_udp", utc,
        some (.shredWake ⟨platform.bs58.encode vault.bytes, slot, fecSetIndex, src⟩)⟩
  | .mock => False
  | .http => True

theorem tritonEvents_genuine (platform : Platform) (config : Config)
    (cfg : TritonLive.LoopConfig) (sessions : List TritonLive.Session) :
    ∀ e ∈ tritonEvents cfg sessions, Genuine platform config e .triton := by
  intro e he
  obtain ⟨payload, hp, rfl⟩ := List.mem_map.mp he
  have hseen := congrArg TritonLive.Sinks.published (TritonLive.loop_sinks cfg sessions)
  have hpayload : payload ∈ (TritonLive.sinksOf (TritonLive.loopEffects cfg sessions)).published :=
    hp
  rw [hseen] at hpayload
  obtain ⟨u, -, rfl⟩ := List.mem_map.mp hpayload
  exact ⟨u.utc, _, rfl⟩

theorem shredEvents_genuine {platform : Platform} {config : Config} {fanout : RedisFanout}
    {cfg : UdpConfig} (hspawn : spawnShred platform config fanout = some cfg) (binds : Bool)
    (ds : List Datagram) : ∀ e ∈ shredEvents cfg binds ds, Genuine platform config e .shred := by
  intro e he
  unfold shredEvents at he
  split at he
  · obtain ⟨out, hout, he⟩ := List.mem_flatMap.mp he
    obtain ⟨payload, hp, rfl⟩ := List.mem_map.mp he
    obtain ⟨st, d, -, rfl⟩ := mem_runs hout
    rw [udpStep_wakes, List.mem_flatMap] at hp
    obtain ⟨batch, -, hp⟩ := hp
    obtain ⟨hit, hhit, rfl⟩ := List.mem_map.mp hp
    rw [VaultWatchSet.scanHits_eq] at hhit
    obtain ⟨vault, hvault, rfl⟩ := List.mem_map.mp hhit
    unfold spawnShred at hspawn
    split at hspawn
    · obtain rfl := Option.some.inj hspawn
      exact ⟨_, batch.slot, batch.fecSetIndex, d.src, vault,
        List.mem_dedup.mp (List.mem_filter.mp hvault).1, rfl⟩
    · cases hspawn
  · cases he

theorem FeedTraces.Started.genuine {platform : Platform} {config : FullConfig}
    {fanout : RedisFanout} {binds : Bool} {traces : FeedTraces}
    (hs : traces.Started platform config fanout binds)
    (hlive : config.dryRun = false) (p : Publisher) :
    ∀ a ∈ traces.attempts p, Genuine platform config.toConfig a.1 p := by
  intro a ha
  cases p with
  | triton =>
    have htriton := hs.triton
    split at htriton
    · rw [FeedTraces.attempts, htriton] at ha
      cases ha
    · obtain ⟨sessions, hp⟩ := htriton
      exact tritonEvents_genuine platform config.toConfig _ sessions a.1
        (hp.subset (List.mem_map_of_mem ha))
  | shred =>
    have hshred := hs.shred
    split at hshred
    · rw [FeedTraces.attempts, hshred] at ha
      cases ha
    · rename_i hspawn
      obtain ⟨ds, hp⟩ := hshred
      exact shredEvents_genuine hspawn binds ds a.1 (hp.subset (List.mem_map_of_mem ha))
  | mock =>
    have hmock := hs.mock
    rw [hlive, if_neg Bool.false_ne_true] at hmock
    rw [FeedTraces.attempts, hmock] at ha
    cases ha
  | http => trivial

/-- **The feed.** Under every schedule of the publishers the channel has, of each of
them and in its order, the events that reached Redis, and they can be read back
from their messages; none in a dry run, and never a tick. A request is answered by
what became of its event. -/
theorem feed_follows (platform : Platform) (config : FullConfig) (reachable binds : Bool)
    (traces : FeedTraces)
    (hs : traces.Started platform config (.connect config.toConfig reachable) binds)
    (trace : List (Publisher × Attempt)) (h : Interleaves traces.attempts trace) :
    let fanout := RedisFanout.connect config.toConfig reachable
    let feed := feedOf fanout trace
    (∀ p, (feed.filter fun m => m.1 = p).map (fun m => (m.2.channel, FeedEvent.read m.2.text)) =
      if fanout.writes then
        ((traces.attempts p).filter fun a => a.2.reaches).map fun a =>
          (config.redisChannel, some a.1)
      else []) ∧
      (∀ m ∈ feed, ∃ e, FeedEvent.read m.2.text = some e ∧
        Genuine platform config.toConfig e m.1) ∧
      (config.dryRun = true → feed = []) ∧
      ∀ r ∈ traces.http, Answered fanout feed (r.1.toEvent r.2.1) r.2.2
        (publishAnswer (fanout.publish (r.1.toEvent r.2.1) r.2.2).2) := by
  intro fanout feed
  have hown : ∀ p, (feed.filter fun m => m.1 = p).map
      (fun m => (m.2.channel, FeedEvent.read m.2.text)) =
      if fanout.writes then
        ((traces.attempts p).filter fun a => a.2.reaches).map fun a =>
          (config.redisChannel, some a.1)
      else [] := by
    intro p
    have hsent := sent_read fanout (traces.attempts p)
    rw [← h p, ← feedOf_own, List.map_map, h p] at hsent
    exact hsent
  have hread : ∀ m ∈ feed, config.dryRun = false ∧
      ∃ a ∈ traces.attempts m.1, FeedEvent.read m.2.text = some a.1 := by
    intro m hm
    have hmem := List.mem_map_of_mem (f := fun m => (m.2.channel, FeedEvent.read m.2.text))
      (List.mem_filter (p := fun m' => m'.1 = m.1).mpr ⟨hm, by simp⟩)
    rw [hown m.1] at hmem
    cases hw : fanout.writes with
    | false => simp [hw] at hmem
    | true =>
      rw [hw, if_pos rfl] at hmem
      obtain ⟨a, ha, heq⟩ := List.mem_map.mp hmem
      refine ⟨?_, a, (List.mem_filter.mp ha).1, (congrArg Prod.snd heq).symm⟩
      cases hd : config.dryRun with
      | false => rfl
      | true => simp [fanout, RedisFanout.writes, RedisFanout.connect, hd] at hw
  refine ⟨hown, fun m hm => ?_, fun hd => ?_, fun r hr => publish_answered ?_⟩
  · obtain ⟨hlive, a, ha, hra⟩ := hread m hm
    exact ⟨a.1, hra, hs.genuine hlive m.1 a ha⟩
  · refine List.eq_nil_iff_forall_not_mem.mpr fun m hm => ?_
    rw [(hread m hm).1] at hd
    cases hd
  · have hattempt : (r.1.toEvent r.2.1, r.2.2) ∈ traces.attempts .http := List.mem_map_of_mem hr
    rw [← h .http] at hattempt
    obtain ⟨e, he, heq⟩ := List.mem_map.mp hattempt
    obtain ⟨hmem, hp⟩ := List.mem_filter.mp he
    rw [← heq, ← of_decide_eq_true hp]
    exact hmem

/-! A live process whose Triton loop reads one update, and a request with a price. -/

def feedEnv : Env := fun key =>
  [("DRY_RUN", "0"), ("REDIS_URL", "redis://127.0.0.1"), ("ENABLE_TRITON_GRPC", "yes"),
    ("TRITON_GRPC_URL", "grpc.example.test")].lookup key

def feedConfig : FullConfig := .fromEnv feedEnv shredPlatform.bs58

def sampleUtc : String := "2025-01-01T00:00:00+00:00"

def reached : Delivery := ⟨true, none, fun _ => rfl⟩

def slotEvent : FeedEvent := FeedPayload.toEvent
  ⟨"triton.slot", "triton_grpc", sampleUtc, some (.subscribeUpdate true)⟩

/-- `{"price":1.5}` -/
def sampleData : Json :=
  .obj [("price", .decimal ⟨false, 1, [⟨5, by decide⟩], none, .inl (List.cons_ne_nil _ _)⟩)]

example : sampleData.text = "\x7b\"price\":1.5\x7d" := by decide

def feedTraces : FeedTraces where
  triton := [(slotEvent, reached)]
  shred := []
  mock := []
  http := [(⟨none, none, some sampleData⟩, sampleUtc, reached)]

def feedTrace : List (Publisher × Attempt) :=
  oneByOne [.http, .triton, .shred, .mock] feedTraces.attempts

theorem feed_follows_sample :
    let feed := feedOf (.connect feedConfig.toConfig true) feedTrace
    ((feed.filter fun m => m.1 = .triton).map fun m => FeedEvent.read m.2.text) =
        [some slotEvent] ∧
      ((feed.filter fun m => m.1 = .http).map fun m => FeedEvent.read m.2.text) =
        [some ⟨"manual.publish", "feed-mux", sampleUtc, some sampleData⟩] := by
  intro feed
  have hs : feedTraces.Started shredPlatform feedConfig (.connect feedConfig.toConfig true)
      true := ⟨⟨[tritonSession []], [], rfl⟩, rfl, rfl⟩
  have h : Interleaves feedTraces.attempts feedTrace := by
    refine oneByOne_interleaves _ (by decide) ?_
    rintro ⟨⟩ <;> decide
  have hown := (feed_follows shredPlatform feedConfig true true feedTraces hs feedTrace h).1
  have hread := fun p => congrArg (List.map Prod.snd) (hown p)
  simp only [List.map_map] at hread
  exact ⟨hread .triton, hread .http⟩

end FeedMux
