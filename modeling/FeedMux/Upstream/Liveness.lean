import FeedMux.Titan.Published
import FeedMux.Upstream.Reconnect

/-!
# Three views of liveness

An upstream is up in three views: its connected flag, its flag in Redis, and
the flag of its local relay. The live loops set and clear them on many paths.
Wherever a loop waits or has halted all three are down, and between two
messages of an open session all three are up (`views_agree`).
-/

namespace FeedMux.Upstream
open FeedMux.Library FeedMux.Library.KeyValue FeedMux.Titan

structure Views (δ : Type) where
  connected : Bool
  redis : Redis δ
  relayUp : Bool

section
variable {δ ρ μ : Type}

/-- Redis writes succeed. -/
def Effect.apply (v : Views δ) : Effect δ ρ μ → Views δ
  | .connected up => { v with connected := up }
  | .redis calls => { v with redis := v.redis.after calls }
  | .relayStatus up => { v with relayUp := up }
  | .publish _ | .relayMessage _ | .request _ | .authBlocked | .wait _ => v

def Views.after (v : Views δ) (effects : List (Effect δ ρ μ)) : Views δ :=
  effects.foldl Effect.apply v

@[simp] theorem Views.after_nil (v : Views δ) : v.after ([] : List (Effect δ ρ μ)) = v := rfl

@[simp] theorem Views.after_cons (v : Views δ) (e : Effect δ ρ μ) (es : List (Effect δ ρ μ)) :
    v.after (e :: es) = (e.apply v).after es := rfl

theorem Views.after_append (v : Views δ) (es es' : List (Effect δ ρ μ)) :
    v.after (es ++ es') = (v.after es).after es' := List.foldl_append ..

/-- Every view says `up`; `key` is the flag in Redis, and without a local relay
there are two views. -/
structure Views.Are (v : Views δ) (key : String) (relay up : Bool) : Prop where
  connected : v.connected = up
  redis : counter v.redis key = some (flag up)
  relay : relay = true → v.relayUp = up

theorem setsOnly_keeps {key : String} {up : Bool} {calls : List (RedisCall δ)}
    (h : SetsOnly key up calls) {redis : Redis δ} (hr : counter redis key = some (flag up)) :
    counter (redis.after calls) key = some (flag up) := by
  by_cases hm : RedisFanout.setInt key (flag up) ∈ calls.flatten
  · exact h.sets hm redis
  · have hframe : ∀ c ∈ calls.flatten, c.key ≠ key := by
      intro c hc hk
      exact hm (h c hc hk ▸ hc)
    rw [after_frame hframe]
    exact hr

/-- An effect that leaves views which are up as they are. -/
def Effect.Quiet (key : String) : Effect δ ρ μ → Prop
  | .connected _ | .relayStatus _ => False
  | .redis calls => SetsOnly key true calls
  | .publish _ | .relayMessage _ | .request _ | .authBlocked | .wait _ => True

theorem quiet_keeps {key : String} {relay : Bool} {v : Views δ} {effects : List (Effect δ ρ μ)}
    (h : ∀ e ∈ effects, e.Quiet key) (hv : v.Are key relay true) :
    (v.after effects).Are key relay true := by
  induction effects generalizing v with
  | nil => exact hv
  | cons e es ih =>
    rw [Views.after_cons]
    apply ih
    · intro e' he'
      exact h e' (List.mem_cons_of_mem _ he')
    · have he := h e List.mem_cons_self
      cases e with
      | connected up => exact he.elim
      | relayStatus up => exact he.elim
      | redis calls => exact ⟨hv.connected, setsOnly_keeps he hv.redis, hv.relay⟩
      | publish _ => exact hv
      | relayMessage _ => exact hv
      | request _ => exact hv
      | authBlocked => exact hv
      | wait _ => exact hv

/-- **Marks.** A mark leaves all views as it says, whatever they were. -/
theorem mark_sets {key : String} {up : Bool} {calls : List (RedisCall δ)}
    (h : SetsOnly key up calls) (hm : RedisFanout.setInt key (flag up) ∈ calls.flatten)
    (relay : Bool) (v : Views δ) :
    (v.after ([.connected up, .redis calls] ++
      if relay then [.relayStatus up] else [] : List (Effect δ ρ μ))).Are key relay up := by
  have hr := h.sets hm v.redis
  cases relay with
  | true => exact ⟨rfl, hr, fun _ => rfl⟩
  | false => exact ⟨rfl, hr, fun h => nomatch h⟩

end

/-- Where a live loop can be observed. -/
inductive Phase where
  | waiting
  | halted
  | open
  deriving DecidableEq, Repr

def Phase.up : Phase → Bool
  | .open => true
  | .waiting | .halted => false

/-! ## The Titan loop -/

namespace TitanLive

/-- Commands on other keys leave a flag alone. -/
theorem op_sets_up {fanout : RedisFanout} (op : TitanOp TitanDocument)
    (h : ∀ up, op ≠ .upstreamUp up) : SetsOnly MuxKeys.metaTitanUp true (op.calls fanout) := by
  have hrow : ¬ MuxKeys.hop1Prefix <+: MuxKeys.metaTitanUp.toList := by decide
  by_cases hk : MuxKeys.metaTitanUp ∈ op.fixedKeys
  · rcases TitanOp.flag_mem (by decide) hk with ⟨up, rfl⟩ | ⟨nowMs, rfl⟩
    · exact absurd rfl (h up)
    · exact TitanOp.quote_sets (by decide) nowMs
  · intro c hc hkey
    exact absurd hkey (TitanOp.frame hrow hk c hc)

/-- Reading goes on after it. -/
def Read.Continues : Read → Prop
  | .binary _ | .ping none | .other => True
  | .ping (some _) | .close | .failure _ => False

/-- Reading is handling the messages that go on, then reading the rest. -/
theorem readLoop_append (cfg : LoopConfig) {msgs : List Read} (h : ∀ m ∈ msgs, m.Continues)
    (st : TitanState) (received : Bool) (rest : List Read) :
    (readLoop cfg st received msgs).effects <+:
      (readLoop cfg st received (msgs ++ rest)).effects := by
  induction msgs generalizing st received with
  | nil => exact List.nil_prefix
  | cons m msgs ih =>
    have htail : ∀ m' ∈ msgs, m'.Continues := fun m' hm => h m' (List.mem_cons_of_mem _ hm)
    have hm := h m List.mem_cons_self
    cases m with
    | binary frame => exact (List.prefix_append_right_inj _).mpr (ih htail ..)
    | ping pong =>
      cases pong with
      | none => exact ih htail ..
      | some e => exact hm.elim
    | close => exact hm.elim
    | other => exact ih htail ..
    | failure e => exact hm.elim

/-- What a session does from its subscriptions to having handled the messages. -/
def subscribedEffects (cfg : LoopConfig) (st : TitanState) (s : Session) (msgs : List Read) :
    List TitanEffect :=
  let sub := subscribeHuntStreams cfg.wallet s.rungs cfg.ladder st
  let (pair, base, mid) := mintPairLabel solMint usdcMint
  let snapshot := publishSizeBoardSnapshot cfg.env.fanout sub.st.board s.order s.snapshotMs
    pair base mid
  sub.requests.map .request ++ [.redis snapshot] ++ (readLoop cfg sub.st false msgs).effects

/-- What a session does from connecting to having handled the messages. -/
def openEffects (cfg : LoopConfig) (st : TitanState) (s : Session) (msgs : List Read) :
    List TitanEffect :=
  markTitanConnected cfg ++ (sendGetInfo s).1 ++
    subscribedEffects cfg (startSession st cfg.ladder) s msgs

theorem subscribedEffects_prefix {cfg : LoopConfig} {s : Session} (hs : SendsSucceed cfg s)
    {msgs rest : List Read} (hr : s.reads = msgs ++ rest) (hm : ∀ m ∈ msgs, m.Continues)
    (st : TitanState) : subscribedEffects cfg st s msgs <+: (runSubscribed cfg s st).effects := by
  have hsub : (subscribeHuntStreams cfg.wallet s.rungs cfg.ladder st).result = .ok () := by
    refine (subscribeFrom_ok_iff 0 cfg.ladder _).mpr ?_
    intro idx hidx hg
    rw [Nat.zero_add] at hg ⊢
    exact hs.2 idx hidx hg
  have hread := readLoop_append cfg hm
    (subscribeHuntStreams cfg.wallet s.rungs cfg.ladder st).st false rest
  rw [← hr] at hread
  unfold runSubscribed subscribedEffects
  simp only [hsub]
  split
  · exact (List.prefix_append_right_inj _).mpr hread
  · rw [List.append_assoc _ _ (markTitanDisconnected cfg)]
    exact (List.prefix_append_right_inj _).mpr (hread.trans (List.prefix_append ..))

theorem openEffects_prefix {cfg : LoopConfig} {s : Session} (hc : Connects s)
    (hs : SendsSucceed cfg s) {msgs rest : List Read} (hr : s.reads = msgs ++ rest)
    (hm : ∀ m ∈ msgs, m.Continues) (st : TitanState) :
    openEffects cfg st s msgs <+: (runSession cfg st s).effects := by
  have hinfo := (sendGetInfo_ok_iff s).mpr hs.1
  have hsub := subscribedEffects_prefix hs hr hm (startSession st cfg.ladder)
  unfold runSession openEffects
  rw [hc.1, hc.2]
  simp only [Option.orElse_eq_orElse, Option.orElse_none, hinfo]
  exact (List.prefix_append_right_inj _).mpr hsub

theorem round_effects (cfg : LoopConfig) (loop : LoopState) (s : Session) :
    (runLiveRound cfg loop s).2.effects =
      markTitanDisconnected cfg ++ ((runSession cfg loop.st s).effects ++
        (markTitanDisconnected cfg ++ [.wait (runLiveRound cfg loop s).2.delay])) := by
  simp [runLiveRound]

/-- Everything the loop has done after these sessions. -/
def loopEffects (cfg : LoopConfig) (sessions : List Session) : List TitanEffect :=
  (runs (runLiveRound cfg) .start sessions).2.flatMap Round.effects

theorem loopEffects_concat (cfg : LoopConfig) (pre : List Session) (s : Session) :
    loopEffects cfg (pre ++ [s]) =
      loopEffects cfg pre ++
        (runLiveRound cfg (runs (runLiveRound cfg) .start pre).1 s).2.effects := by
  simp [loopEffects, runs_concat]

theorem loopEffects_prefix (cfg : LoopConfig) (pre post : List Session) :
    loopEffects cfg pre <+: loopEffects cfg (pre ++ post) := by
  simp [loopEffects, runs_append]

/-- What the loop has done where it is observed. -/
inductive At (cfg : LoopConfig) (sessions : List Session) : Phase → List TitanEffect → Prop
  | waiting (pre : List Session) (s : Session) (post : List Session)
    (hsplit : sessions = pre ++ s :: post) :
    At cfg sessions .waiting (loopEffects cfg (pre ++ [s]))
  | open (pre : List Session) (s : Session) (post : List Session)
    (hsplit : sessions = pre ++ s :: post) (hc : Connects s) (hs : SendsSucceed cfg s)
    (msgs rest : List Read) (hr : s.reads = msgs ++ rest) (hm : ∀ m ∈ msgs, m.Continues) :
    At cfg sessions .open (loopEffects cfg pre ++ (markTitanDisconnected cfg ++
      openEffects cfg (runs (runLiveRound cfg) .start pre).1.st s msgs))

/-- These are moments of the run. -/
theorem At.moment {cfg : LoopConfig} {sessions : List Session} {phase : Phase}
    {effects : List TitanEffect} (h : At cfg sessions phase effects) :
    effects <+: loopEffects cfg sessions := by
  cases h with
  | waiting pre s post hsplit =>
    have hlater := loopEffects_prefix cfg (pre ++ [s]) post
    rwa [← List.append_cons, ← hsplit] at hlater
  | «open» pre s post hsplit hc hs msgs rest hr hm =>
    have hopen := openEffects_prefix hc hs hr hm (runs (runLiveRound cfg) .start pre).1.st
    have hlater := loopEffects_prefix cfg (pre ++ [s]) post
    rw [← List.append_cons, ← hsplit] at hlater
    refine List.IsPrefix.trans ?_ hlater
    rw [loopEffects_concat, List.prefix_append_right_inj, round_effects,
      List.prefix_append_right_inj]
    exact hopen.trans (List.prefix_append ..)

section
variable {cfg : LoopConfig} (hd : cfg.env.fanout.dryRun = false)
  (hc : cfg.env.fanout.connected = true)
include hd hc

theorem marked (up : Bool) (v : Views TitanDocument) :
    (v.after ([.connected up, .redis (cfg.env.fanout.setTitanUpstreamUp up)] ++
      relayStatus cfg up : List TitanEffect)).Are MuxKeys.metaTitanUp cfg.relay up := by
  have hcalls (cs : List (RedisCall TitanDocument)) : cfg.env.fanout.calls cs = cs :=
    RedisFanout.calls_of_writes (RedisFanout.writes_of hd hc) cs
  refine mark_sets ?_ ?_ cfg.relay v
  · unfold RedisFanout.setTitanUpstreamUp
    rw [hcalls]
    have hp : ¬ MuxKeys.titanPairsLive = MuxKeys.metaTitanUp := by decide
    cases up <;> simp [SetsOnly, RedisFanout.setInt, Cmd.key, hp]
  · unfold RedisFanout.setTitanUpstreamUp
    rw [hcalls]
    cases up <;> simp

end

/-- A frame makes no mark. -/
theorem frame_quiet (env : TitanEnv) (st : TitanState) (frame : TitanFrame) :
    SetsOnly MuxKeys.metaTitanUp true (handleTitanServerMessage env st frame).2.calls := by
  rw [← frameOps_calls]
  intro c hc
  obtain ⟨call, hcall, hc⟩ := List.mem_flatten.mp hc
  obtain ⟨op, hop, hcall⟩ := List.mem_flatMap.mp hcall
  refine op_sets_up op ?_ c (List.mem_flatten.mpr ⟨call, hcall, hc⟩)
  rintro up rfl
  unfold frameOps at hop
  cases hq : quoteOf env st frame with
  | some quote => simp [hq, publishOps] at hop
  | none =>
    simp only [hq] at hop
    cases hk : (handleTitanServerMessage env st frame).2.kind <;> simp [hk, answerOps] at hop

theorem readLoop_quiet {msgs : List Read} (hm : ∀ m ∈ msgs, m.Continues) (cfg : LoopConfig)
    (st : TitanState) (received : Bool) :
    ∀ e ∈ (readLoop cfg st received msgs).effects, e.Quiet MuxKeys.metaTitanUp := by
  induction msgs generalizing st received with
  | nil => simp [readLoop]
  | cons m msgs ih =>
    have htail : ∀ m' ∈ msgs, m'.Continues := fun m' hm' => hm m' (List.mem_cons_of_mem _ hm')
    have hhead := hm m List.mem_cons_self
    cases m with
    | binary frame =>
      intro e he
      simp only [readLoop, List.mem_append, List.mem_singleton] at he
      rcases he with (he | rfl) | he
      · split at he
        · rw [List.mem_singleton.mp he]
          trivial
        · cases he
      · exact frame_quiet cfg.env st frame
      · exact ih htail _ _ e he
    | ping pong =>
      cases pong with
      | none => exact ih htail _ _
      | some e => exact hhead.elim
    | close => exact hhead.elim
    | other => exact ih htail _ _
    | failure e => exact hhead.elim

theorem sendGetInfo_quiet (s : Session) :
    ∀ e ∈ (sendGetInfo s).1, e.Quiet MuxKeys.metaTitanUp := by
  unfold sendGetInfo
  split
  · simp
  · split <;> simp [Effect.Quiet]

theorem subscribedEffects_quiet {msgs : List Read} (hm : ∀ m ∈ msgs, m.Continues)
    (cfg : LoopConfig) (st : TitanState) (s : Session) :
    ∀ e ∈ subscribedEffects cfg st s msgs, e.Quiet MuxKeys.metaTitanUp := by
  intro e he
  simp only [subscribedEffects, List.mem_append, List.mem_map, List.mem_singleton] at he
  rcases he with (⟨request, _, rfl⟩ | rfl) | he
  · trivial
  · exact op_sets_up (.sizeBoard _) (by simp)
  · exact readLoop_quiet hm cfg _ _ e he

/-- **The Titan loop.** -/
theorem views_at {cfg : LoopConfig} (hd : cfg.env.fanout.dryRun = false)
    (hc : cfg.env.fanout.connected = true) {sessions : List Session} {phase : Phase}
    {effects : List TitanEffect} (h : At cfg sessions phase effects) (v : Views TitanDocument) :
    (v.after effects).Are MuxKeys.metaTitanUp cfg.relay phase.up := by
  cases h with
  | waiting pre s post hsplit =>
    rw [loopEffects_concat, round_effects, Views.after_append, Views.after_append,
      Views.after_append, Views.after_append]
    exact marked hd hc false _
  | «open» pre s post hsplit hconn hs msgs rest hr hm =>
    unfold openEffects
    rw [List.append_assoc, Views.after_append, Views.after_append, Views.after_append,
      Views.after_append]
    refine quiet_keeps (subscribedEffects_quiet hm cfg _ s) ?_
    refine quiet_keeps (sendGetInfo_quiet s) ?_
    exact marked hd hc true _

end TitanLive

/-! ## The Triton loop -/

namespace TritonLive

/-- What handling updates does, answers to pings included. -/
def handled (cfg : LoopConfig) : Int32 → List Read → List TritonEffect
  | _, [] => []
  | pingId, .update msg nowMs utc pingGranted _ :: rest =>
    let relayed := if cfg.relay then [.relayMessage msg] else []
    let done := relayed ++ handleTritonUpdate cfg msg nowMs utc
    if msg.updateOneof == some .ping && pingGranted then
      done ++ [.request (.ping pingId)] ++ handled cfg (pingId + 1) rest
    else done ++ handled cfg pingId rest
  | pingId, .failure _ :: rest => handled cfg pingId rest

theorem streamEnds_cons {read : Read} {reads : List Read} :
    StreamEnds (read :: reads) ↔
      (¬ read.PingFails ∧ ∀ e, read ≠ .failure e) ∧ StreamEnds reads := by
  simp [StreamEnds]

theorem readLoop_append (cfg : LoopConfig) {msgs : List Read} (h : StreamEnds msgs)
    (pingId : Int32) (received : Bool) (rest : List Read) :
    handled cfg pingId msgs <+: (readLoop cfg pingId received (msgs ++ rest)).effects := by
  induction msgs generalizing pingId received with
  | nil => exact List.nil_prefix
  | cons m msgs ih =>
    obtain ⟨⟨hping, hfail⟩, htail⟩ := streamEnds_cons.mp h
    cases m with
    | failure e => exact absurd rfl (hfail e)
    | update msg nowMs utc pingGranted pingSend =>
      rw [List.cons_append]
      unfold handled readLoop
      by_cases hp : msg.updateOneof = some .ping ∧ pingGranted = true
      · obtain ⟨hm, rfl⟩ := hp
        have hsend : pingSend = none := by
          by_contra hs
          exact hping ⟨hm, rfl, hs⟩
        subst hsend
        simp only [hm, beq_self_eq_true, Bool.and_true, ↓reduceIte]
        exact (List.prefix_append_right_inj _).mpr (ih htail _ _)
      · have hcond : (msg.updateOneof == some .ping && pingGranted) = false := by
          by_cases hm : msg.updateOneof = some .ping <;> simp_all
        simp only [hcond, Bool.false_eq_true, ↓reduceIte]
        exact (List.prefix_append_right_inj _).mpr (ih htail _ _)

/-- What a session does from its subscription to having handled the updates. -/
def openEffects (cfg : LoopConfig) (msgs : List Read) : List TritonEffect :=
  .request .slots :: (markTritonConnected cfg ++ handled cfg 1 msgs)

theorem openEffects_prefix {cfg : LoopConfig} {s : Session} (ho : openStream cfg s = .ok ())
    {msgs rest : List Read} (hr : s.reads = msgs ++ rest) (hm : StreamEnds msgs) :
    openEffects cfg msgs <+: (runSession cfg s).effects := by
  have hread := readLoop_append cfg hm 1 false rest
  rw [← hr] at hread
  simp only [openEffects, runSession, ho, subscribed_open ho]
  exact List.cons_prefix_cons.mpr ⟨rfl, (List.prefix_append_right_inj _).mpr hread⟩

/-- How a turn of the loop ends; if it neither waits nor blocks, it panicked. -/
def endEffects (round : Round) : List TritonEffect :=
  match round.delay, round.result with
  | some delay, _ => [.wait delay]
  | none, .error e => if classifyGrpcStreamError e = .authDenied then [.authBlocked] else []
  | none, .ok _ => []

/-- A turn waits if the loop goes on, and otherwise halts it. -/
theorem runLiveRound_turn (cfg : LoopConfig) (backoff : ReconnectBackoff) (s : Session) :
    ∃ round, (runLiveRound cfg (some backoff) s).2 = some round ∧
      round.effects = markTritonDisconnected cfg ++ ((runSession cfg s).effects ++
        (markTritonDisconnected cfg ++ endEffects round)) ∧
      (round.delay = none ↔ (runLiveRound cfg (some backoff) s).1 = none) := by
  unfold runLiveRound
  simp only
  split
  · exact ⟨_, rfl, by simp [endEffects], by simp⟩
  · rename_i e hres
    split
    · rename_i hclass
      exact ⟨_, rfl, by simp [endEffects, hres, hclass], by simp⟩
    · rename_i hclass
      split
      · exact ⟨_, rfl, by simp [endEffects], by simp⟩
      · exact ⟨_, rfl, by simp [endEffects, hres, hclass], by simp⟩

/-- The loop after these sessions, if it goes on. -/
def loopAfter (cfg : LoopConfig) (sessions : List Session) : Option ReconnectBackoff :=
  (runs (runLiveRound cfg) (some liveBackoff) sessions).1

/-- Everything the loop has done after these sessions. -/
def loopEffects (cfg : LoopConfig) (sessions : List Session) : List TritonEffect :=
  (runs (runLiveRound cfg) (some liveBackoff) sessions).2.reduceOption.flatMap Round.effects

theorem loopEffects_concat (cfg : LoopConfig) (pre : List Session) (s : Session) :
    loopEffects cfg (pre ++ [s]) =
      loopEffects cfg pre ++
        (runLiveRound cfg (loopAfter cfg pre) s).2.toList.flatMap Round.effects := by
  rw [loopEffects, runs_concat, List.reduceOption_append, List.flatMap_append]
  rfl

theorem loopEffects_prefix (cfg : LoopConfig) (pre post : List Session) :
    loopEffects cfg pre <+: loopEffects cfg (pre ++ post) := by
  rw [loopEffects, loopEffects, runs_append, List.reduceOption_append, List.flatMap_append]
  exact List.prefix_append ..

/-- What the loop has done where it is observed. -/
inductive At (cfg : LoopConfig) (sessions : List Session) : Phase → List TritonEffect → Prop
  | waiting (pre : List Session) (s : Session) (post : List Session)
    (hsplit : sessions = pre ++ s :: post) (hgoes : loopAfter cfg (pre ++ [s]) ≠ none) :
    At cfg sessions .waiting (loopEffects cfg (pre ++ [s]))
  | halted (pre post : List Session) (hsplit : sessions = pre ++ post)
    (hhalts : loopAfter cfg pre = none) :
    At cfg sessions .halted (loopEffects cfg pre)
  | open (pre : List Session) (s : Session) (post : List Session)
    (hsplit : sessions = pre ++ s :: post) (hgoes : loopAfter cfg pre ≠ none)
    (ho : openStream cfg s = .ok ()) (msgs rest : List Read) (hr : s.reads = msgs ++ rest)
    (hm : StreamEnds msgs) :
    At cfg sessions .open
      (loopEffects cfg pre ++ (markTritonDisconnected cfg ++ openEffects cfg msgs))

/-- These are moments of the run. -/
theorem At.moment {cfg : LoopConfig} {sessions : List Session} {phase : Phase}
    {effects : List TritonEffect} (h : At cfg sessions phase effects) :
    effects <+: loopEffects cfg sessions := by
  cases h with
  | waiting pre s post hsplit hgoes =>
    have hlater := loopEffects_prefix cfg (pre ++ [s]) post
    rwa [← List.append_cons, ← hsplit] at hlater
  | halted pre post hsplit hhalts =>
    rw [hsplit]
    exact loopEffects_prefix ..
  | «open» pre s post hsplit hgoes ho msgs rest hr hm =>
    have hopen := openEffects_prefix ho hr hm
    have hlater := loopEffects_prefix cfg (pre ++ [s]) post
    rw [← List.append_cons, ← hsplit] at hlater
    obtain ⟨backoff, hb⟩ := Option.ne_none_iff_exists'.mp hgoes
    obtain ⟨round, hround, heffects, -⟩ := runLiveRound_turn cfg backoff s
    refine List.IsPrefix.trans ?_ hlater
    rw [loopEffects_concat, List.prefix_append_right_inj, hb, hround, Option.toList_some,
      List.flatMap_singleton, heffects, List.prefix_append_right_inj]
    exact hopen.trans (List.prefix_append ..)

theorem handled_quiet (cfg : LoopConfig) (pingId : Int32) (msgs : List Read) :
    ∀ e ∈ handled cfg pingId msgs, e.Quiet MuxKeys.metaTritonUp := by
  induction msgs generalizing pingId with
  | nil => simp [handled]
  | cons m msgs ih =>
    cases m with
    | failure e => exact ih _
    | update msg nowMs utc pingGranted pingSend =>
      have hrelayed : ∀ e ∈ (if cfg.relay then [.relayMessage msg] else [] : List TritonEffect),
          e.Quiet MuxKeys.metaTritonUp := by
        split <;> simp [Effect.Quiet]
      have hframe : SetsOnly MuxKeys.metaTritonUp true
          (cfg.fanout.recordTritonFrame nowMs : List (RedisCall Unit)) := by
        have hf : ¬ MuxKeys.tritonFrames = MuxKeys.metaTritonUp := by decide
        have hl : ¬ MuxKeys.tritonLastFrameMs = MuxKeys.metaTritonUp := by decide
        apply RedisFanout.forall_calls
        simp [RedisFanout.setMs, RedisFanout.setInt, Cmd.key, flag, hf, hl]
      have hupdate : ∀ e ∈ handleTritonUpdate cfg msg nowMs utc,
          e.Quiet MuxKeys.metaTritonUp := by
        simp only [handleTritonUpdate, List.forall_mem_cons, List.not_mem_nil, false_implies,
          implies_true, and_true]
        exact ⟨hframe, trivial⟩
      intro e he
      by_cases hping : (msg.updateOneof == some .ping && pingGranted) = true
      · simp only [handled, hping, ↓reduceIte, List.mem_append, List.mem_singleton] at he
        rcases he with ((he | he) | rfl) | he
        · exact hrelayed e he
        · exact hupdate e he
        · trivial
        · exact ih _ e he
      · simp only [handled, hping, ↓reduceIte, List.mem_append, Bool.false_eq_true] at he
        rcases he with (he | he) | he
        · exact hrelayed e he
        · exact hupdate e he
        · exact ih _ e he

section
variable {cfg : LoopConfig} (hd : cfg.fanout.dryRun = false) (hc : cfg.fanout.connected = true)
include hd hc

theorem marked (up : Bool) (v : Views Unit) :
    (v.after ([.connected up, .redis (cfg.fanout.setTritonUpstreamUp up)] ++
      relayStatus cfg up : List TritonEffect)).Are MuxKeys.metaTritonUp cfg.relay up := by
  have hcalls (cs : List (RedisCall Unit)) : cfg.fanout.calls cs = cs :=
    RedisFanout.calls_of_writes (RedisFanout.writes_of hd hc) cs
  unfold RedisFanout.setTritonUpstreamUp
  rw [hcalls]
  refine mark_sets ?_ ?_ cfg.relay v <;> simp [SetsOnly]

/-- Once the loop has turned, its views are down whenever no session is open. -/
theorem down_after (v : Views Unit) (sessions : List Session)
    (h : sessions ≠ [] ∨ loopAfter cfg sessions = none) :
    (v.after (loopEffects cfg sessions)).Are MuxKeys.metaTritonUp cfg.relay false := by
  induction sessions using List.reverseRecOn with
  | nil => exact absurd h (by simp [loopAfter])
  | append_singleton pre s ih =>
    rw [loopEffects_concat]
    cases hb : loopAfter cfg pre with
    | none =>
      have hnone : (runLiveRound cfg none s).2 = none := rfl
      rw [hnone]
      simpa using ih (.inr hb)
    | some backoff =>
      obtain ⟨round, hround, heffects, -⟩ := runLiveRound_turn cfg backoff s
      rw [hround, Option.toList_some, List.flatMap_singleton, heffects, Views.after_append,
        Views.after_append, Views.after_append, Views.after_append]
      have hmark := marked hd hc false ((v.after (loopEffects cfg pre)).after
        (markTritonDisconnected cfg) |>.after (runSession cfg s).effects)
      unfold endEffects
      split
      · exact hmark
      · split <;> exact hmark
      · exact hmark

/-- **The Triton loop.** -/
theorem views_at {sessions : List Session} {phase : Phase} {effects : List TritonEffect}
    (h : At cfg sessions phase effects) (v : Views Unit) :
    (v.after effects).Are MuxKeys.metaTritonUp cfg.relay phase.up := by
  cases h with
  | waiting pre s post hsplit hgoes => exact down_after hd hc v _ (.inl (by simp))
  | halted pre post hsplit hhalts => exact down_after hd hc v _ (.inr hhalts)
  | «open» pre s post hsplit hgoes ho msgs rest hr hm =>
    unfold openEffects
    rw [Views.after_append, Views.after_append, Views.after_cons, Views.after_append]
    refine quiet_keeps (handled_quiet cfg 1 msgs) ?_
    exact marked hd hc true _

end

end TritonLive

/-- **Three views.** At every observed moment of every run of either loop, the
connected flag, the flag in Redis and that of the local relay are up if a
session is open and down if the loop waits or has halted. -/
theorem views_agree :
    (∀ (cfg : TitanLive.LoopConfig) (sessions : List TitanLive.Session) (phase : Phase)
        (effects : List TitanLive.TitanEffect) (v : Views TitanDocument),
      cfg.env.fanout.dryRun = false → cfg.env.fanout.connected = true →
        TitanLive.At cfg sessions phase effects →
          effects <+: TitanLive.loopEffects cfg sessions ∧
            (v.after effects).Are MuxKeys.metaTitanUp cfg.relay phase.up) ∧
      ∀ (cfg : TritonLive.LoopConfig) (sessions : List TritonLive.Session) (phase : Phase)
          (effects : List TritonLive.TritonEffect) (v : Views Unit),
        cfg.fanout.dryRun = false → cfg.fanout.connected = true →
          TritonLive.At cfg sessions phase effects →
            effects <+: TritonLive.loopEffects cfg sessions ∧
              (v.after effects).Are MuxKeys.metaTritonUp cfg.relay phase.up := by
  constructor
  · intro cfg sessions phase effects v hd hc h
    exact ⟨h.moment, TitanLive.views_at hd hc h v⟩
  · intro cfg sessions phase effects v hd hc h
    exact ⟨h.moment, TritonLive.views_at hd hc h v⟩

/-- A session that may not connect. -/
def tritonDenied : TritonLive.Session :=
  { TritonLive.sampleSession [] with connect := some "status: 401" }

/-- Up after the first frame of a session, down after a denial. -/
theorem views_agree_sample :
    (∃ effects, effects <+: TitanLive.loopEffects titanSample [titanSession .close] ∧
      Views.Are (Views.after ⟨false, fun _ => none, false⟩ effects) MuxKeys.metaTitanUp true
        true) ∧
      Views.Are (Views.after ⟨true, fun _ => none, true⟩
        (TritonLive.loopEffects TritonLive.sampleConfig [tritonDenied])) MuxKeys.metaTritonUp true
        false := by
  constructor
  · have hat : TitanLive.At titanSample [titanSession .close] .open _ :=
      .open [] (titanSession .close) [] rfl ⟨rfl, rfl⟩ ⟨fun _ => rfl, fun _ _ _ => rfl⟩
        [.binary ⟨[], sampleClock⟩] [.close] rfl (by simp [TitanLive.Read.Continues])
    exact ⟨_, views_agree.1 titanSample _ .open _ ⟨false, fun _ => none, false⟩ rfl rfl hat⟩
  · have hat : TritonLive.At TritonLive.sampleConfig [tritonDenied] .halted _ :=
      .halted [tritonDenied] [] rfl (by decide +kernel)
    exact (views_agree.2 TritonLive.sampleConfig _ .halted _ ⟨true, fun _ => none, true⟩ rfl rfl
      hat).2

end FeedMux.Upstream
