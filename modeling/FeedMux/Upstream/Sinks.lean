import FeedMux.Upstream.Operations

/-!
# The three sinks of a Triton update (`src/upstream/triton.rs`)

Each update that a session receives is handed to the local relay, recorded in
Redis and published on the feed, in this order. So at any moment of the live loop
the three have seen the same updates but for the one being handled
(`sinks_in_step`).
-/

namespace FeedMux.Upstream
open FeedMux.Library FeedMux.Library.KeyValue

def Effect.message? {δ ρ μ : Type} : Effect δ ρ μ → Option μ
  | .relayMessage message => some message
  | .connected _ | .redis _ | .publish _ | .relayStatus _ | .request _ | .authBlocked
  | .wait _ => none

def Effect.payload? {δ ρ μ : Type} : Effect δ ρ μ → Option FeedPayload
  | .publish payload => some payload
  | .connected _ | .redis _ | .relayStatus _ | .relayMessage _ | .request _ | .authBlocked
  | .wait _ => none

namespace TritonLive

/-- An update, with the clocks read for it. -/
structure ReceivedUpdate where
  msg : SubscribeUpdate
  nowMs : UInt64
  utc : String

/-- The updates of an open stream; an answer to a ping that cannot be sent ends it. -/
def received : List Read → List ReceivedUpdate
  | [] | .failure _ :: _ => []
  | .update msg nowMs utc pingGranted pingSend :: rest =>
    ⟨msg, nowMs, utc⟩ ::
      if msg.updateOneof == some .ping && pingGranted && pingSend.isSome then [] else received rest

def sessionReceived (cfg : LoopConfig) (s : Session) : List ReceivedUpdate :=
  match openStream cfg s with
  | .error _ => []
  | .ok () => received s.reads

def receivedFrom (cfg : LoopConfig) :
    Option ReconnectBackoff → List Session → List ReceivedUpdate
  | some backoff, s :: rest =>
    sessionReceived cfg s ++ receivedFrom cfg (runLiveRound cfg (some backoff) s).1 rest
  | none, _ | _, [] => []

/-- Everything that the sessions of the loop receive. -/
def loopReceived (cfg : LoopConfig) (sessions : List Session) : List ReceivedUpdate :=
  receivedFrom cfg (some liveBackoff) sessions

/-! ## What the sinks have seen -/

/-- The updates at the local relay, the times recorded in Redis, and the payloads
on the feed. -/
@[ext] structure Sinks where
  relayed : List SubscribeUpdate
  recorded : List Int
  published : List FeedPayload

instance : Append Sinks where
  append a b := ⟨a.relayed ++ b.relayed, a.recorded ++ b.recorded, a.published ++ b.published⟩

@[simp] theorem relayed_append (a b : Sinks) : (a ++ b).relayed = a.relayed ++ b.relayed := rfl

@[simp] theorem recorded_append (a b : Sinks) : (a ++ b).recorded = a.recorded ++ b.recorded := rfl

@[simp] theorem published_append (a b : Sinks) :
    (a ++ b).published = a.published ++ b.published := rfl

/-- The time that a command records for a frame. -/
def frameTime : RedisCmd Unit → Option Int
  | .set key (.int n) => if key = MuxKeys.tritonLastFrameMs then some n else none
  | _ => none

def sinksOf (effects : List TritonEffect) : Sinks where
  relayed := effects.filterMap Effect.message?
  recorded := (effects.flatMap Effect.redisCalls).flatten.filterMap frameTime
  published := effects.filterMap Effect.payload?

def noSinks : Sinks := ⟨[], [], []⟩

def slotPayload (u : ReceivedUpdate) : FeedPayload where
  event := "triton.slot"
  source := "triton_grpc"
  ts := u.utc
  data := some (.subscribeUpdate (u.msg.updateOneof == some .slot))

/-- The first `i` updates at the relay, the first `j` in Redis and the first `k` on
the feed. -/
def seen (cfg : LoopConfig) (us : List ReceivedUpdate) (i j k : Nat) : Sinks where
  relayed := if cfg.relay then (us.take i).map (·.msg) else []
  recorded := if cfg.fanout.writes then (us.take j).map fun u => (u.nowMs.toNat : Int) else []
  published := (us.take k).map slotPayload

/-- The effects of handling one update. -/
def updateEffects (cfg : LoopConfig) (u : ReceivedUpdate) : List TritonEffect :=
  (if cfg.relay then [.relayMessage u.msg] else []) ++
    handleTritonUpdate cfg u.msg u.nowMs u.utc

/-- The effects handle these updates one by one. -/
inductive Handles (cfg : LoopConfig) : List ReceivedUpdate → List TritonEffect → Prop
  | nil : Handles cfg [] []
  | silent (e : TritonEffect) {us : List ReceivedUpdate} {effects : List TritonEffect}
    (he : sinksOf [e] = noSinks) (h : Handles cfg us effects) : Handles cfg us (e :: effects)
  | update (u : ReceivedUpdate) {us : List ReceivedUpdate} {effects : List TritonEffect}
    (h : Handles cfg us effects) : Handles cfg (u :: us) (updateEffects cfg u ++ effects)

section
variable {cfg : LoopConfig} {us more : List ReceivedUpdate} {effects effects' : List TritonEffect}

theorem Handles.append (h : Handles cfg us effects) (h' : Handles cfg more effects') :
    Handles cfg (us ++ more) (effects ++ effects') := by
  induction h with
  | nil => exact h'
  | silent e he h ih => exact .silent e he ih
  | update u h ih =>
    rw [List.append_assoc]
    exact .update u ih

theorem Handles.of_silent (h : ∀ e ∈ effects, sinksOf [e] = noSinks) :
    Handles cfg [] effects := by
  induction effects with
  | nil => exact .nil
  | cons e effects ih =>
    exact .silent e (h e List.mem_cons_self) (ih fun e he => h e (List.mem_cons_of_mem _ he))

theorem Handles.silent_one {e : TritonEffect} (he : sinksOf [e] = noSinks) :
    Handles cfg [] [e] := .silent e he .nil

theorem Handles.one (u : ReceivedUpdate) : Handles cfg [u] (updateEffects cfg u) := by
  have h : Handles cfg [u] (updateEffects cfg u ++ []) := .update u .nil
  rwa [List.append_nil] at h

theorem sinksOf_append (effects effects' : List TritonEffect) :
    sinksOf (effects ++ effects') = sinksOf effects ++ sinksOf effects' := by
  ext1 <;> simp [sinksOf]

theorem sinksOf_cons (e : TritonEffect) (effects : List TritonEffect) :
    sinksOf (e :: effects) = sinksOf [e] ++ sinksOf effects := sinksOf_append [e] effects

theorem noSinks_append (a : Sinks) : noSinks ++ a = a := by
  ext1 <;> simp [noSinks]

@[simp] theorem sinksOf_nil : sinksOf [] = noSinks := rfl

/-- Recording an update is seen in Redis only. -/
theorem sinksOf_redis (u : ReceivedUpdate) :
    sinksOf [.redis (cfg.fanout.recordTritonFrame u.nowMs)] =
      ⟨[], if cfg.fanout.writes then [(u.nowMs.toNat : Int)] else [], []⟩ := by
  unfold RedisFanout.recordTritonFrame
  cases hw : cfg.fanout.writes with
  | true =>
    rw [RedisFanout.calls_of_writes hw]
    rfl
  | false =>
    rw [RedisFanout.calls_of_not_writes hw]
    rfl

theorem seen_zero : seen cfg us 0 0 0 = noSinks := by
  ext1 <;> simp [seen, noSinks]

theorem seen_cons (u : ReceivedUpdate) (i j k : Nat) :
    seen cfg (u :: us) (i + 1) (j + 1) (k + 1) = seen cfg [u] 1 1 1 ++ seen cfg us i j k := by
  ext1
  · cases h : cfg.relay <;> simp [seen, h]
  · cases h : cfg.fanout.writes <;> simp [seen, h]
  · simp [seen]

/-- The three effects of an update, or two without a relay. -/
theorem updateEffects_eq (u : ReceivedUpdate) : updateEffects cfg u =
    (if cfg.relay then [.relayMessage u.msg] else []) ++
      [.redis (cfg.fanout.recordTritonFrame u.nowMs)] ++ [.publish (slotPayload u)] := by
  rw [List.append_assoc]
  rfl

theorem sinksOf_relay (u : ReceivedUpdate) :
    sinksOf (if cfg.relay then [.relayMessage u.msg] else []) = seen cfg (u :: us) 1 0 0 := by
  ext1 <;> cases h : cfg.relay <;> simp [sinksOf, seen, h, Effect.message?, Effect.payload?,
    Effect.redisCalls]

theorem sinksOf_recorded (u : ReceivedUpdate) :
    seen cfg (u :: us) 1 0 0 ++ sinksOf [.redis (cfg.fanout.recordTritonFrame u.nowMs)] =
      seen cfg (u :: us) 1 1 0 := by
  rw [sinksOf_redis]
  ext1 <;> cases h : cfg.fanout.writes <;> simp [seen, h]

theorem sinksOf_published (u : ReceivedUpdate) :
    seen cfg (u :: us) 1 1 0 ++ sinksOf [.publish (slotPayload u)] =
      seen cfg (u :: us) 1 1 1 := by
  ext1 <;> simp [sinksOf, seen, Effect.message?, Effect.payload?, Effect.redisCalls]

/-- Handling an update goes through the sinks in order. -/
theorem sinksOf_update (u : ReceivedUpdate) {pre : List TritonEffect}
    (hp : pre <+: updateEffects cfg u) : ∃ i j k, k ≤ j ∧ j ≤ i ∧ i ≤ 1 ∧
      sinksOf pre = seen cfg (u :: us) i j k := by
  rw [updateEffects_eq, List.prefix_concat_iff, List.prefix_concat_iff] at hp
  rcases hp with rfl | rfl | hrelay
  · refine ⟨1, 1, 1, by omega, by omega, by omega, ?_⟩
    rw [sinksOf_append, sinksOf_append, sinksOf_relay, sinksOf_recorded, sinksOf_published]
  · refine ⟨1, 1, 0, by omega, by omega, by omega, ?_⟩
    rw [sinksOf_append, sinksOf_relay, sinksOf_recorded]
  · have hsome : pre = [] ∨ pre = if cfg.relay then [.relayMessage u.msg] else [] := by
      by_cases hr : cfg.relay
      · simpa [hr, List.prefix_cons_iff] using hrelay
      · simpa [hr] using hrelay
    rcases hsome with rfl | rfl
    · exact ⟨0, 0, 0, by omega, by omega, by omega, seen_zero.symm⟩
    · exact ⟨1, 0, 0, by omega, by omega, by omega, sinksOf_relay u⟩

/-- **In step.** At any moment the relay is at most one update ahead of Redis, and
Redis of the feed. -/
theorem Handles.in_step (h : Handles cfg us effects) {pre : List TritonEffect}
    (hp : pre <+: effects) : ∃ i j k, k ≤ j ∧ j ≤ i ∧ i ≤ k + 1 ∧ i ≤ us.length ∧
      sinksOf pre = seen cfg us i j k := by
  induction h generalizing pre with
  | nil =>
    obtain rfl := List.prefix_nil.mp hp
    exact ⟨0, 0, 0, by omega, by omega, by omega, by omega, seen_zero.symm⟩
  | silent e he h ih =>
    rcases List.prefix_cons_iff.mp hp with rfl | ⟨rest, rfl, hrest⟩
    · exact ⟨0, 0, 0, by omega, by omega, by omega, by omega, seen_zero.symm⟩
    · obtain ⟨i, j, k, hkj, hji, hik, hlen, hseen⟩ := ih hrest
      refine ⟨i, j, k, hkj, hji, hik, hlen, ?_⟩
      rw [sinksOf_cons, he, noSinks_append, hseen]
  | update u h ih =>
    rename_i us effects
    by_cases hl : (updateEffects cfg u).length ≤ pre.length
    · obtain ⟨pre, rfl⟩ := List.prefix_of_prefix_length_le (List.prefix_append ..) hp hl
      obtain ⟨i, j, k, hkj, hji, hik, hlen, hseen⟩ := ih ((List.prefix_append_right_inj _).mp hp)
      refine ⟨i + 1, j + 1, k + 1, by omega, by omega, by omega, ?_, ?_⟩
      · rw [List.length_cons]
        omega
      · rw [sinksOf_append, hseen, seen_cons, updateEffects_eq, sinksOf_append, sinksOf_append,
          sinksOf_relay, sinksOf_recorded, sinksOf_published]
    · have hpre : pre <+: updateEffects cfg u :=
        List.prefix_of_prefix_length_le hp (List.prefix_append ..) (by omega)
      obtain ⟨i, j, k, hkj, hji, hi, hseen⟩ := @sinksOf_update cfg us u _ hpre
      exact ⟨i, j, k, hkj, hji, by omega, by rw [List.length_cons]; omega, hseen⟩

/-- In the end every sink has seen every update. -/
theorem Handles.all_seen (h : Handles cfg us effects) :
    sinksOf effects = seen cfg us us.length us.length us.length := by
  induction h with
  | nil => exact seen_zero.symm
  | silent e he h ih => rw [sinksOf_cons, he, noSinks_append, ih]
  | update u h ih =>
    rw [sinksOf_append, ih, List.length_cons, seen_cons, updateEffects_eq, sinksOf_append,
      sinksOf_append, sinksOf_relay, sinksOf_recorded, sinksOf_published]

/-! ## The loop -/

theorem mark_silent (up : Bool) :
    ∀ e ∈ [.connected up, .redis (cfg.fanout.setTritonUpstreamUp up)] ++ relayStatus cfg up,
      sinksOf [e] = noSinks := by
  have hmark : sinksOf [.redis (cfg.fanout.setTritonUpstreamUp up)] = noSinks := by
    unfold RedisFanout.setTritonUpstreamUp
    cases hw : cfg.fanout.writes with
    | true =>
      rw [RedisFanout.calls_of_writes hw]
      rfl
    | false =>
      rw [RedisFanout.calls_of_not_writes hw]
      rfl
  unfold relayStatus
  intro e he
  simp only [List.mem_append, List.mem_cons, List.not_mem_nil, or_false] at he
  rcases he with (rfl | rfl) | he
  · rfl
  · exact hmark
  · split at he
    · obtain rfl := List.mem_singleton.mp he
      rfl
    · cases he

theorem readLoop_handles (pingId : Int32) (done : Bool) (reads : List Read) :
    Handles cfg (received reads) (readLoop cfg pingId done reads).effects := by
  induction reads generalizing pingId done with
  | nil => exact .of_silent (mark_silent false)
  | cons read rest ih =>
    cases read with
    | failure e => exact .nil
    | update msg nowMs utc pingGranted pingSend =>
      have hupdate : Handles cfg [⟨msg, nowMs, utc⟩] (updateEffects cfg ⟨msg, nowMs, utc⟩) := .one _
      have hping : Handles cfg [] [.request (.ping pingId)] := .silent_one rfl
      unfold received readLoop
      by_cases hp : (msg.updateOneof == some .ping && pingGranted) = true
      · simp only [hp, Bool.true_and, ↓reduceIte]
        cases pingSend with
        | some e => exact hupdate
        | none => exact (hupdate.append hping).append (ih (pingId + 1) true)
      · simp only [hp, Bool.false_and, Bool.false_eq_true, ↓reduceIte]
        exact hupdate.append (ih pingId true)

theorem runSession_handles (s : Session) :
    Handles cfg (sessionReceived cfg s) (runSession cfg s).effects := by
  have hsent : Handles cfg [] (subscribed cfg s) := by
    rcases subscribed_cases cfg s with h | h
    · rw [h]
      exact .nil
    · rw [h]
      exact .silent_one rfl
  unfold runSession sessionReceived
  cases openStream cfg s with
  | error e => exact hsent
  | ok u =>
    exact hsent.append ((Handles.of_silent (mark_silent true)).append
      (readLoop_handles 1 false s.reads))

theorem loop_handles (loop : Option ReconnectBackoff) (sessions : List Session) :
    Handles cfg (receivedFrom cfg loop sessions)
      ((runs (runLiveRound cfg) loop sessions).2.reduceOption.flatMap Round.effects) := by
  induction sessions generalizing loop with
  | nil => cases loop <;> exact .nil
  | cons s rest ih =>
    rw [runs_cons]
    cases loop with
    | none =>
      have hnone : receivedFrom cfg none (s :: rest) = receivedFrom cfg none rest := by
        cases rest <;> rfl
      rw [hnone]
      exact ih none
    | some backoff =>
      obtain ⟨round, hround, heffects, -⟩ := runLiveRound_turn cfg backoff s
      have hmark : Handles cfg [] (markTritonDisconnected cfg) := .of_silent (mark_silent false)
      have hend : Handles cfg [] (endEffects round) := by
        unfold endEffects
        split
        · exact .silent_one rfl
        · split
          · exact .silent_one rfl
          · exact .nil
        · exact .nil
      have hround' : Handles cfg (sessionReceived cfg s) round.effects := by
        have hall := hmark.append ((runSession_handles s).append (hmark.append hend))
        rwa [List.nil_append, List.append_nil, List.append_nil, ← heffects] at hall
      rw [hround, List.reduceOption_cons_of_some, List.flatMap_cons]
      exact hround'.append (ih _)

theorem loop_sinks (cfg : LoopConfig) (sessions : List Session) :
    sinksOf (loopEffects cfg sessions) = seen cfg (loopReceived cfg sessions)
      (loopReceived cfg sessions).length (loopReceived cfg sessions).length
      (loopReceived cfg sessions).length :=
  (loop_handles (some liveBackoff) sessions).all_seen

end

/-- **Three sinks.** At any moment of the live loop the local relay, Redis and the
feed have been given the same updates, in the order received, but for the one
being handled; when the loop has done its turns, all of them. -/
theorem sinks_in_step (cfg : LoopConfig) (sessions : List Session)
    (effects : List TritonEffect) (h : effects <+: loopEffects cfg sessions) :
    let us := loopReceived cfg sessions
    (∃ i j k, k ≤ j ∧ j ≤ i ∧ i ≤ k + 1 ∧ i ≤ us.length ∧ sinksOf effects = seen cfg us i j k) ∧
      sinksOf (loopEffects cfg sessions) = seen cfg us us.length us.length us.length := by
  intro us
  have hloop : Handles cfg us (loopEffects cfg sessions) :=
    loop_handles (some liveBackoff) sessions
  exact ⟨hloop.in_step h, loop_sinks cfg sessions⟩

/-- Two sessions, observed while the update of the second is being handled. -/
theorem sinks_in_step_sample :
    let sessions := [tritonSession [], tritonSession []]
    let us := loopReceived sampleConfig sessions
    us.length = 2 ∧ ∃ i j k, k ≤ j ∧ j ≤ i ∧ i ≤ k + 1 ∧ i ≤ us.length ∧
      sinksOf ((loopEffects sampleConfig sessions).take 25) = seen sampleConfig us i j k := by
  intro sessions us
  exact ⟨by decide, (sinks_in_step sampleConfig sessions _ (List.take_prefix 25 _)).1⟩

end TritonLive
end FeedMux.Upstream
