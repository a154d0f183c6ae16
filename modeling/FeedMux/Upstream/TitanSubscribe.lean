import FeedMux.Titan.Message
import FeedMux.WsReconnect

/-!
# A Titan session's subscriptions (`subscribe_hunt_streams` in `src/upstream/titan.rs`)

A session starts with a cleared registry and board. Subscribing registers a
request for each granted rung and marks the others unsubscribed
(`open_registered`, `open_board`). The documents built afterwards tell the
session's history (`board_tells_session`), and a stream belongs to the rung of
the last response that names it (`streams_attributed`).
-/

namespace FeedMux.Upstream
open FeedMux.Library FeedMux.Titan Std

/-- The mints of a swap request are the constants for SOL and USDC. -/
inductive ClientRequestData where
  | getInfo
  | newSwapQuoteStream (amount : UInt64) (slippageBps : Option UInt16) (userPublicKey : Pubkey)
  deriving DecidableEq

structure ClientRequest where
  id : Nat
  data : ClientRequestData
  deriving DecidableEq

/-- `run_session` clears both collections once connected. -/
def startSession (st : TitanState) (ladder : List UInt64) : TitanState where
  registry := st.registry.clear
  board := st.board.clear.initHuntSizes ladder

/-- What the rate limiter and the socket do at each rung. -/
structure RungScript where
  granted : Nat → Bool
  send : Nat → Option WsError

/-- The requests sent, the state, and how the loop over the rungs ends. -/
structure Subscribed where
  requests : List ClientRequest
  st : TitanState
  result : Except WsError Unit

/-- The loop over the rungs from index `idx` on. -/
def subscribeFrom (wallet : Pubkey) (script : RungScript) :
    Nat → List UInt64 → TitanState → Subscribed
  | _, [], st => ⟨[], st, .ok ()⟩
  | idx, amount :: rest, st =>
    if !script.granted idx then
      subscribeFrom wallet script (idx + 1) rest
        { st with board := st.board.markUnsubscribed amount }
    else
      let requestId := idx + 2
      let st := { st with registry := st.registry.registerPendingRequest requestId amount }
      match script.send idx with
      | some e => ⟨[], st, .error e⟩
      | none =>
        let sub := subscribeFrom wallet script (idx + 1) rest st
        let request : ClientRequest := ⟨requestId, .newSwapQuoteStream amount (some 50) wallet⟩
        { sub with requests := request :: sub.requests }

def subscribeHuntStreams (wallet : Pubkey) (script : RungScript) (ladder : List UInt64)
    (st : TitanState) : Subscribed :=
  subscribeFrom wallet script 0 ladder st

/-- A new session up to its subscriptions, on what earlier sessions left. -/
def openSession (wallet : Pubkey) (script : RungScript) (ladder : List UInt64)
    (earlier : TitanState) : Subscribed :=
  subscribeHuntStreams wallet script ladder (startSession earlier ladder)

/-! ## What subscribing leaves behind -/

/-- The sizes of the rungs the rate limiter skipped, from index `idx` on. -/
def skippedFrom (granted : Nat → Bool) (idx : Nat) (ladder : List UInt64) : List UInt64 :=
  ((ladder.zipIdx idx).filter fun rung => !granted rung.2).map Prod.fst

def skippedSizes (granted : Nat → Bool) (ladder : List UInt64) : List UInt64 :=
  skippedFrom granted 0 ladder

/-- The size of the granted rung that a request id belongs to. -/
def grantedSize (granted : Nat → Bool) (ladder : List UInt64) (requestId : Nat) :
    Option UInt64 :=
  if 2 ≤ requestId ∧ granted (requestId - 2) then ladder[requestId - 2]? else none

section
variable {wallet : Pubkey} {script : RungScript}

theorem subscribeFrom_ok_iff (idx : Nat) (ladder : List UInt64) (st : TitanState) :
    (subscribeFrom wallet script idx ladder st).result = .ok () ↔
      ∀ i < ladder.length, script.granted (idx + i) → script.send (idx + i) = none := by
  induction ladder generalizing idx st with
  | nil => simp [subscribeFrom]
  | cons amount rest ih =>
    have hsplit : (∀ i < (amount :: rest).length,
        script.granted (idx + i) → script.send (idx + i) = none) ↔
          (script.granted idx → script.send idx = none) ∧
            ∀ i < rest.length, script.granted (idx + 1 + i) →
              script.send (idx + 1 + i) = none := by
      simp only [List.length_cons, Nat.forall_lt_succ_left, Nat.add_zero, Nat.add_assoc,
        Nat.add_comm 1]
    rw [hsplit]
    unfold subscribeFrom
    by_cases hg : script.granted idx
    · simp only [hg, Bool.not_true, Bool.false_eq_true, ↓reduceIte, forall_const]
      cases script.send idx with
      | some e => simp
      | none => simpa using ih (idx + 1) _
    · simp only [hg, Bool.not_false, ↓reduceIte, Bool.false_eq_true, false_implies, true_and]
      exact ih (idx + 1) _

theorem subscribeFrom_frame (idx : Nat) (ladder : List UInt64) (st : TitanState) :
    (subscribeFrom wallet script idx ladder st).st.registry.streamToSize =
        st.registry.streamToSize ∧
      (subscribeFrom wallet script idx ladder st).st.board.pins = st.board.pins ∧
      (subscribeFrom wallet script idx ladder st).st.board.huntSizes = st.board.huntSizes := by
  induction ladder generalizing idx st with
  | nil => exact ⟨rfl, rfl, rfl⟩
  | cons amount rest ih =>
    unfold subscribeFrom
    by_cases hg : script.granted idx
    · simp only [hg, Bool.not_true, Bool.false_eq_true, ↓reduceIte]
      cases script.send idx with
      | some e => exact ⟨rfl, rfl, rfl⟩
      | none => exact ih ..
    · simp only [hg, Bool.not_false, ↓reduceIte]
      exact ih ..

/-- The first rung is registered if it is granted, and else marked. -/
def afterRung (script : RungScript) (idx : Nat) (amount : UInt64) (st : TitanState) :
    TitanState :=
  if script.granted idx then
    { st with registry := st.registry.registerPendingRequest (idx + 2) amount }
  else { st with board := st.board.markUnsubscribed amount }

/-- **One rung.** If all rungs are subscribed, those after the first are, from the
state that the first leaves. -/
theorem subscribeFrom_cons {idx : Nat} {amount : UInt64} {rest : List UInt64} {st : TitanState}
    (h : (subscribeFrom wallet script idx (amount :: rest) st).result = .ok ()) :
    (subscribeFrom wallet script (idx + 1) rest (afterRung script idx amount st)).result = .ok () ∧
      (subscribeFrom wallet script idx (amount :: rest) st).st =
        (subscribeFrom wallet script (idx + 1) rest (afterRung script idx amount st)).st := by
  rw [afterRung]
  rw [subscribeFrom] at h ⊢
  by_cases hg : script.granted idx
  · simp only [hg, Bool.not_true, Bool.false_eq_true, ↓reduceIte] at h ⊢
    cases hs : script.send idx with
    | some e => simp [hs] at h
    | none =>
      simp only [hs, and_true] at h ⊢
      exact h
  · simp only [hg, Bool.not_false, Bool.false_eq_true, ↓reduceIte, and_true] at h ⊢
    exact h

/-- The rungs after the first hold the ids after the first. -/
theorem later_rung {idx requestId : Nat} (h : requestId ≠ idx + 2) (amount : UInt64)
    (rest : List UInt64) (granted : Nat → Bool) (other : Option UInt64) :
    (if idx + 1 + 2 ≤ requestId ∧ requestId < idx + 1 + 2 + rest.length ∧ granted (requestId - 2)
      then rest[requestId - 2 - (idx + 1)]? else other) =
      if idx + 2 ≤ requestId ∧ requestId < idx + 2 + (amount :: rest).length ∧
          granted (requestId - 2)
        then (amount :: rest)[requestId - 2 - idx]? else other := by
  rw [List.length_cons]
  by_cases hr : idx + 2 < requestId ∧ requestId < idx + 2 + (rest.length + 1) ∧
      granted (requestId - 2)
  · rw [if_pos ⟨by omega, by omega, hr.2.2⟩, if_pos ⟨by omega, hr.2⟩,
      show requestId - 2 - idx = requestId - 2 - (idx + 1) + 1 by omega, List.getElem?_cons_succ]
  · rw [if_neg (fun hc => hr ⟨by omega, by omega, hc.2.2⟩),
      if_neg (fun hc => hr ⟨by omega, hc.2⟩)]

theorem subscribeFrom_requests {idx : Nat} {ladder : List UInt64} {st : TitanState}
    (h : (subscribeFrom wallet script idx ladder st).result = .ok ()) (requestId : Nat) :
    (subscribeFrom wallet script idx ladder st).st.registry.requestToSize[requestId]? =
      if idx + 2 ≤ requestId ∧ requestId < idx + 2 + ladder.length ∧
          script.granted (requestId - 2)
        then ladder[requestId - 2 - idx]?
        else st.registry.requestToSize[requestId]? := by
  induction ladder generalizing idx st with
  | nil =>
    rw [if_neg (by simp only [List.length_nil]; omega)]
    rfl
  | cons amount rest ih =>
    obtain ⟨hrest, hst⟩ := subscribeFrom_cons h
    rw [hst, ih hrest]
    by_cases hid : requestId = idx + 2
    · subst hid
      by_cases hg : script.granted idx <;>
        simp [afterRung, TitanStreamRegistry.registerPendingRequest, hg]
    · rw [later_rung hid amount]
      by_cases hg : script.granted idx <;>
        simp [afterRung, TitanStreamRegistry.registerPendingRequest, ExtTreeMap.getElem?_insert,
          Ne.symm hid, hg]

theorem subscribeFrom_unsubscribed {idx : Nat} {ladder : List UInt64} {st : TitanState}
    (h : (subscribeFrom wallet script idx ladder st).result = .ok ()) :
    (subscribeFrom wallet script idx ladder st).st.board.unsubscribed =
      insertAll st.board.unsubscribed
        ((skippedFrom script.granted idx ladder).map fun size => (size, ())) := by
  induction ladder generalizing idx st with
  | nil => rfl
  | cons amount rest ih =>
    obtain ⟨hrest, hst⟩ := subscribeFrom_cons h
    have hskipped : skippedFrom script.granted idx (amount :: rest) =
        if script.granted idx then skippedFrom script.granted (idx + 1) rest
        else amount :: skippedFrom script.granted (idx + 1) rest := by
      rw [skippedFrom, List.zipIdx_cons, List.filter_cons]
      cases script.granted idx <;> rfl
    rw [hst, ih hrest, hskipped, afterRung]
    by_cases hg : script.granted idx
    · simp only [hg, ↓reduceIte]
    · simp only [hg, Bool.false_eq_true, ↓reduceIte]
      rfl

/-- The registered requests are those of the granted rungs. -/
theorem open_registered {ladder : List UInt64} {earlier : TitanState}
    (h : (openSession wallet script ladder earlier).result = .ok ()) (requestId : Nat) :
    (openSession wallet script ladder earlier).st.registry.sizeForPendingRequest requestId =
      grantedSize script.granted ladder requestId := by
  refine (subscribeFrom_requests h requestId).trans ?_
  unfold grantedSize
  by_cases hr : 2 ≤ requestId ∧ script.granted (requestId - 2)
  · rw [if_pos hr]
    by_cases hlen : requestId < 2 + ladder.length
    · rw [if_pos ⟨by omega, by omega, hr.2⟩, Nat.sub_zero]
    · rw [if_neg (fun hc => hlen (by omega)), List.getElem?_eq_none (by omega)]
      simp [startSession, TitanStreamRegistry.clear]
  · rw [if_neg hr, if_neg (fun hc => hr ⟨by omega, hc.2.2⟩)]
    simp [startSession, TitanStreamRegistry.clear]

theorem open_streams (ladder : List UInt64) (earlier : TitanState) :
    (openSession wallet script ladder earlier).st.registry.streamToSize = ∅ :=
  (subscribeFrom_frame 0 ladder _).1

/-- The board has no pin, and the sizes of the skipped rungs are marked. -/
theorem open_board {ladder : List UInt64} {earlier : TitanState}
    (h : (openSession wallet script ladder earlier).result = .ok ()) :
    (openSession wallet script ladder earlier).st.board =
      .ofHistory ladder (skippedSizes script.granted ladder) [] := by
  have hpins : (openSession wallet script ladder earlier).st.board.pins = ∅ :=
    (subscribeFrom_frame 0 ladder _).2.1
  have hladder : (openSession wallet script ladder earlier).st.board.huntSizes = ladder :=
    (subscribeFrom_frame 0 ladder _).2.2
  have hmarked : (openSession wallet script ladder earlier).st.board.unsubscribed =
      insertAll ∅ ((skippedSizes script.granted ladder).map fun size => (size, ())) :=
    subscribeFrom_unsubscribed h
  cases hb : (openSession wallet script ladder earlier).st.board with
  | mk pins huntSizes unsubscribed =>
    rw [hb] at hpins hladder hmarked
    simp only at hpins hladder hmarked
    subst hpins hladder hmarked
    rfl

end

theorem mem_skippedSizes {granted : Nat → Bool} {ladder : List UInt64} {size : UInt64} :
    size ∈ skippedSizes granted ladder ↔ ∃ idx, ladder[idx]? = some size ∧ granted idx = false := by
  unfold skippedSizes skippedFrom
  simp only [List.mem_map, List.mem_filter, Bool.not_eq_true', Prod.exists,
    List.mem_zipIdx_iff_getElem?]
  constructor
  · rintro ⟨_, idx, ⟨hl, hg⟩, rfl⟩
    exact ⟨idx, hl, hg⟩
  · rintro ⟨idx, hl, hg⟩
    exact ⟨size, idx, ⟨hl, hg⟩, rfl⟩

/-! ## The board of a session -/

/-- Publish a quote at the times of a frame. -/
def publishStep (env : TitanEnv) (board : TitanSizeBoard)
    (published : ParsedHop1Quote × FrameClock) :
    TitanSizeBoard × List (RedisCall TitanDocument) :=
  publishHop1Quote env board published.1 published.2

def publishedRows (published : List (ParsedHop1Quote × FrameClock)) : List TitanHop1Row :=
  published.map fun p => rowOf p.1 p.2.rowMs

theorem publish_board (env : TitanEnv) (ladder marked : List UInt64)
    (published : List (ParsedHop1Quote × FrameClock)) :
    (runs (publishStep env) (.ofHistory ladder marked []) published).1 =
      .ofHistory ladder marked (publishedRows published) := by
  refine runs_history (R := fun published _ board =>
    board = TitanSizeBoard.ofHistory ladder marked (publishedRows published)) rfl ?_ published
  rintro published _ _ p rfl
  unfold publishedRows
  rw [List.map_append, List.map_singleton, TitanSizeBoard.ofHistory_concat]
  rfl

/-- Frames act on the board by the quotes they publish. -/
theorem frames_publish (env : TitanEnv) (st : TitanState) (frames : List TitanFrame) :
    ∃ published, (runs (handleTitanServerMessage env) st frames).1.board =
      (runs (publishStep env) st.board published).1 := by
  refine runs_history (R := fun _ _ (st' : TitanState) =>
    ∃ published, st'.board = (runs (publishStep env) st.board published).1) ⟨[], rfl⟩ ?_ frames
  rintro _ _ st' frame ⟨published, hp⟩
  have ha := handle_answered env st' frame
  generalize (handleTitanServerMessage env st' frame).1 = next at ha ⊢
  generalize (handleTitanServerMessage env st' frame).2 = out at ha
  cases ha with
  | failed => exact ⟨published, hp⟩
  | fellThrough => exact ⟨published, hp⟩
  | responded => exact ⟨published, hp⟩
  | published _ quote =>
    refine ⟨published ++ [(quote, frame.clock)], ?_⟩
    rw [runs_concat, ← hp]
    rfl

/-- The rate limiter grants the first rung only. -/
def sampleScript : RungScript := ⟨fun idx => idx == 0, fun _ => none⟩

def sampleWallet : Pubkey := ⟨List.replicate 32 1, rfl⟩

def sampleQuote : ParsedHop1Quote where
  pair := "SOL-USDC"
  base := "SOL"
  mid := "USDC"
  sizeLamports := 9
  provider := "provider"
  routeInAmount := 9
  routeOutAmount := 4
  slippageBps := 50
  quoteId := none
  streamId := 42
  streamSeq := 0
  hop1 := ⟨"venue", "", "", "", 9, 4, none⟩

/-- The request id and stream named by a frame that is handled as a response. -/
def responseOf (env : TitanEnv) (frame : TitanFrame) : Option (Nat × UInt32) :=
  (env.decode frame.data).bind fun value =>
    if mapContainsKey value "StreamData" then none else responseStream value

/-- A response names the stream together with the request of a granted rung of this size. -/
def Attributes (env : TitanEnv) (granted : Nat → Bool) (ladder : List UInt64)
    (frame : TitanFrame) (stream : UInt32) (size : UInt64) : Prop :=
  ∃ idx, responseOf env frame = some (idx + 2, stream) ∧ granted idx = true ∧
    ladder[idx]? = some size

/-- The stream and size that a frame writes to the registry. -/
def attribution (env : TitanEnv) (granted : Nat → Bool) (ladder : List UInt64)
    (frame : TitanFrame) : Option (UInt32 × UInt64) :=
  (responseOf env frame).bind fun r => (grantedSize granted ladder r.1).map (r.2, ·)

theorem attribution_eq_some {env : TitanEnv} {granted : Nat → Bool} {ladder : List UInt64}
    {frame : TitanFrame} {stream : UInt32} {size : UInt64} :
    attribution env granted ladder frame = some (stream, size) ↔
      Attributes env granted ladder frame stream size := by
  unfold attribution Attributes grantedSize
  simp only [Option.bind_eq_some_iff, Option.map_eq_some_iff, Prod.mk.injEq]
  constructor
  · rintro ⟨⟨requestId, stream⟩, hr, _, hsize, rfl, rfl⟩
    simp only at hsize
    split at hsize
    · rename_i hg
      refine ⟨requestId - 2, ?_, hg.2, hsize⟩
      rw [hr, Nat.sub_add_cancel hg.1]
    · cases hsize
  · rintro ⟨idx, hr, hg, hsize⟩
    exact ⟨_, hr, size, by simp [hg, hsize], rfl, rfl⟩

/-- A frame changes the registry by confirming the response it carries, if any. -/
theorem handle_registry (env : TitanEnv) (st : TitanState) (frame : TitanFrame) :
    (handleTitanServerMessage env st frame).1.registry =
      match responseOf env frame with
      | some r => st.registry.confirmStream r.1 r.2
      | none => st.registry := by
  unfold handleTitanServerMessage responseOf
  cases env.decode frame.data with
  | none => rfl
  | some value =>
    simp only [Option.bind_some]
    by_cases hs : mapContainsKey value "StreamData"
    · simp only [hs, ↓reduceIte]
      split <;> rfl
    · by_cases hr : mapContainsKey value "Response"
      · simp only [hs, hr, ↓reduceIte, Bool.false_eq_true]
        unfold registerStreamFromResponse
        split <;> simp_all
      · have hn : responseStream value = none := by
          rw [responseStream, not_mapContainsKey (by simpa using hr)]
          rfl
        simp only [hs, hr, hn, ↓reduceIte, Bool.false_eq_true]
        split <;> rfl

section
variable {env : TitanEnv} {granted : Nat → Bool} {ladder : List UInt64} {st : TitanState}

theorem confirm_attributed {reg : TitanStreamRegistry}
    (hr : ∀ requestId, reg.sizeForPendingRequest requestId = grantedSize granted ladder requestId)
    (requestId : Nat) (stream s : UInt32) :
    (reg.confirmStream requestId stream).requestToSize = reg.requestToSize ∧
      (reg.confirmStream requestId stream).sizeForStream s =
        if stream = s ∧ (grantedSize granted ladder requestId).isSome
          then grantedSize granted ladder requestId else reg.sizeForStream s := by
  rw [TitanStreamRegistry.confirmStream, ← hr requestId]
  unfold TitanStreamRegistry.sizeForPendingRequest
  cases reg.requestToSize[requestId]? with
  | none => simp
  | some size =>
    refine ⟨rfl, ?_⟩
    simp [TitanStreamRegistry.sizeForStream, ExtTreeMap.getElem?_insert]

/-- **Streams.** A stream has the size that the last attributing frame wrote. -/
theorem frames_streams
    (hr : ∀ requestId,
      st.registry.sizeForPendingRequest requestId = grantedSize granted ladder requestId)
    (h0 : st.registry.streamToSize = ∅) (frames : List TitanFrame) (stream : UInt32) :
    (runs (handleTitanServerMessage env) st frames).1.registry.sizeForStream stream =
      lastWrite (frames.filterMap (attribution env granted ladder)) stream := by
  refine (runs_history (R := fun frames _ (st' : TitanState) =>
    st'.registry.requestToSize = st.registry.requestToSize ∧
      st'.registry.sizeForStream stream =
        lastWrite (frames.filterMap (attribution env granted ladder)) stream)
    ⟨rfl, ?_⟩ ?_ frames).2
  · simp [TitanStreamRegistry.sizeForStream, h0, lastWrite]
  · rintro frames _ st' frame ⟨hreq, hstream⟩
    have hr' : ∀ requestId, st'.registry.sizeForPendingRequest requestId =
        grantedSize granted ladder requestId := by
      intro requestId
      rw [← hr requestId]
      unfold TitanStreamRegistry.sizeForPendingRequest
      rw [hreq]
    rw [handle_registry, List.filterMap_append, List.filterMap_cons, List.filterMap_nil,
      show attribution env granted ladder frame = (responseOf env frame).bind fun r =>
        (grantedSize granted ladder r.1).map (r.2, ·) from rfl]
    cases responseOf env frame with
    | none => simpa using ⟨hreq, hstream⟩
    | some r =>
      obtain ⟨hkeep, hconfirm⟩ := confirm_attributed hr' r.1 r.2 stream
      refine ⟨hkeep.trans hreq, hconfirm.trans ?_⟩
      cases hg : grantedSize granted ladder r.1 with
      | none => simpa [hg] using hstream
      | some size => simp [hg, lastWrite_concat, hstream]

end

/-- The rungs marked unsubscribed are those that were skipped. -/
theorem marked_iff {wallet : Pubkey} {script : RungScript} {ladder : List UInt64}
    {earlier : TitanState} (h : (openSession wallet script ladder earlier).result = .ok ())
    (hnodup : ladder.Nodup) {idx : Nat} {size : UInt64} (hsize : ladder[idx]? = some size) :
    (openSession wallet script ladder earlier).st.board.unsubscribed.contains size ↔
      script.granted idx = false := by
  rw [open_board h, TitanSizeBoard.ofHistory_unsubscribed _ _ _ (by simp), mem_skippedSizes]
  constructor
  · rintro ⟨idx', hs, hg⟩
    have hlt := (List.getElem?_eq_some_iff.mp hsize).1
    rwa [(List.getElem?_inj hlt hnodup).mp (hsize.trans hs.symm)]
  · intro hg
    exact ⟨idx, hsize, hg⟩

/-- **Attribution.** On a parsed ladder, whatever earlier sessions left and
whatever is received, a stream has the size of the last response of this
session that names it with the request of a granted rung. Other responses
change no stream, and after subscribing each rung is either registered or
marked unsubscribed. -/
theorem streams_attributed (env : TitanEnv) (wallet : Pubkey) (script : RungScript)
    (raw : Option String) (earlier : TitanState)
    (h : (openSession wallet script (parseHuntSizes raw) earlier).result = .ok ()) :
    let ladder := parseHuntSizes raw
    let opened := (openSession wallet script ladder earlier).st
    let registryAfter (frames : List TitanFrame) :=
      (runs (handleTitanServerMessage env) opened frames).1.registry
    (∀ (frames : List TitanFrame) (stream : UInt32) (size : UInt64),
      (registryAfter frames).sizeForStream stream = some size ↔
        ∃ pre frame post, frames = pre ++ frame :: post ∧
          Attributes env script.granted ladder frame stream size ∧
          ∀ later ∈ post, ∀ other, ¬ Attributes env script.granted ladder later stream other) ∧
      (∀ (frames : List TitanFrame) (frame : TitanFrame) (requestId : Nat) (named : UInt32),
        responseOf env frame = some (requestId, named) →
        (∀ idx < ladder.length, script.granted idx → requestId ≠ idx + 2) →
        ∀ stream, (registryAfter (frames ++ [frame])).sizeForStream stream =
          (registryAfter frames).sizeForStream stream) ∧
      ∀ (idx : Nat) (size : UInt64), ladder[idx]? = some size →
        (opened.registry.sizeForPendingRequest (idx + 2) = some size ∧
            opened.board.unsubscribed.contains size = false) ∨
          (opened.registry.sizeForPendingRequest (idx + 2) = none ∧
            opened.board.unsubscribed.contains size = true) := by
  intro ladder opened registryAfter
  have hreg := open_registered h
  have hstreams (frames : List TitanFrame) (stream : UInt32) :
      (registryAfter frames).sizeForStream stream =
        lastWrite (frames.filterMap (attribution env script.granted ladder)) stream :=
    frames_streams hreg (open_streams ladder earlier) frames stream
  refine ⟨?_, ?_, ?_⟩
  · intro frames stream size
    rw [hstreams, lastWrite_filterMap]
    simp only [attribution_eq_some, ne_eq]
  · intro frames frame requestId named hr hother stream
    have hnone : attribution env script.granted ladder frame = none := by
      rw [Option.eq_none_iff_forall_ne_some]
      rintro ⟨s, size⟩ hs
      obtain ⟨idx, hidx, hg, hsize⟩ := attribution_eq_some.mp hs
      rw [hr] at hidx
      exact hother idx (List.getElem?_eq_some_iff.mp hsize).1 hg (by simp_all)
    rw [hstreams, hstreams, List.filterMap_append, List.filterMap_cons, hnone]
    simp
  · intro idx size hsize
    have hnodup : ladder.Nodup :=
      (parseHuntSizes_sorted raw).imp fun {_ _} hlt => UInt64.ne_of_lt hlt
    have hmarked : opened.board.unsubscribed.contains size ↔ script.granted idx = false :=
      marked_iff h hnodup hsize
    rw [show opened.registry.sizeForPendingRequest (idx + 2) = _ from hreg (idx + 2)]
    cases hg : script.granted idx with
    | true =>
      rw [hg] at hmarked
      exact .inl ⟨by simpa [grantedSize, hg] using hsize,
        by rw [Bool.eq_false_iff, ne_eq, hmarked]; simp⟩
    | false =>
      rw [hg] at hmarked
      exact .inr ⟨by simp [grantedSize, hg], hmarked.mpr rfl⟩

def responseMessage (requestId stream : UInt64) : Value :=
  let start : Value := .map [(textKey "id", number stream)]
  .map [(textKey "Response", .map [(textKey "requestId", number requestId),
    (textKey "data", .map [(textKey "StreamStart", start)])])]

def respondingEnv : TitanEnv :=
  { sampleEnv with
    decode := decodeAmong [responseMessage 1 9, responseMessage 2 9, responseMessage 3 9] }

/-- The response of the first rung decides, not those of `GetInfo` and of a skipped rung. -/
theorem stream_attributed_sample :
    (runs (handleTitanServerMessage respondingEnv)
        (openSession sampleWallet sampleScript (parseHuntSizes none) {}).st
        [frameOf (responseMessage 1 9), frameOf (responseMessage 2 9),
          frameOf (responseMessage 3 9)]).1.registry.sizeForStream 9 = some 250000000 := by
  have hok : (openSession sampleWallet sampleScript (parseHuntSizes none) {}).result = .ok () :=
    (subscribeFrom_ok_iff ..).mpr fun _ _ _ => rfl
  have hfirst : responseOf respondingEnv (frameOf (responseMessage 2 9)) = some (2, 9) := by
    decide +kernel
  have hlast : responseOf respondingEnv (frameOf (responseMessage 3 9)) = some (3, 9) := by
    decide +kernel
  refine ((streams_attributed respondingEnv sampleWallet sampleScript none {} hok).1 _ 9
    250000000).mpr ⟨[frameOf (responseMessage 1 9)], frameOf (responseMessage 2 9),
      [frameOf (responseMessage 3 9)], rfl, ⟨0, hfirst, rfl, rfl⟩, ?_⟩
  rintro later hl other ⟨idx, hr, hg, _⟩
  rw [List.mem_singleton.mp hl, hlast] at hr
  obtain rfl : idx = 1 := by simpa using hr.symm
  cases hg

end FeedMux.Upstream
