import FeedMux.RateLimit
import FeedMux.Upstream.Liveness

/-!
# Requests on the wire (`src/upstream/titan.rs`, `src/upstream/triton.rs`)

An upstream has one limiter, which outlives its sessions and which the stub
poll asks too. Whatever the sessions do, no window has permits for more requests
than the limiter allows; a request may go out some time after its permit, which
brings at most one more into the window (`requests_bounded`,
`subscriptions_bounded`). A rung is skipped only when the limiter has just granted
a burst (`skipped_when_busy`).
-/

namespace FeedMux.Upstream
open FeedMux.Library

/-- A question to the limiter: what it is asked for, its answer, and whether the
request then went out. -/
structure Ask (ρ : Type) where
  request : ρ
  granted : Bool
  sent : Bool
  granted_of_sent : sent = true → granted = true

variable {δ ρ μ : Type}

namespace Ask

/-- A granted request goes out unless sending it fails. -/
def ofSend {ε : Type} (request : ρ) (granted : Bool) (send : Option ε) : Ask ρ where
  request := request
  granted := granted
  sent := granted && send.isNone
  granted_of_sent h := (Bool.and_eq_true_iff.mp h).1

def fails (ask : Ask ρ) : Bool := ask.granted && !ask.sent

def sentRequest (ask : Ask ρ) : Option ρ := if ask.sent then some ask.request else none

end Ask

/-- A call of `try_acquire`, by a session or by the stub poll. -/
inductive LimiterCall (ρ : Type) where
  | poll (time : Nat) (granted : Bool)
  | ask (time : Nat) (ask : Ask ρ)

namespace LimiterCall

def time : LimiterCall ρ → Nat
  | .poll time _ => time
  | .ask time _ => time

def granted : LimiterCall ρ → Bool
  | .poll _ ok => ok
  | .ask _ a => a.granted

def ask? : LimiterCall ρ → Option (Ask ρ)
  | .poll .. => none
  | .ask _ a => some a

/-- The request that went out after this call. -/
def sentRequest (call : LimiterCall ρ) : Option ρ := call.ask?.bind Ask.sentRequest

theorem granted_of_sent {call : LimiterCall ρ} (h : call.sentRequest.isSome) :
    call.granted = true := by
  cases call with
  | poll time ok => cases h
  | ask time a =>
    by_cases hs : a.sent = true
    · exact a.granted_of_sent hs
    · simp [sentRequest, ask?, Ask.sentRequest, hs] at h

end LimiterCall

/-- The calls of a limiter in the order of their times, with its own answers; the
sessions ask for what they need. -/
structure Limited {governor : Governor} (limiter : UpstreamRateLimiter governor)
    (asks : List (Ask ρ)) (calls : List (LimiterCall ρ)) : Prop where
  sorted : (calls.map LimiterCall.time).Pairwise (· ≤ ·)
  asked : calls.filterMap LimiterCall.ask? = asks
  answered : calls.map LimiterCall.granted =
    (runs UpstreamRateLimiter.tryAcquire limiter (calls.map LimiterCall.time)).2

/-- What has been called so far is limited too. -/
theorem Limited.before {governor : Governor} {limiter : UpstreamRateLimiter governor}
    {asks : List (Ask ρ)} {before after : List (LimiterCall ρ)}
    (h : Limited limiter asks (before ++ after)) :
    Limited limiter (before.filterMap LimiterCall.ask?) before where
  sorted := by
    have hs := h.sorted
    rw [List.map_append] at hs
    exact (List.pairwise_append.mp hs).1
  asked := rfl
  answered := by
    have ha := h.answered
    rw [List.map_append, List.map_append, runs_append] at ha
    exact (List.append_inj ha (by simp)).1

/-- The requests that go out, by the times at which they were permitted. -/
def sentIn (calls : List (LimiterCall ρ)) (window : Set Nat) [DecidablePred (· ∈ window)] : Nat :=
  calls.countP fun call => call.sentRequest.isSome && decide (call.time ∈ window)

/-- The calls that are granted in a window. -/
def grantedIn (calls : List (LimiterCall ρ)) (window : Set Nat)
    [DecidablePred (· ∈ window)] : Nat :=
  calls.countP fun call => call.granted && decide (call.time ∈ window)

/-- The polls that are granted in a window. -/
def polledIn (calls : List (LimiterCall ρ)) (window : Set Nat)
    [DecidablePred (· ∈ window)] : Nat :=
  calls.countP fun call => call.ask?.isNone && call.granted && decide (call.time ∈ window)

/-- The calls with the times at which their requests are handed to the connection:
each some time after it was granted, and before the next one sent is asked for. -/
structure InTurn (dated : List (LimiterCall ρ × Nat)) : Prop where
  after : ∀ e ∈ dated, e.1.sentRequest.isSome = true → e.1.time ≤ e.2
  turn : dated.Pairwise fun e later =>
    e.1.sentRequest.isSome = true → later.1.sentRequest.isSome = true → e.2 ≤ later.1.time

/-- The requests that go out, by the times at which they are handed over. -/
def outIn (dated : List (LimiterCall ρ × Nat)) (window : Set Nat)
    [DecidablePred (· ∈ window)] : Nat :=
  dated.countP fun e => e.1.sentRequest.isSome && decide (e.2 ∈ window)

/-- Polls and requests spend different grants. -/
theorem sentIn_le (calls : List (LimiterCall ρ)) (window : Set Nat)
    [DecidablePred (· ∈ window)] :
    sentIn calls window + polledIn calls window ≤ grantedIn calls window := by
  unfold sentIn polledIn grantedIn
  induction calls with
  | nil => simp
  | cons call calls ih =>
    simp only [List.countP_cons]
    have hone : (if (call.sentRequest.isSome && decide (call.time ∈ window)) = true then 1 else 0) +
        (if (call.ask?.isNone && call.granted && decide (call.time ∈ window)) = true then 1 else 0)
          ≤ if (call.granted && decide (call.time ∈ window)) = true then 1 else 0 := by
      cases call with
      | poll time ok => simp [LimiterCall.sentRequest, LimiterCall.ask?]
      | ask time a =>
        by_cases hs : (LimiterCall.ask time a).sentRequest.isSome = true
        · simp [hs, LimiterCall.granted_of_sent hs, LimiterCall.ask?]
        · simp [hs, LimiterCall.ask?]
    omega

/-- A limit of no requests is a limit of one. -/
def effectiveRps (rps : UInt32) : Nat := max rps.toNat 1

theorem answers_eq_bucket {governor : Governor} (hg : governor.IsBucket) (label : String)
    (rps : UInt32) {times : List Nat} (hs : times.Pairwise (· ≤ ·)) :
    (UpstreamRateLimiter.new governor label rps).answers times =
      (Bucket.full (effectiveRps rps) UpstreamRateLimiter.second).log times := by
  by_cases hr : 1 ≤ rps
  · have hpos : 1 ≤ rps.toNat := UInt32.le_iff_toNat_le.mp hr
    rw [UpstreamRateLimiter.answers_eq_log hg label hr hs, effectiveRps, max_eq_left hpos]
  · obtain rfl : rps = 0 := by
      rw [UInt32.not_le, UInt32.lt_iff_toNat_lt] at hr
      exact UInt32.toNat_inj.mp (Nat.lt_one_iff.mp hr)
    have hone : (1 : UInt32) ≤ 1 := by decide
    exact UpstreamRateLimiter.answers_eq_log hg label hone hs

section
variable {governor : Governor} (hg : governor.IsBucket) {label : String} {rps : UInt32}
  {asks : List (Ask ρ)} {calls : List (LimiterCall ρ)}
  (h : Limited (.new governor label rps) asks calls)
include hg h

/-- The calls are the bucket's log. -/
theorem Limited.log_eq : calls.map (fun call => (call.time, call.granted)) =
    (Bucket.full (effectiveRps rps) UpstreamRateLimiter.second).log
      (calls.map LimiterCall.time) := by
  rw [← answers_eq_bucket hg label rps h.sorted, UpstreamRateLimiter.answers, ← h.answered,
    List.zip_map']

theorem Limited.grantedIn_eq (window : Set Nat) [DecidablePred (· ∈ window)] :
    grantedIn calls window =
      grantsIn ((Bucket.full (effectiveRps rps) UpstreamRateLimiter.second).log
        (calls.map LimiterCall.time)) window := by
  rw [← h.log_eq hg, grantsIn, List.countP_map]
  rfl

/-- **At most.** A window sees no more than the burst and what it refills. -/
theorem Limited.sentIn_le (start stop : Nat) :
    sentIn calls (Set.Icc start stop) + polledIn calls (Set.Icc start stop) ≤
      effectiveRps rps + (stop - start) / UpstreamRateLimiter.second := by
  have hsec : 0 < UpstreamRateLimiter.second := by decide
  have hwindow := Bucket.grants_window (b := .full (effectiveRps rps) UpstreamRateLimiter.second)
    h.sorted (fun t _ => Nat.zero_le t) start stop
  refine (Upstream.sentIn_le calls _).trans ?_
  rw [h.grantedIn_eq hg, ← Nat.mul_add_div hsec, Nat.le_div_iff_mul_le hsec,
    Nat.mul_comm UpstreamRateLimiter.second]
  exact hwindow

/-- The same for the times at which the requests go out: the first of them may
have been granted before the window. -/
theorem Limited.outIn_le {dated : List (LimiterCall ρ × Nat)} (hd : dated.map Prod.fst = calls)
    (hturn : InTurn dated) (start stop : Nat) :
    outIn dated (Set.Icc start stop) + polledIn calls (Set.Icc start stop) ≤
      effectiveRps rps + (stop - start) / UpstreamRateLimiter.second + 1 := by
  have hpermits := h.sentIn_le hg start stop
  have hlate := countP_ends_le hturn.after hturn.turn start stop
  have hsent : dated.countP (fun e => e.1.sentRequest.isSome &&
      decide (e.1.time ∈ Set.Icc start stop)) = sentIn calls (Set.Icc start stop) := by
    rw [sentIn, ← hd, List.countP_map]
    rfl
  rw [hsent] at hlate
  unfold outIn
  omega

/-- **Refusals.** A call is refused only if as many calls as the burst were
granted within that many seconds. -/
theorem Limited.refused_busy {call : LimiterCall ρ} (hm : call ∈ calls)
    (hr : call.granted = false) :
    effectiveRps rps ≤ grantedIn calls
      (Set.Icc (call.time - effectiveRps rps * UpstreamRateLimiter.second) call.time) := by
  have hlog : (call.time, false) ∈
      (Bucket.full (effectiveRps rps) UpstreamRateLimiter.second).log
        (calls.map LimiterCall.time) := by
    rw [← h.log_eq hg, ← hr]
    exact List.mem_map_of_mem hm
  rw [h.grantedIn_eq hg]
  exact Bucket.full_refused_busy h.sorted hlog

end

def Effect.request? : Effect δ ρ μ → Option ρ
  | .request r => some r
  | .connected _ | .redis _ | .publish _ | .relayStatus _ | .relayMessage _ | .authBlocked
  | .wait _ => none

/-- The requests among the effects. -/
def requestsOf (effects : List (Effect δ ρ μ)) : List ρ := effects.filterMap Effect.request?

@[simp] theorem requestsOf_nil : requestsOf ([] : List (Effect δ ρ μ)) = [] := rfl

@[simp] theorem requestsOf_append (effects more : List (Effect δ ρ μ)) :
    requestsOf (effects ++ more) = requestsOf effects ++ requestsOf more :=
  List.filterMap_append

@[simp] theorem requestsOf_request (r : ρ) (effects : List (Effect δ ρ μ)) :
    requestsOf (.request r :: effects) = r :: requestsOf effects := rfl

@[simp] theorem requestsOf_requests (requests : List ρ) :
    requestsOf (requests.map (Effect.request : ρ → Effect δ ρ μ)) = requests := by
  rw [requestsOf, List.filterMap_map]
  exact List.filterMap_some

/-- The requests that were granted and went out. -/
def sentRequests (asks : List (Ask ρ)) : List ρ := asks.filterMap Ask.sentRequest

@[simp] theorem sentRequests_nil : sentRequests ([] : List (Ask ρ)) = [] := rfl

@[simp] theorem sentRequests_append (asks more : List (Ask ρ)) :
    sentRequests (asks ++ more) = sentRequests asks ++ sentRequests more :=
  List.filterMap_append

@[simp] theorem sentRequests_cons (ask : Ask ρ) (asks : List (Ask ρ)) :
    sentRequests (ask :: asks) =
      if ask.sent then ask.request :: sentRequests asks else sentRequests asks := by
  unfold sentRequests
  rw [List.filterMap_cons, Ask.sentRequest]
  cases ask.sent <;> rfl

/-- What was asked for and sent, in order. -/
theorem Limited.requests {governor : Governor} {limiter : UpstreamRateLimiter governor}
    {asks : List (Ask ρ)} {calls : List (LimiterCall ρ)} (h : Limited limiter asks calls) :
    calls.filterMap LimiterCall.sentRequest = sentRequests asks := by
  rw [← h.asked, sentRequests, List.filterMap_filterMap]
  rfl

/-- A granted request that cannot be sent ends the asking; else more is asked. -/
theorem sentRequests_ofSend {ε : Type} (request : ρ) (granted : Bool) (send : Option ε)
    (more : List (Ask ρ)) :
    sentRequests (Ask.ofSend request granted send ::
        if (Ask.ofSend request granted send).fails then [] else more) =
      if granted then (if send.isNone then request :: sentRequests more else [])
      else sentRequests more := by
  cases granted with
  | false => simp [Ask.ofSend, Ask.fails]
  | true => cases send <;> simp [Ask.ofSend, Ask.fails]

/-! ## Titan -/

namespace TitanLive
open FeedMux.Titan

/-- The questions of the loop over the rungs, which ends where a send fails. -/
def rungAsks (wallet : Pubkey) (script : RungScript) :
    Nat → List UInt64 → List (Ask ClientRequest)
  | _, [] => []
  | idx, amount :: rest =>
    let ask := Ask.ofSend ⟨idx + 2, .newSwapQuoteStream amount (some 50) wallet⟩
      (script.granted idx) (script.send idx)
    ask :: if ask.fails then [] else rungAsks wallet script (idx + 1) rest

/-- A session that connects asks for `GetInfo` and then for its rungs. -/
def sessionAsks (cfg : LoopConfig) (s : Session) : List (Ask ClientRequest) :=
  match s.request <|> s.connect with
  | some _ => []
  | none =>
    let ask := Ask.ofSend ⟨1, .getInfo⟩ s.getInfoGranted s.getInfoSend
    ask :: if ask.fails then [] else rungAsks cfg.wallet s.rungs 0 cfg.ladder

def loopAsks (cfg : LoopConfig) (sessions : List Session) : List (Ask ClientRequest) :=
  sessions.flatMap (sessionAsks cfg)

theorem subscribeFrom_asked (wallet : Pubkey) (script : RungScript) (idx : Nat)
    (ladder : List UInt64) (st : TitanState) :
    (subscribeFrom wallet script idx ladder st).requests =
      sentRequests (rungAsks wallet script idx ladder) := by
  induction ladder generalizing idx st with
  | nil => rfl
  | cons amount rest ih =>
    rw [subscribeFrom, rungAsks, sentRequests_ofSend]
    cases script.granted idx with
    | false => exact ih ..
    | true =>
      cases script.send idx with
      | some e => rfl
      | none => exact congrArg (_ :: ·) (ih ..)

theorem marks_requestless (cfg : LoopConfig) :
    requestsOf (markTitanConnected cfg) = [] ∧ requestsOf (markTitanDisconnected cfg) = [] := by
  unfold markTitanConnected markTitanDisconnected relayStatus
  split <;> exact ⟨rfl, rfl⟩

theorem readLoop_requestless (cfg : LoopConfig) (st : TitanState) (received : Bool)
    (reads : List Read) : requestsOf (readLoop cfg st received reads).effects = [] := by
  induction reads generalizing st received with
  | nil => rfl
  | cons read rest ih =>
    cases read with
    | binary frame =>
      have hrelayed : requestsOf (if cfg.relay then [.relayMessage frame.data] else [] :
          List TitanEffect) = [] := by
        split <;> rfl
      unfold readLoop
      simp only [requestsOf_append, hrelayed, ih]
      rfl
    | ping pong =>
      cases pong with
      | none => exact ih ..
      | some e =>
        unfold readLoop
        split
        · exact (marks_requestless cfg).2
        · rfl
    | close => rfl
    | other => exact ih ..
    | failure e =>
      unfold readLoop
      split
      · exact (marks_requestless cfg).2
      · rfl

theorem runSubscribed_asked (cfg : LoopConfig) (s : Session) (st : TitanState) :
    requestsOf (runSubscribed cfg s st).effects =
      sentRequests (rungAsks cfg.wallet s.rungs 0 cfg.ladder) := by
  have hsnapshot : ∀ calls, requestsOf ([.redis calls] : List TitanEffect) = [] := fun _ => rfl
  rw [← subscribeFrom_asked cfg.wallet s.rungs 0 cfg.ladder st]
  unfold runSubscribed subscribeHuntStreams
  simp only
  split
  · exact requestsOf_requests _
  · split <;>
      simp only [requestsOf_append, requestsOf_requests, hsnapshot, readLoop_requestless,
        marks_requestless, List.append_nil]

/-- A session sends the requests it asked for. -/
theorem runSession_asked (cfg : LoopConfig) (st : TitanState) (s : Session) :
    requestsOf (runSession cfg st s).effects = sentRequests (sessionAsks cfg s) := by
  unfold runSession sessionAsks
  cases s.request <|> s.connect with
  | some e => rfl
  | none =>
    simp only [sentRequests_ofSend]
    unfold sendGetInfo
    cases s.getInfoGranted with
    | false => simp [marks_requestless, runSubscribed_asked]
    | true =>
      cases s.getInfoSend with
      | some e => simp [marks_requestless]
      | none => simp [marks_requestless, runSubscribed_asked]

theorem loop_asked (cfg : LoopConfig) (sessions : List Session) :
    requestsOf (loopEffects cfg sessions) = sentRequests (loopAsks cfg sessions) := by
  induction sessions using List.reverseRecOn with
  | nil => rfl
  | append_singleton pre s ih =>
    have hwait : ∀ delay, requestsOf ([.wait delay] : List TitanEffect) = [] := fun _ => rfl
    rw [loopEffects_concat, requestsOf_append, ih, round_effects]
    simp [marks_requestless, runSession_asked, loopAsks, hwait]

/-- **Requests on the wire.** Over any number of sessions the limiter's grants
are all that is sent. No window has permits for more requests and polls than the
configured burst and what it refills; by the times at which the requests go out,
it sees at most one more. -/
theorem requests_bounded (governor : Governor) (hg : governor.IsBucket) (rps : UInt32)
    (cfg : LoopConfig) (sessions : List Session) (calls : List (LimiterCall ClientRequest))
    (h : Limited (.new governor "titan_ws" rps) (loopAsks cfg sessions) calls) :
    calls.filterMap LimiterCall.sentRequest = requestsOf (loopEffects cfg sessions) ∧
      (∀ start stop,
        sentIn calls (Set.Icc start stop) + polledIn calls (Set.Icc start stop) ≤
          effectiveRps rps + (stop - start) / UpstreamRateLimiter.second) ∧
      ∀ dated, dated.map Prod.fst = calls → InTurn dated → ∀ start stop,
        outIn dated (Set.Icc start stop) + polledIn calls (Set.Icc start stop) ≤
          effectiveRps rps + (stop - start) / UpstreamRateLimiter.second + 1 :=
  ⟨h.requests.trans (loop_asked cfg sessions).symm, h.sentIn_le hg, fun _ hd hturn =>
    h.outIn_le hg hd hturn⟩

/-- A poll, then a session whose second rung finds a limit of three spent. -/
def spentCalls : List (LimiterCall ClientRequest) :=
  .poll 0 true :: (loopAsks titanSample [titanSession .close]).map (.ask 0)

theorem spentCalls_limited :
    Limited (.new UpstreamRateLimiter.bucketGovernor "titan_ws" 3)
      (loopAsks titanSample [titanSession .close]) spentCalls :=
  ⟨by decide, rfl, by decide⟩

theorem requests_bounded_sample :
    sentIn spentCalls (Set.Icc 0 UpstreamRateLimiter.second) +
      polledIn spentCalls (Set.Icc 0 UpstreamRateLimiter.second) ≤ 4 :=
  (requests_bounded UpstreamRateLimiter.bucketGovernor UpstreamRateLimiter.bucketGovernor_isBucket
    3 titanSample [titanSession .close] spentCalls spentCalls_limited).2.1
      0 UpstreamRateLimiter.second

/-! ## Skipped rungs -/

/-- The session gets as far as this rung, for which the limiter has no cell. -/
def Skips (cfg : LoopConfig) (s : Session) (idx : Nat) (size : UInt64) : Prop :=
  Connects s ∧ (s.getInfoGranted → s.getInfoSend = none) ∧ cfg.ladder[idx]? = some size ∧
    (∀ j < idx, s.rungs.granted j → s.rungs.send j = none) ∧ s.rungs.granted idx = false

theorem ofSend_fails {ε : Type} {granted : Bool} {send : Option ε}
    (h : granted = true → send = none) (request : ρ) :
    (Ask.ofSend request granted send).fails = false := by
  cases granted with
  | false => rfl
  | true => simp [Ask.ofSend, Ask.fails, h rfl]

/-- A rung is asked for if no send fails before it. -/
theorem rungAsks_at (wallet : Pubkey) {script : RungScript} {ladder : List UInt64} {i : Nat}
    {size : UInt64} (idx : Nat)
    (hs : ∀ j < i, script.granted (idx + j) → script.send (idx + j) = none)
    (hi : ladder[i]? = some size) :
    (rungAsks wallet script idx ladder)[i]? =
      some (Ask.ofSend ⟨idx + i + 2, .newSwapQuoteStream size (some 50) wallet⟩
        (script.granted (idx + i)) (script.send (idx + i))) := by
  induction ladder generalizing idx i with
  | nil => cases hi
  | cons amount rest ih =>
    rw [rungAsks]
    cases i with
    | zero =>
      obtain rfl := Option.some.inj hi
      rfl
    | succ i =>
      have hrest := ih (idx + 1) (i := i) ?_ hi
      · rw [ofSend_fails (by simpa using hs 0 (Nat.succ_pos i)), List.getElem?_cons_succ]
        rwa [show idx + 1 + i = idx + (i + 1) by omega] at hrest
      · intro j hj
        rw [show idx + 1 + j = idx + (j + 1) by omega]
        exact hs (j + 1) (by omega)

/-- The question for a rung comes after `GetInfo` and the rungs before it. -/
theorem sessionAsks_at {cfg : LoopConfig} {s : Session} {idx : Nat} {size : UInt64}
    (h : Skips cfg s idx size) :
    (sessionAsks cfg s)[idx + 1]? =
      some (Ask.ofSend ⟨idx + 2, .newSwapQuoteStream size (some 50) cfg.wallet⟩ false
        (s.rungs.send idx)) := by
  obtain ⟨hconnect, hinfo, hi, hsends, hgranted⟩ := h
  have hrung := rungAsks_at cfg.wallet 0 (by simpa using hsends) hi
  rw [Nat.zero_add, hgranted] at hrung
  simp only [sessionAsks, hconnect.1, hconnect.2, ofSend_fails hinfo]
  exact hrung

/-- A question of one session, between those before it and those after it. -/
theorem loopAsks_at {cfg : LoopConfig} {s : Session} {i : Nat} {ask : Ask ClientRequest}
    (h : (sessionAsks cfg s)[i]? = some ask) (pre post : List Session) :
    ∃ rest, loopAsks cfg (pre ++ s :: post) =
      (loopAsks cfg pre ++ (sessionAsks cfg s).take i) ++ ask :: rest := by
  obtain ⟨hlt, rfl⟩ := List.getElem?_eq_some_iff.mp h
  refine ⟨(sessionAsks cfg s).drop (i + 1) ++ loopAsks cfg post, ?_⟩
  have hcut := List.take_append_drop i (sessionAsks cfg s)
  rw [List.drop_eq_getElem_cons hlt] at hcut
  unfold loopAsks
  rw [List.flatMap_append, List.flatMap_cons, List.append_assoc, ← List.cons_append,
    ← List.append_assoc (List.take i _), hcut]

/-- The limiter was busy just before it refused a call. -/
theorem refused_after {governor : Governor} (hg : governor.IsBucket) {label : String}
    {rps : UInt32} {asks : List (Ask ρ)} {before after : List (LimiterCall ρ)}
    {call : LimiterCall ρ}
    (h : Limited (.new governor label rps) asks (before ++ call :: after))
    (hr : call.granted = false) :
    effectiveRps rps ≤ grantedIn before
      (Set.Icc (call.time - effectiveRps rps * UpstreamRateLimiter.second) call.time) := by
  have hlimited : Limited (.new governor label rps) asks ((before ++ [call]) ++ after) := by
    rwa [List.append_assoc, List.singleton_append]
  have hbusy := hlimited.before.refused_busy hg (List.mem_append_right _ List.mem_cons_self) hr
  rwa [grantedIn, List.countP_append, List.countP_singleton, hr, Bool.false_and,
    if_neg Bool.false_ne_true, Nat.add_zero] at hbusy

theorem subscribeFrom_marked {wallet : Pubkey} {script : RungScript} {idx : Nat}
    {ladder : List UInt64} {st : TitanState} {size : UInt64}
    (h : (subscribeFrom wallet script idx ladder st).st.board.unsubscribed.contains size) :
    st.board.unsubscribed.contains size ∨ ∃ i, ladder[i]? = some size ∧
      (∀ j < i, script.granted (idx + j) → script.send (idx + j) = none) ∧
      script.granted (idx + i) = false := by
  induction ladder generalizing idx st with
  | nil => exact .inl h
  | cons amount rest ih =>
    -- What holds of a later rung holds if the first is refused or sent.
    have hlater : (script.granted idx → script.send idx = none) →
        (∃ i, rest[i]? = some size ∧
          (∀ j < i, script.granted (idx + 1 + j) → script.send (idx + 1 + j) = none) ∧
          script.granted (idx + 1 + i) = false) →
        ∃ i, (amount :: rest)[i]? = some size ∧
          (∀ j < i, script.granted (idx + j) → script.send (idx + j) = none) ∧
          script.granted (idx + i) = false := by
      rintro hfirst ⟨i, hi, hsends, hrefused⟩
      refine ⟨i + 1, hi, ?_, by rwa [Nat.add_assoc, Nat.add_comm 1] at hrefused⟩
      intro j hj
      cases j with
      | zero => exact hfirst
      | succ j =>
        have hj := hsends j (by omega)
        rwa [Nat.add_assoc, Nat.add_comm 1] at hj
    unfold subscribeFrom at h
    by_cases hg : script.granted idx = true
    · simp only [hg, Bool.not_true, Bool.false_eq_true, ↓reduceIte] at h
      cases hs : script.send idx with
      | some e =>
        simp only [hs] at h
        exact .inl h
      | none =>
        simp only [hs] at h
        exact (ih h).imp_right (hlater fun _ => hs)
    · simp only [hg, Bool.not_false, ↓reduceIte] at h
      rcases ih h with hmarked | hrest
      · by_cases he : amount = size
        · exact .inr ⟨0, congrArg some he, by simp, by simpa using hg⟩
        · refine .inl ?_
          simpa [TitanSizeBoard.markUnsubscribed, Std.ExtTreeMap.contains_insert, he] using hmarked
      · exact .inr (hlater (fun hc => absurd hc hg) hrest)

/-- Messages only take marks away. -/
theorem frame_marked {env : TitanEnv} {st : TitanState} {frame : TitanFrame} {size : UInt64}
    (h : (handleTitanServerMessage env st frame).1.board.unsubscribed.contains size) :
    st.board.unsubscribed.contains size := by
  have ha := handle_answered env st frame
  generalize (handleTitanServerMessage env st frame).1 = next at ha h
  generalize (handleTitanServerMessage env st frame).2 = out at ha
  cases ha with
  | failed => exact h
  | fellThrough => exact h
  | responded => exact h
  | published _ quote =>
    simp only [TitanSizeBoard.record, Std.ExtTreeMap.contains_erase, Bool.and_eq_true] at h
    exact h.2

theorem readLoop_marked {cfg : LoopConfig} {st : TitanState} {received : Bool}
    {reads : List Read} {size : UInt64}
    (h : (readLoop cfg st received reads).st.board.unsubscribed.contains size) :
    st.board.unsubscribed.contains size := by
  induction reads generalizing st received with
  | nil => exact h
  | cons read rest ih =>
    cases read with
    | binary frame => exact frame_marked (ih h)
    | ping pong =>
      cases pong with
      | none => exact ih h
      | some e =>
        unfold readLoop at h
        split at h <;> exact h
    | close => exact h
    | other => exact ih h
    | failure e =>
      unfold readLoop at h
      split at h <;> exact h

theorem subscribed_marked {cfg : LoopConfig} {s : Session} {st : TitanState} {size : UInt64}
    (h : (runSubscribed cfg s st).st.board.unsubscribed.contains size) :
    (subscribeFrom cfg.wallet s.rungs 0 cfg.ladder st).st.board.unsubscribed.contains size := by
  unfold runSubscribed subscribeHuntStreams at h
  simp only at h
  split at h
  · exact h
  · split at h <;> exact readLoop_marked h

/-- The board of a session that connects marks the rungs it skips. -/
theorem session_marked {cfg : LoopConfig} {st : TitanState} {s : Session} {size : UInt64}
    (hc : Connects s) (h : (runSession cfg st s).st.board.unsubscribed.contains size) :
    ∃ idx, Skips cfg s idx size := by
  have hcleared : (startSession st cfg.ladder).board.unsubscribed.contains size = false := by
    simp [startSession, TitanSizeBoard.clear, TitanSizeBoard.initHuntSizes]
  unfold runSession at h
  simp only [hc.1, hc.2, Option.orElse_eq_orElse, Option.orElse_none] at h
  have hinfo := sendGetInfo_ok_iff s
  cases hr : (sendGetInfo s).2 with
  | error e =>
    simp only [hr, hcleared, Bool.false_eq_true] at h
  | ok u =>
    simp only [hr] at h
    rcases subscribeFrom_marked (subscribed_marked h) with hm | ⟨idx, hi, hsends, hrefused⟩
    · rw [hcleared] at hm
      cases hm
    · simp only [Nat.zero_add] at hsends hrefused
      exact ⟨idx, hc, hinfo.mp hr, hi, hsends, hrefused⟩

theorem unconnected_board {s : Session} (hc : ¬ Connects s) (cfg : LoopConfig)
    (st : TitanState) : (runSession cfg st s).st = st := by
  unfold runSession
  cases hr : s.request <|> s.connect with
  | some e => rfl
  | none =>
    refine absurd ?_ hc
    cases hq : s.request with
    | some e => simp [hq] at hr
    | none => exact ⟨hq, by simpa [hq] using hr⟩

/-- **Skipped rungs.** A rung is skipped only when, of all calls before its own,
the limiter granted a whole burst in just as many seconds. The sizes that the board
marks are those of rungs that the last session to connect skipped. -/
theorem skipped_when_busy (governor : Governor) (hg : governor.IsBucket) (rps : UInt32)
    (cfg : LoopConfig) (sessions : List Session) (calls : List (LimiterCall ClientRequest))
    (h : Limited (.new governor "titan_ws" rps) (loopAsks cfg sessions) calls) :
    (∀ pre s post idx size, sessions = pre ++ s :: post → Skips cfg s idx size →
      ∃ before call after, calls = before ++ call :: after ∧
        before.filterMap LimiterCall.ask? =
          loopAsks cfg pre ++ (sessionAsks cfg s).take (idx + 1) ∧
        call.ask? = (sessionAsks cfg s)[idx + 1]? ∧
        call.ask?.map Ask.request =
          some ⟨idx + 2, .newSwapQuoteStream size (some 50) cfg.wallet⟩ ∧
        call.granted = false ∧
        effectiveRps rps ≤ grantedIn before
          (Set.Icc (call.time - effectiveRps rps * UpstreamRateLimiter.second) call.time)) ∧
      ∀ size, (runs (runLiveRound cfg) .start sessions).1.st.board.unsubscribed.contains size →
        ∃ pre s post idx, sessions = pre ++ s :: post ∧ (∀ later ∈ post, ¬ Connects later) ∧
          Skips cfg s idx size := by
  constructor
  · rintro pre s post idx size rfl hskips
    have hask := sessionAsks_at hskips
    obtain ⟨rest, hasks⟩ := loopAsks_at hask pre post
    obtain ⟨before, call, after, rfl, hbefore, hcall, -⟩ :=
      filterMap_split (h.asked.trans hasks)
    have hrefused : call.granted = false := by
      cases call with
      | poll time ok => cases hcall
      | ask time a =>
        obtain rfl := Option.some.inj hcall
        rfl
    refine ⟨before, call, after, rfl, hbefore, hcall.trans hask.symm, ?_, hrefused,
      refused_after hg h hrefused⟩
    rw [hcall]
    rfl
  · intro size hm
    clear h
    induction sessions using List.reverseRecOn with
    | nil => simp [LoopState.start] at hm
    | append_singleton sessions s ih =>
      rw [runs_concat] at hm
      by_cases hc : Connects s
      · obtain ⟨idx, hskips⟩ := session_marked hc hm
        exact ⟨sessions, s, [], idx, rfl, by simp, hskips⟩
      · have hkept : (runLiveRound cfg (runs (runLiveRound cfg) .start sessions).1 s).1.st =
            (runs (runLiveRound cfg) .start sessions).1.st := unconnected_board hc cfg _
        rw [hkept] at hm
        obtain ⟨pre, last, post, idx, rfl, hpost, hskips⟩ := ih hm
        refine ⟨pre, last, post ++ [s], idx, by simp, ?_, hskips⟩
        simp only [List.mem_append, List.mem_singleton]
        rintro later (hl | rfl)
        · exact hpost later hl
        · exact hc

theorem skipped_when_busy_sample :
    (∃ before call after, spentCalls = before ++ call :: after ∧ call.granted = false ∧
      effectiveRps 3 ≤ grantedIn before
        (Set.Icc (call.time - effectiveRps 3 * UpstreamRateLimiter.second) call.time)) ∧
      ∃ pre s post idx, [titanSession .close] = pre ++ s :: post ∧ Skips titanSample s idx 7 := by
  obtain ⟨hskipped, hmarked⟩ := skipped_when_busy UpstreamRateLimiter.bucketGovernor
    UpstreamRateLimiter.bucketGovernor_isBucket 3 titanSample [titanSession .close] spentCalls
    spentCalls_limited
  have hskips : Skips titanSample (titanSession .close) 1 7 :=
    ⟨⟨rfl, rfl⟩, fun _ => rfl, rfl, fun _ _ _ => rfl, rfl⟩
  obtain ⟨before, call, after, hc, -, -, -, hr, hbusy⟩ := hskipped [] _ [] 1 7 rfl hskips
  obtain ⟨pre, s, post, idx, hs, -, hs'⟩ := hmarked 7 (by decide +kernel)
  exact ⟨⟨before, call, after, hc, hr, hbusy⟩, pre, s, post, idx, hs, hs'⟩

end TitanLive

/-! ## Triton -/

namespace TritonLive

/-- The limiter is asked before anything else. -/
theorem granted_of_connected {cfg : LoopConfig} {s : Session}
    (h : connectClient cfg s = .ok ()) : s.granted = true := by
  cases hg : s.granted with
  | true => rfl
  | false =>
    rw [connectClient, hg] at h
    cases h

/-- The pings that are answered; each answer has an id of its own. -/
def pingAsks : Int32 → List Read → List (Ask SubscribeRequest)
  | _, [] => []
  | pingId, .update msg _ _ pingGranted pingSend :: rest =>
    if msg.updateOneof == some .ping then
      let ask := Ask.ofSend (.ping pingId) pingGranted pingSend
      ask :: if ask.fails then [] else pingAsks (if pingGranted then pingId + 1 else pingId) rest
    else pingAsks pingId rest
  | _, .failure _ :: _ => []

/-- A session asks before it connects, and again for every ping. Once connected it
sends the subscription, which the server may refuse. -/
def sessionAsks (cfg : LoopConfig) (s : Session) : List (Ask SubscribeRequest) :=
  if h : connectClient cfg s = .ok () then
    ⟨.slots, s.granted, true, fun _ => granted_of_connected h⟩ ::
      match openStream cfg s with
      | .ok () => pingAsks 1 s.reads
      | .error _ => []
  else [⟨.slots, s.granted, false, fun h => nomatch h⟩]

theorem marks_requestless (cfg : LoopConfig) :
    requestsOf (markTritonConnected cfg) = [] ∧
      requestsOf (markTritonDisconnected cfg) = [] := by
  unfold markTritonConnected markTritonDisconnected relayStatus
  split <;> exact ⟨rfl, rfl⟩

theorem readLoop_asked (cfg : LoopConfig) (pingId : Int32) (received : Bool)
    (reads : List Read) :
    requestsOf (readLoop cfg pingId received reads).effects =
      sentRequests (pingAsks pingId reads) := by
  induction reads generalizing pingId received with
  | nil => exact (marks_requestless cfg).2
  | cons read rest ih =>
    cases read with
    | failure e => rfl
    | update msg nowMs utc pingGranted pingSend =>
      have hhandled : requestsOf ((if cfg.relay then [Effect.relayMessage msg] else []) ++
          handleTritonUpdate cfg msg nowMs utc) = [] := by
        unfold handleTritonUpdate
        split <;> rfl
      unfold readLoop pingAsks
      by_cases hp : (msg.updateOneof == some .ping) = true
      · rw [if_pos hp, hp, sentRequests_ofSend, ← ih _ true]
        cases pingGranted with
        | false => simp only [Bool.and_false, Bool.false_eq_true, ↓reduceIte, requestsOf_append,
            hhandled, List.nil_append]
        | true =>
          cases pingSend with
          | some e => simpa using hhandled
          | none => simp only [Bool.and_self, ↓reduceIte, requestsOf_append, hhandled,
              requestsOf_request, Option.isNone_none]; rfl
      · rw [if_neg hp, ← ih _ true]
        simp only [hp, Bool.false_and, Bool.false_eq_true, ↓reduceIte, requestsOf_append,
          hhandled, List.nil_append]

theorem runSession_asked (cfg : LoopConfig) (s : Session) :
    requestsOf (runSession cfg s).effects = sentRequests (sessionAsks cfg s) := by
  unfold runSession sessionAsks
  by_cases hc : connectClient cfg s = .ok ()
  · have hsub : subscribed cfg s = [.request .slots] := by rw [subscribed, hc]
    rw [dif_pos hc, hsub]
    cases ho : openStream cfg s with
    | ok u => simp [marks_requestless, readLoop_asked]
    | error e => simp
  · have hsub : subscribed cfg s = [] := by
      unfold subscribed
      split
      · contradiction
      · rfl
    rw [dif_neg hc, hsub]
    cases ho : openStream cfg s with
    | ok u => exact absurd (connected_of_open ho) hc
    | error e => rfl

/-- The sessions that run, those before the loop halts, ask. -/
def loopAsks (cfg : LoopConfig) (sessions : List Session) : List (Ask SubscribeRequest) :=
  (collect (runLiveRound cfg) (fun loop s => loop.map fun _ => sessionAsks cfg s)
    (some liveBackoff) sessions).flatten

theorem loop_asked (cfg : LoopConfig) (sessions : List Session) :
    requestsOf (loopEffects cfg sessions) = sentRequests (loopAsks cfg sessions) := by
  induction sessions using List.reverseRecOn with
  | nil => rfl
  | append_singleton pre s ih =>
    rw [loopEffects_concat, requestsOf_append, ih, loopAsks, loopAsks, collect_concat,
      List.flatten_append, sentRequests_append]
    congr 1
    change _ = sentRequests ((loopAfter cfg pre).map fun _ => sessionAsks cfg s).toList.flatten
    cases loopAfter cfg pre with
    | none => rfl
    | some backoff =>
      obtain ⟨round, hround, heffects, -⟩ := runLiveRound_turn cfg backoff s
      have hend : requestsOf (endEffects round) = [] := by
        unfold endEffects
        split
        · rfl
        · split <;> rfl
        · rfl
      rw [hround, Option.toList_some, List.flatMap_singleton, heffects]
      simp [marks_requestless, runSession_asked, hend]

/-- **Subscriptions on the wire.** Subscribing and answering pings keep to the
limit too, whatever the sessions do and wherever the loop halts. A subscription is
sent once the client is connected, which may be long after its permit. -/
theorem subscriptions_bounded (governor : Governor) (hg : governor.IsBucket) (rps : UInt32)
    (cfg : LoopConfig) (sessions : List Session) (calls : List (LimiterCall SubscribeRequest))
    (h : Limited (.new governor "triton_grpc" rps) (loopAsks cfg sessions) calls) :
    calls.filterMap LimiterCall.sentRequest = requestsOf (loopEffects cfg sessions) ∧
      (∀ start stop,
        sentIn calls (Set.Icc start stop) + polledIn calls (Set.Icc start stop) ≤
          effectiveRps rps + (stop - start) / UpstreamRateLimiter.second) ∧
      ∀ dated, dated.map Prod.fst = calls → InTurn dated → ∀ start stop,
        outIn dated (Set.Icc start stop) + polledIn calls (Set.Icc start stop) ≤
          effectiveRps rps + (stop - start) / UpstreamRateLimiter.second + 1 :=
  ⟨h.requests.trans (loop_asked cfg sessions).symm, h.sentIn_le hg, fun _ hd hturn =>
    h.outIn_le hg hd hturn⟩

/-- A session that cannot connect, and one that needs four seconds to connect and
answers a ping at once. -/
def pingedSessions : List Session :=
  [tritonRefused, tritonSession
    [.update ⟨some .ping, []⟩ 2 "2025-01-01T00:00:01+00:00" true none]]

/-- The calls of these sessions, in hundredths of a second, with the times at which
their requests go out. -/
def pingedDates : List (LimiterCall SubscribeRequest × Nat) :=
  ((loopAsks sampleConfig pingedSessions).zip [(0, 0), (100, 500), (505, 505)]).map
    fun (ask, permit, out) => (.ask (permit * (UpstreamRateLimiter.second / 100)) ask,
      out * (UpstreamRateLimiter.second / 100))

theorem subscriptions_bounded_sample :
    outIn pingedDates (Set.Icc (5 * UpstreamRateLimiter.second) (6 * UpstreamRateLimiter.second)) +
      polledIn (pingedDates.map Prod.fst)
        (Set.Icc (5 * UpstreamRateLimiter.second) (6 * UpstreamRateLimiter.second)) ≤ 3 :=
  (subscriptions_bounded UpstreamRateLimiter.bucketGovernor
    UpstreamRateLimiter.bucketGovernor_isBucket 1 sampleConfig pingedSessions
    (pingedDates.map Prod.fst) ⟨by decide, rfl, by decide⟩).2.2 pingedDates rfl
      ⟨by decide, by decide⟩ (5 * UpstreamRateLimiter.second) (6 * UpstreamRateLimiter.second)

end TritonLive

end FeedMux.Upstream
