import FeedMux.Upstream.Liveness

/-!
# The flags of the upstreams (`src/upstream/titan.rs`, `src/upstream/triton.rs`)

The connected flag of an upstream is up exactly while the loop is in a session
that has connected and has not been marked down (`connected_iff`). The Triton
loop stores `auth_blocked` once and never clears it: it is set exactly when a
session was denied, as the very last thing the loop does (`blocked_iff`).
-/

namespace FeedMux.Upstream
open FeedMux.Library FeedMux.Titan

/-- A store to the flag of an upstream. -/
def Effect.flag? {δ ρ μ : Type} : Effect δ ρ μ → Option Bool
  | .connected up => some up
  | .redis _ | .publish _ | .relayStatus _ | .relayMessage _ | .request _ | .authBlocked
  | .wait _ => none

/-- The flag of an upstream; it starts as not connected. -/
def connectedAfter {δ ρ μ : Type} (effects : List (Effect δ ρ μ)) : Bool :=
  (effects.filterMap Effect.flag?).getLast?.getD false

/-- Only the last store counts. -/
theorem connectedAfter_append {δ ρ μ : Type} (before after : List (Effect δ ρ μ)) :
    connectedAfter (before ++ after) =
      ((after.filterMap Effect.flag?).getLast?.or (some (connectedAfter before))).getD false := by
  unfold connectedAfter
  rw [List.filterMap_append, List.getLast?_append]
  cases (after.filterMap Effect.flag?).getLast? <;>
    cases (before.filterMap Effect.flag?).getLast? <;> rfl

section
variable {δ ρ μ : Type} {before after : List (Effect δ ρ μ)}

theorem flag_eq_some {e : Effect δ ρ μ} {up : Bool} : e.flag? = some up ↔ e = .connected up := by
  cases e <;> simp [Effect.flag?]

/-- The last store to the flag, if there is one. -/
theorem mem_of_flag {up : Bool} (h : (after.filterMap Effect.flag?).getLast? = some up) :
    .connected up ∈ after := by
  obtain ⟨e, he, hflag⟩ := List.mem_filterMap.mp (List.mem_of_getLast? h)
  exact flag_eq_some.mp hflag ▸ he

theorem connectedAfter_after_down (h : connectedAfter before = false) :
    connectedAfter (before ++ after) = connectedAfter after := by
  rw [connectedAfter_append, h]
  unfold connectedAfter
  cases (after.filterMap Effect.flag?).getLast? <;> rfl

theorem connectedAfter_unraised (h : .connected true ∉ after) : connectedAfter after = false := by
  unfold connectedAfter
  cases hlast : (after.filterMap Effect.flag?).getLast? with
  | none => rfl
  | some up =>
    cases up with
    | false => rfl
    | true => exact absurd (mem_of_flag hlast) h

/-- Once cleared and not raised again the flag is down. -/
theorem connectedAfter_cleared (h : .connected true ∉ after) :
    connectedAfter (before ++ .connected false :: after) = false := by
  have hclear : connectedAfter (before ++ [.connected false]) = false := by
    rw [connectedAfter_append]
    rfl
  rw [List.append_cons, connectedAfter_after_down hclear, connectedAfter_unraised h]

/-- Once raised and not cleared again the flag is up. -/
theorem connectedAfter_raised (h : .connected false ∉ after) :
    connectedAfter (before ++ .connected true :: after) = true := by
  rw [List.append_cons, connectedAfter_append]
  cases hlast : (after.filterMap Effect.flag?).getLast? with
  | none =>
    rw [connectedAfter_append]
    rfl
  | some up =>
    cases up with
    | true => rfl
    | false => exact absurd (mem_of_flag hlast) h

/-- A flag that is up after all has not been cleared. -/
theorem uncleared_of_up (h : .connected true ∉ after)
    (hup : connectedAfter (before ++ after) = true) : .connected false ∉ after := by
  intro hmem
  obtain ⟨more, rest, rfl⟩ := List.append_of_mem hmem
  have hrest : .connected true ∉ rest := fun hm => h (by simp [hm])
  rw [← List.append_assoc, connectedAfter_cleared hrest] at hup
  cases hup

/-- Of a turn between two marks that the upstream is down, the flag is up only in
the part of the session. -/
theorem up_in_session {done down session rest effects : List (Effect δ ρ μ)}
    (hdone : connectedAfter done = false) (hdown : .connected true ∉ down)
    (hrest : .connected true ∉ rest)
    (h : effects <+: done ++ (down ++ (session ++ .connected false :: rest)))
    (hup : connectedAfter effects = true) :
    effects <+: done ∨ ∃ part, part <+: session ∧ connectedAfter part = true ∧
      effects = done ++ (down ++ part) := by
  rcases part_of_append h with hbefore | ⟨turn, hturn, rfl⟩
  · exact .inl hbefore
  rw [connectedAfter_after_down hdone] at hup
  refine .inr ?_
  rcases part_of_append hturn with hmark | ⟨part, hpart, rfl⟩
  · rw [connectedAfter_unraised fun hm => hdown (hmark.subset hm)] at hup
    cases hup
  rw [connectedAfter_after_down (connectedAfter_unraised hdown)] at hup
  rcases part_of_append hpart with hsession | ⟨more, hmore, rfl⟩
  · exact ⟨part, hsession, hup, rfl⟩
  · rcases List.prefix_cons_iff.mp hmore with rfl | ⟨tail, rfl, htail⟩
    · rw [List.append_nil] at hup ⊢
      exact ⟨session, List.prefix_refl _, hup, rfl⟩
    · rw [connectedAfter_cleared fun hm => hrest (htail.subset hm)] at hup
      cases hup

/-- What of a session has been done with the flag up. -/
theorem done_of_up {before rest session part : List (Effect δ ρ μ)}
    (hbefore : .connected true ∉ before) (hrest : .connected true ∉ rest)
    (hsession : session = before ++ .connected true :: rest) (h : part <+: session)
    (hup : connectedAfter part = true) :
    ∃ done, part = before ++ .connected true :: done ∧ .connected false ∉ done := by
  rw [hsession] at h
  rcases part_of_append h with hearly | ⟨more, hmore, rfl⟩
  · rw [connectedAfter_unraised fun hm => hbefore (hearly.subset hm)] at hup
    cases hup
  · rcases List.prefix_cons_iff.mp hmore with rfl | ⟨done, rfl, hdone⟩
    · rw [List.append_nil, connectedAfter_unraised hbefore] at hup
      cases hup
    · rw [List.append_cons] at hup
      exact ⟨done, rfl, uncleared_of_up (fun hm => hrest (hdone.subset hm)) hup⟩

end

/-! ## The Titan loop -/

namespace TitanLive

/-- The loop is in a session that has connected: the upstream is marked up and not
yet down again. -/
def InSession (cfg : LoopConfig) (sessions : List Session) (effects : List TitanEffect) : Prop :=
  ∃ pre s post done, sessions = pre ++ s :: post ∧ Connects s ∧
    .connected true :: done <+:
      (runSession cfg (runs (runLiveRound cfg) .start pre).1.st s).effects ∧
    .connected false ∉ done ∧
    effects = loopEffects cfg pre ++ (markTitanDisconnected cfg ++ .connected true :: done)

section
variable {cfg : LoopConfig} {sessions : List Session} {effects : List TitanEffect}

theorem InSession.later (h : InSession cfg sessions effects) (more : List Session) :
    InSession cfg (sessions ++ more) effects := by
  obtain ⟨pre, s, post, done, rfl, hrest⟩ := h
  exact ⟨pre, s, post ++ more, done, by simp, hrest⟩

theorem relayStatus_unraised (cfg : LoopConfig) (up : Bool) :
    .connected true ∉ relayStatus cfg up := by
  unfold relayStatus
  cases cfg.relay <;> simp

theorem disconnected_unraised (cfg : LoopConfig) :
    .connected true ∉ markTitanDisconnected cfg := by
  simp [markTitanDisconnected, relayStatus_unraised]

theorem readLoop_unraised (st : TitanState) (received : Bool) (reads : List Read) :
    .connected true ∉ (readLoop cfg st received reads).effects := by
  induction reads generalizing st received with
  | nil => exact List.not_mem_nil
  | cons read rest ih =>
    cases read with
    | binary frame =>
      unfold readLoop
      cases cfg.relay <;> simp [ih]
    | ping pong =>
      cases pong with
      | none => exact ih st received
      | some e =>
        unfold readLoop
        split
        · exact disconnected_unraised cfg
        · exact List.not_mem_nil
    | close => exact List.not_mem_nil
    | other => exact ih st received
    | failure e =>
      unfold readLoop
      split
      · exact disconnected_unraised cfg
      · exact List.not_mem_nil

theorem runSubscribed_unraised (st : TitanState) (s : Session) :
    .connected true ∉ (runSubscribed cfg s st).effects := by
  unfold runSubscribed
  simp only
  split
  · simp
  · split <;> simp [readLoop_unraised, disconnected_unraised]

/-- A session raises the flag once it connects, and not again. -/
theorem runSession_raises (cfg : LoopConfig) (st : TitanState) (s : Session) :
    (runSession cfg st s).effects = [] ∨ Connects s ∧
      ∃ rest, (runSession cfg st s).effects = [] ++ .connected true :: rest ∧
        .connected true ∉ rest := by
  have hinfo : .connected true ∉ (sendGetInfo s).1 := by
    unfold sendGetInfo
    split
    · simp
    · split <;> simp
  unfold runSession
  cases hfail : s.request <|> s.connect with
  | some e => exact .inl rfl
  | none =>
    have hconnects : Connects s := by
      cases hrequest : s.request with
      | some e => simp [hrequest] at hfail
      | none => exact ⟨hrequest, by simpa [hrequest] using hfail⟩
    refine .inr ⟨hconnects, ?_⟩
    simp only
    cases (sendGetInfo s).2 with
    | error e => exact ⟨_, rfl, by simp [hinfo, relayStatus_unraised]⟩
    | ok u => exact ⟨_, rfl, by simp [hinfo, relayStatus_unraised, runSubscribed_unraised]⟩

/-- What follows the store that ends a turn's session. -/
def afterSession (cfg : LoopConfig) (delay : Duration) : List TitanEffect :=
  .redis (cfg.env.fanout.setTitanUpstreamUp false) :: relayStatus cfg false ++ [.wait delay]

theorem afterSession_unraised (cfg : LoopConfig) (delay : Duration) :
    .connected true ∉ afterSession cfg delay := by
  simp [afterSession, relayStatus_unraised]

theorem loopEffects_turn (cfg : LoopConfig) (pre : List Session) (s : Session) :
    ∃ delay, loopEffects cfg (pre ++ [s]) = loopEffects cfg pre ++ (markTitanDisconnected cfg ++
      ((runSession cfg (runs (runLiveRound cfg) .start pre).1.st s).effects ++
        .connected false :: afterSession cfg delay)) :=
  ⟨_, by rw [loopEffects_concat, round_effects]; rfl⟩

theorem loop_down (cfg : LoopConfig) (sessions : List Session) :
    connectedAfter (loopEffects cfg sessions) = false := by
  induction sessions using List.reverseRecOn with
  | nil => rfl
  | append_singleton pre s _ =>
    obtain ⟨delay, hturn⟩ := loopEffects_turn cfg pre s
    rw [hturn, ← List.append_assoc, ← List.append_assoc]
    exact connectedAfter_cleared (afterSession_unraised cfg delay)

/-- **The Titan flag** is up exactly in the sessions that have connected. -/
theorem connected_iff (h : effects <+: loopEffects cfg sessions) :
    connectedAfter effects = true ↔ InSession cfg sessions effects := by
  constructor
  · intro hup
    induction sessions using List.reverseRecOn with
    | nil =>
      obtain rfl := List.prefix_nil.mp h
      cases hup
    | append_singleton pre s ih =>
      obtain ⟨delay, hturn⟩ := loopEffects_turn cfg pre s
      rw [hturn] at h
      rcases up_in_session (loop_down cfg pre) (disconnected_unraised cfg)
          (afterSession_unraised cfg delay) h hup with hearlier | ⟨part, hpart, hpartUp, rfl⟩
      · exact (ih hearlier).later [s]
      · rcases runSession_raises cfg (runs (runLiveRound cfg) .start pre).1.st s with
          hnone | ⟨hconnects, rest, hrun, hrest⟩
        · rw [hnone] at hpart
          obtain rfl := List.prefix_nil.mp hpart
          cases hpartUp
        · obtain ⟨done, rfl, hdone⟩ := done_of_up List.not_mem_nil hrest hrun hpart hpartUp
          exact ⟨pre, s, [], done, rfl, hconnects, hpart, hdone, rfl⟩
  · rintro ⟨pre, s, post, done, -, -, -, hdone, rfl⟩
    rw [← List.append_assoc]
    exact connectedAfter_raised hdone

end

end TitanLive

/-! ## The Triton loop -/

namespace TritonLive

def isDenial : TritonEffect → Bool
  | .authBlocked => true
  | _ => false

/-- The flag `auth_blocked`. -/
def authBlockedAfter (effects : List TritonEffect) : Bool := effects.any isDenial

def DeniedBy (cfg : LoopConfig) (s : Session) : Prop :=
  ∃ e, (runSession cfg s).result = .error e ∧ classifyGrpcStreamError e = .authDenied

/-- A session that the loop makes is denied. -/
def Denied (cfg : LoopConfig) (sessions : List Session) : Prop :=
  ∃ pre s post, sessions = pre ++ s :: post ∧ loopAfter cfg pre ≠ none ∧ DeniedBy cfg s

/-- The loop is in a session whose stream has opened: the upstream is marked up and
not yet down again. -/
def InSession (cfg : LoopConfig) (sessions : List Session) (effects : List TritonEffect) : Prop :=
  ∃ pre s post done, sessions = pre ++ s :: post ∧ loopAfter cfg pre ≠ none ∧
    openStream cfg s = .ok () ∧
    [.request .slots] ++ .connected true :: done <+: (runSession cfg s).effects ∧
    .connected false ∉ done ∧
    effects = loopEffects cfg pre ++
      (markTritonDisconnected cfg ++ ([.request .slots] ++ .connected true :: done))

theorem authBlockedAfter_iff {effects : List TritonEffect} :
    authBlockedAfter effects = true ↔ .authBlocked ∈ effects := by
  rw [authBlockedAfter, List.any_eq_true]
  constructor
  · rintro ⟨e, he, hdenial⟩
    cases e <;> first | exact he | cases hdenial
  · exact fun hm => ⟨_, hm, rfl⟩

section
variable {cfg : LoopConfig} {sessions : List Session} {effects : List TritonEffect}

/-! ### What a turn stores -/

/-- Neither raises the connected flag nor blocks. -/
def Plain (effects : List TritonEffect) : Prop :=
  .connected true ∉ effects ∧ .authBlocked ∉ effects

@[simp] theorem Plain.append {effects more : List TritonEffect} :
    Plain (effects ++ more) ↔ Plain effects ∧ Plain more := by
  simp only [Plain, List.mem_append, not_or]
  exact and_and_and_comm

theorem relayStatus_plain (cfg : LoopConfig) (up : Bool) : Plain (relayStatus cfg up) := by
  unfold relayStatus
  cases cfg.relay <;> simp [Plain]

theorem disconnected_plain (cfg : LoopConfig) : Plain (markTritonDisconnected cfg) := by
  unfold markTritonDisconnected
  exact Plain.append.mpr ⟨by simp [Plain], relayStatus_plain cfg false⟩

theorem readLoop_plain (pingId : Int32) (received : Bool) (reads : List Read) :
    Plain (readLoop cfg pingId received reads).effects := by
  induction reads generalizing pingId received with
  | nil => exact disconnected_plain cfg
  | cons read rest ih =>
    cases read with
    | failure e => simp [readLoop, Plain]
    | update msg nowMs utc pingGranted pingSend =>
      have hupdate : Plain ((if cfg.relay then [.relayMessage msg] else []) ++
          handleTritonUpdate cfg msg nowMs utc) := by
        cases cfg.relay <;> simp [Plain, handleTritonUpdate]
      unfold readLoop
      by_cases hp : (msg.updateOneof == some .ping && pingGranted) = true
      · simp only [hp, ↓reduceIte]
        cases pingSend with
        | some e => exact hupdate
        | none =>
          have hping : Plain [.request (.ping pingId)] := by simp [Plain]
          exact Plain.append.mpr ⟨Plain.append.mpr ⟨hupdate, hping⟩, ih ..⟩
      · simp only [hp, Bool.false_eq_true, ↓reduceIte]
        exact Plain.append.mpr ⟨hupdate, ih ..⟩

/-- A session raises the flag once its stream opens, and not again. -/
theorem runSession_raises (cfg : LoopConfig) (s : Session) :
    Plain (runSession cfg s).effects ∨ openStream cfg s = .ok () ∧
      ∃ rest, (runSession cfg s).effects = [.request .slots] ++ .connected true :: rest ∧
        Plain rest := by
  unfold runSession
  cases hopen : openStream cfg s with
  | error e =>
    left
    rcases subscribed_cases cfg s with h | h <;> simp [h, Plain]
  | ok u =>
    have hmark : Plain [.redis (cfg.fanout.setTritonUpstreamUp true)] := by simp [Plain]
    rw [subscribed_open hopen]
    exact .inr ⟨rfl, _, rfl, Plain.append.mpr
      ⟨Plain.append.mpr ⟨hmark, relayStatus_plain cfg true⟩, readLoop_plain 1 false s.reads⟩⟩

/-- What a turn does before it waits, blocks or panics. -/
def turnBody (cfg : LoopConfig) (s : Session) : List TritonEffect :=
  markTritonDisconnected cfg ++ ((runSession cfg s).effects ++ markTritonDisconnected cfg)

theorem turnBody_unblocked (s : Session) : .authBlocked ∉ turnBody cfg s := by
  have hsession : .authBlocked ∉ (runSession cfg s).effects := by
    rcases runSession_raises cfg s with hplain | ⟨-, rest, hrun, -, hrest⟩
    · exact hplain.2
    · rw [hrun]
      simpa using hrest
  simp [turnBody, hsession, (disconnected_plain cfg).2]

/-! ### Denials -/

/-- A denied session blocks the upstream and halts the loop. -/
theorem runLiveRound_denied {s : Session} (h : DeniedBy cfg s) (backoff : ReconnectBackoff) :
    runLiveRound cfg (some backoff) s =
      (none, some ⟨turnBody cfg s ++ [.authBlocked], (runSession cfg s).result, none⟩) := by
  obtain ⟨e, he, hclass⟩ := h
  simp only [runLiveRound, he, hclass, turnBody, List.append_assoc]

/-- No other session blocks it. -/
theorem runLiveRound_undenied {s : Session} (h : ¬ DeniedBy cfg s) (backoff : ReconnectBackoff) :
    ∃ round, (runLiveRound cfg (some backoff) s).2 = some round ∧
      .authBlocked ∉ round.effects := by
  have hbody : .authBlocked ∉ turnBody cfg s := turnBody_unblocked s
  rw [turnBody, ← List.append_assoc] at hbody
  unfold runLiveRound
  simp only
  split
  · exact ⟨_, rfl, by simpa using hbody⟩
  · rename_i e hres
    split
    · rename_i hclass
      exact absurd ⟨e, hres, hclass⟩ h
    · split
      · exact ⟨_, rfl, by simpa using hbody⟩
      · exact ⟨_, rfl, hbody⟩

theorem denied_concat (pre : List Session) (s : Session) :
    Denied cfg (pre ++ [s]) ↔ Denied cfg pre ∨ loopAfter cfg pre ≠ none ∧ DeniedBy cfg s := by
  constructor
  · rintro ⟨pre', s', post, hsplit, hgoes, hdenied⟩
    rcases List.eq_nil_or_concat post with rfl | ⟨post', last, rfl⟩
    · obtain ⟨rfl, hs⟩ := List.append_inj' hsplit rfl
      obtain rfl := List.cons.inj hs |>.1
      exact .inr ⟨hgoes, hdenied⟩
    · rw [List.concat_eq_append, ← List.cons_append, ← List.append_assoc] at hsplit
      exact .inl ⟨pre', s', post', (List.append_inj' hsplit rfl).1, hgoes, hdenied⟩
  · rintro (⟨pre', s', post, rfl, hgoes, hdenied⟩ | ⟨hgoes, hdenied⟩)
    · exact ⟨pre', s', post ++ [s], by simp, hgoes, hdenied⟩
    · exact ⟨pre, s, [], rfl, hgoes, hdenied⟩

/-- A denial is the last thing the loop does, and nothing before it is one. -/
theorem loop_denial (sessions : List Session) :
    (Denied cfg sessions → loopAfter cfg sessions = none ∧
        ∃ body, loopEffects cfg sessions = body ++ [.authBlocked] ∧ .authBlocked ∉ body) ∧
      (¬ Denied cfg sessions → .authBlocked ∉ loopEffects cfg sessions) := by
  induction sessions using List.reverseRecOn with
  | nil =>
    refine ⟨?_, fun _ => List.not_mem_nil⟩
    rintro ⟨pre, s, post, hsplit, -, -⟩
    simp at hsplit
  | append_singleton pre s ih =>
    have hafter : loopAfter cfg (pre ++ [s]) = (runLiveRound cfg (loopAfter cfg pre) s).1 := by
      rw [loopAfter, runs_concat]
      rfl
    rw [denied_concat, loopEffects_concat, hafter]
    cases hb : loopAfter cfg pre with
    | none =>
      have hnone : runLiveRound cfg none s = (none, none) := rfl
      simpa [hnone, hb] using ih
    | some backoff =>
      have hpre : ¬ Denied cfg pre := by
        intro hd
        rw [(ih.1 hd).1] at hb
        cases hb
      have hquiet := ih.2 hpre
      simp only [hpre, false_or, ne_eq, reduceCtorEq, not_false_eq_true, true_and]
      constructor
      · intro hd
        rw [runLiveRound_denied hd backoff]
        exact ⟨rfl, loopEffects cfg pre ++ turnBody cfg s, by simp,
          by simp [hquiet, turnBody_unblocked]⟩
      · intro hd
        obtain ⟨round, hround, hno⟩ := runLiveRound_undenied hd backoff
        simp [hround, hquiet, hno]

/-! ### The connected flag -/

theorem InSession.later (h : InSession cfg sessions effects) (more : List Session) :
    InSession cfg (sessions ++ more) effects := by
  obtain ⟨pre, s, post, done, rfl, hrest⟩ := h
  exact ⟨pre, s, post ++ more, done, by simp, hrest⟩

/-- What follows the store that ends a turn's session. -/
def afterSession (cfg : LoopConfig) (round : Round) : List TritonEffect :=
  .redis (cfg.fanout.setTritonUpstreamUp false) :: relayStatus cfg false ++ endEffects round

theorem afterSession_unraised (cfg : LoopConfig) (round : Round) :
    .connected true ∉ afterSession cfg round := by
  have hend : .connected true ∉ endEffects round := by
    unfold endEffects
    split
    · simp
    · split <;> simp
    · simp
  simp [afterSession, hend, (relayStatus_plain cfg false).1]

/-- A loop that has halted makes no turn. -/
theorem loopEffects_turn (cfg : LoopConfig) (pre : List Session) (s : Session) :
    (loopAfter cfg pre = none ∧ loopEffects cfg (pre ++ [s]) = loopEffects cfg pre) ∨
      loopAfter cfg pre ≠ none ∧ ∃ round, loopEffects cfg (pre ++ [s]) =
        loopEffects cfg pre ++ (markTritonDisconnected cfg ++
          ((runSession cfg s).effects ++ .connected false :: afterSession cfg round)) := by
  rw [loopEffects_concat]
  cases hb : loopAfter cfg pre with
  | none => exact .inl ⟨rfl, List.append_nil _⟩
  | some backoff =>
    obtain ⟨round, hround, heffects, -⟩ := runLiveRound_turn cfg backoff s
    refine .inr ⟨by simp, round, ?_⟩
    rw [hround, Option.toList_some, List.flatMap_singleton, heffects]
    rfl

theorem loop_down (cfg : LoopConfig) (sessions : List Session) :
    connectedAfter (loopEffects cfg sessions) = false := by
  induction sessions using List.reverseRecOn with
  | nil => rfl
  | append_singleton pre s ih =>
    rcases loopEffects_turn cfg pre s with ⟨-, hturn⟩ | ⟨-, round, hturn⟩
    · rw [hturn, ih]
    · rw [hturn, ← List.append_assoc, ← List.append_assoc]
      exact connectedAfter_cleared (afterSession_unraised cfg round)

/-- **The Triton flag** is up exactly in the sessions whose stream has opened. -/
theorem connected_iff (h : effects <+: loopEffects cfg sessions) :
    connectedAfter effects = true ↔ InSession cfg sessions effects := by
  constructor
  · intro hup
    induction sessions using List.reverseRecOn with
    | nil =>
      obtain rfl := List.prefix_nil.mp h
      cases hup
    | append_singleton pre s ih =>
      rcases loopEffects_turn cfg pre s with ⟨-, hturn⟩ | ⟨hgoes, round, hturn⟩
      · rw [hturn] at h
        exact (ih h).later [s]
      · rw [hturn] at h
        rcases up_in_session (loop_down cfg pre) (disconnected_plain cfg).1
            (afterSession_unraised cfg round) h hup with hearlier | ⟨part, hpart, hpartUp, rfl⟩
        · exact (ih hearlier).later [s]
        · rcases runSession_raises cfg s with hplain | ⟨hopen, rest, hrun, hrest⟩
          · have hdown := connectedAfter_unraised fun hm => hplain.1 (hpart.subset hm)
            rw [hdown] at hpartUp
            cases hpartUp
          · obtain ⟨done, rfl, hdone⟩ := done_of_up (by simp) hrest.1 hrun hpart hpartUp
            exact ⟨pre, s, [], done, rfl, hgoes, hopen, hpart, hdone, rfl⟩
  · rintro ⟨pre, s, post, done, -, -, -, -, hdone, rfl⟩
    rw [← List.append_assoc, ← List.append_assoc]
    exact connectedAfter_raised hdone

/-- At any moment `auth_blocked` is set exactly if the loop has done all it will
ever do and a session of it was denied. The upstream is not connected then. -/
theorem blocked_iff (h : effects <+: loopEffects cfg sessions) :
    (authBlockedAfter effects = true ↔
        effects = loopEffects cfg sessions ∧ Denied cfg sessions) ∧
      (authBlockedAfter effects = true → connectedAfter effects = false) := by
  have hiff : authBlockedAfter effects = true ↔
      effects = loopEffects cfg sessions ∧ Denied cfg sessions := by
    rw [authBlockedAfter_iff]
    obtain ⟨hdenied, hfree⟩ := @loop_denial cfg sessions
    by_cases hd : Denied cfg sessions
    · obtain ⟨-, body, hall, hbody⟩ := hdenied hd
      rw [hall] at h ⊢
      rcases List.prefix_concat_iff.mp h with rfl | hbefore
      · simp [hd]
      · have hne : effects ≠ body ++ [.authBlocked] := by
          rintro rfl
          simpa using hbefore.length_le
        have hno : .authBlocked ∉ effects := fun hm => hbody (hbefore.subset hm)
        simp [hno, hne]
    · have hno : .authBlocked ∉ effects := fun hm => hfree hd (h.subset hm)
      simp [hno, hd]
  refine ⟨hiff, fun hblocked => ?_⟩
  rw [(hiff.mp hblocked).1]
  exact loop_down cfg sessions

end

end TritonLive
end FeedMux.Upstream
