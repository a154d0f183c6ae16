import FeedMux.Library.Fields
import FeedMux.Upstream.GrpcErrors

/-!
# Refusals with a gRPC status (`src/ws_reconnect.rs`, `src/upstream/triton.rs`)

A refusal reaches the live loop as text. Its code is rendered by a description
in which no pattern is found, so that only its message can tell that it is a
refusal (`refusal_halts_iff`).
-/

namespace FeedMux.Upstream
open FeedMux.Library FeedMux.Upstream.TritonLive

/-- The codes of a refusal. -/
inductive RefusalCode where
  | permissionDenied
  | unauthenticated
  deriving DecidableEq, Repr

def RefusalCode.description : RefusalCode → String
  | .permissionDenied => "The caller does not have permission"
  | .unauthenticated => "The request does not have valid authentication credentials"

/-- The status that `tonic` reports for a refused call. -/
structure Status where
  code : RefusalCode
  message : String
  deriving DecidableEq, Repr

def Status.display (status : Status) : String :=
  "code: '" ++ status.code.description ++ "'" ++
    if status.message.isEmpty then "" else ", message: \"" ++ status.message ++ "\""

def streamError (status : Status) : String := s!"Triton stream error: {status.display}"

def subscribeError (status : Status) : String := s!"Triton subscribe failed: {status.display}"

/-- The patterns that stand for a refusal on their own. -/
def refusalPatterns : List String :=
  ["403 forbidden", "status: 403", "401 unauthorized", "status: 401", "permissiondenied",
    "unauthenticated", "access denied"]

/-- A text in which one of the patterns is found, in any case. -/
def NamesRefusal (text : String) : Prop :=
  (∃ pattern ∈ refusalPatterns, lowerContains text pattern) ∨
    (lowerContains text "invalid compression flag" ∧ lowerContains text "403")

theorem classify_denied_iff (err : String) :
    classifyGrpcStreamError err = .authDenied ↔ NamesRefusal err := by
  have hclass : classifyGrpcStreamError err =
      if lowerContains err "403 forbidden" || lowerContains err "status: 403" ||
        lowerContains err "401 unauthorized" || lowerContains err "status: 401" ||
        lowerContains err "permissiondenied" || lowerContains err "unauthenticated" ||
        lowerContains err "access denied" ||
        (lowerContains err "invalid compression flag" && lowerContains err "403")
      then .authDenied else .retryable := rfl
  rw [hclass]
  simp only [NamesRefusal, refusalPatterns, List.exists_mem_cons_iff, List.not_mem_nil,
    false_and, exists_false, or_false]
  split
  · rename_i hfound
    simpa [or_assoc] using hfound
  · rename_i hnone
    simpa [or_assoc] using hnone

/-! ## Where a pattern can be found -/

/-- What stands before the message. -/
def fixedPart (context : String) (code : RefusalCode) : List Char :=
  toAsciiLowercase (context ++ ("code: '" ++ code.description ++ "', message: "))

def wrappers : List String := ["Triton stream error: ", "Triton subscribe failed: "]

theorem quote_notMem_denialPatterns : ∀ text ∈ denialPatterns, '"' ∉ text.toList ∧
    text.toList ≠ [] := by
  decide +kernel

theorem fixedPart_clean : ∀ context ∈ wrappers, ∀ text ∈ denialPatterns, ∀ code,
    ¬ text.toList <:+: fixedPart context code := by
  intro context hc text ht code
  revert context text
  cases code <;> decide +kernel

theorem toAsciiLowercase_append (a b : String) :
    toAsciiLowercase (a ++ b) = toAsciiLowercase a ++ toAsciiLowercase b := by
  unfold toAsciiLowercase
  rw [String.toList_append, List.map_append]

theorem display_lower (context : String) (status : Status) :
    toAsciiLowercase (context ++ status.display) <+: fixedPart context status.code ∧
        status.message = "" ∨
      toAsciiLowercase (context ++ status.display) =
        fixedPart context status.code ++ '"' :: (toAsciiLowercase status.message ++ '"' :: []) := by
  have hquote : toAsciiLowercase "\"" = ['"'] := by decide +kernel
  have hlabel : toAsciiLowercase ", message: \"" = toAsciiLowercase ", message: " ++ ['"'] := by
    decide +kernel
  have htick : toAsciiLowercase "', message: " =
      toAsciiLowercase "'" ++ toAsciiLowercase ", message: " := by decide +kernel
  have hnone : toAsciiLowercase "" = [] := by decide +kernel
  unfold Status.display fixedPart
  simp only [toAsciiLowercase_append, htick, List.append_assoc]
  split
  · rename_i hempty
    refine .inl ⟨?_, String.isEmpty_iff.mp hempty⟩
    rw [hnone, List.append_nil]
    exact ⟨toAsciiLowercase ", message: ", by simp only [List.append_assoc]⟩
  · refine .inr ?_
    simp only [toAsciiLowercase_append, hlabel, hquote, List.append_assoc, List.cons_append,
      List.nil_append]

/-- In a wrapped status a pattern is found exactly where it is found in the message. -/
theorem lowerContains_wrapped {context text : String} (hc : context ∈ wrappers)
    (ht : text ∈ denialPatterns) (status : Status) :
    lowerContains (context ++ status.display) text = lowerContains status.message text := by
  obtain ⟨hquote, hne⟩ := quote_notMem_denialPatterns text ht
  have hfixed := fixedPart_clean context hc text ht status.code
  unfold lowerContains
  rw [decide_eq_decide]
  rcases display_lower context status with ⟨hstart, hempty⟩ | hlower
  · constructor
    · intro h
      exact absurd (h.trans hstart.isInfix) hfixed
    · intro h
      rw [hempty] at h
      exact absurd (List.eq_nil_of_infix_nil h) hne
  · rw [hlower, infix_append_sep hquote, infix_append_sep hquote]
    constructor
    · rintro (h | h | h)
      · exact absurd h hfixed
      · exact h
      · exact absurd (List.eq_nil_of_infix_nil h) hne
    · intro h
      exact .inr (.inl h)

theorem namesRefusal_wrapped {context : String} (hc : context ∈ wrappers) (status : Status) :
    NamesRefusal (context ++ status.display) ↔ NamesRefusal status.message := by
  have hmem : ∀ text ∈ refusalPatterns, text ∈ denialPatterns := by decide +kernel
  unfold NamesRefusal
  rw [lowerContains_wrapped hc (by decide +kernel), lowerContains_wrapped hc (by decide +kernel)]
  refine or_congr_left (exists_congr fun text => and_congr_right fun ht => ?_)
  rw [lowerContains_wrapped hc (hmem text ht)]

theorem streamError_eq (status : Status) :
    streamError status = "Triton stream error: " ++ status.display := rfl

theorem subscribeError_eq (status : Status) :
    subscribeError status = "Triton subscribe failed: " ++ status.display := rfl

theorem classify_streamError_iff (status : Status) :
    classifyGrpcStreamError (streamError status) = .authDenied ↔ NamesRefusal status.message := by
  have hw : "Triton stream error: " ∈ wrappers := List.mem_cons_self
  rw [classify_denied_iff, streamError_eq, namesRefusal_wrapped hw]

theorem classify_subscribeError_iff (status : Status) :
    classifyGrpcStreamError (subscribeError status) = .authDenied ↔
      NamesRefusal status.message := by
  have hw : "Triton subscribe failed: " ∈ wrappers := List.mem_cons_of_mem _ List.mem_cons_self
  rw [classify_denied_iff, subscribeError_eq, namesRefusal_wrapped hw]

/-! ## The live loop -/

/-- The session is refused at the subscription or while the stream is read. -/
def Refused (cfg : LoopConfig) (s : Session) (status : Status) : Prop :=
  (openStream cfg { s with subscribe := none } = .ok () ∧ s.subscribe = some status.display) ∨
    (openStream cfg s = .ok () ∧ ∃ before after, StreamEnds before ∧
      s.reads = before ++ .failure status.display :: after)

theorem openStream_refused {cfg : LoopConfig} {s : Session} {status : Status}
    (hopen : openStream cfg { s with subscribe := none } = .ok ())
    (h : s.subscribe = some status.display) :
    openStream cfg s = .error (subscribeError status) := by
  have hcontext : "Triton subscribe failed" ++ ": " = "Triton subscribe failed: " := by
    decide +kernel
  have hthrow : throwIf "Triton subscribe failed" (some status.display) =
      .error ("Triton subscribe failed" ++ ": " ++ status.display) := rfl
  -- Connecting does not look at the outcome of the subscription.
  have hconnected : connectClient cfg { s with subscribe := none } = .ok () :=
    connected_of_open hopen
  change connectClient cfg s = .ok () at hconnected
  rw [openStream, hconnected, h, subscribeError_eq, ← hcontext]
  exact hthrow

theorem readLoop_refused (cfg : LoopConfig) (pingId : Int32) (received : Bool)
    {before : List Read} (h : StreamEnds before) (e : String) (after : List Read) :
    (readLoop cfg pingId received (before ++ .failure e :: after)).result =
      .error s!"Triton stream error: {e}" := by
  induction before generalizing pingId received with
  | nil => rfl
  | cons read before ih =>
    cases read with
    | failure other => exact absurd rfl ((h _ List.mem_cons_self).2 other)
    | update msg nowMs utc pingGranted pingSend =>
      have hrest : StreamEnds before := fun read hr => h read (List.mem_cons_of_mem _ hr)
      obtain ⟨next, hnext⟩ := readLoop_answered cfg pingId received (h _ List.mem_cons_self).1
        (before ++ .failure e :: after)
      rw [List.cons_append, hnext]
      exact ih next true hrest

/-- The session ends with the status, wrapped in one of the two ways. -/
theorem runSession_refused {cfg : LoopConfig} {s : Session} {status : Status}
    (h : Refused cfg s status) :
    (runSession cfg s).result = .error (streamError status) ∨
      (runSession cfg s).result = .error (subscribeError status) := by
  unfold runSession
  rcases h with ⟨hopen, hsub⟩ | ⟨hopen, before, after, hends, hreads⟩
  · rw [openStream_refused hopen hsub]
    exact .inr rfl
  · rw [hopen, hreads]
    exact .inl (readLoop_refused cfg 1 false hends _ after)

/-- The turn is the loop's last, and the flag is set. -/
def Halts (cfg : LoopConfig) (backoff : ReconnectBackoff) (s : Session) : Prop :=
  ∃ round, runLiveRound cfg (some backoff) s = (none, some round) ∧ round.delay = none ∧
    .authBlocked ∈ round.effects

theorem halts_of_denied {cfg : LoopConfig} {s : Session} {e : String}
    (hres : (runSession cfg s).result = .error e)
    (hclass : classifyGrpcStreamError e = .authDenied) (backoff : ReconnectBackoff) :
    Halts cfg backoff s := by
  unfold Halts runLiveRound
  simp only [hres, hclass]
  exact ⟨_, rfl, rfl, List.mem_append_right _ List.mem_cons_self⟩

/-- However a refusal is wrapped it is taken for one, and it ends the loop. -/
structure RefusalHalts (status : Status) : Prop where
  stream : classifyGrpcStreamError (streamError status) = .authDenied
  subscribe : classifyGrpcStreamError (subscribeError status) = .authDenied
  halts : ∀ cfg backoff s, Refused cfg s status → Halts cfg backoff s

/-- **Refusals.** The loop halts exactly when the message itself names the refusal. -/
theorem refusal_halts_iff (status : Status) :
    RefusalHalts status ↔ NamesRefusal status.message := by
  constructor
  · intro h
    exact (classify_streamError_iff status).mp h.stream
  · intro h
    have hstream := (classify_streamError_iff status).mpr h
    have hsubscribe := (classify_subscribeError_iff status).mpr h
    refine ⟨hstream, hsubscribe, ?_⟩
    intro cfg backoff s hrefused
    rcases runSession_refused hrefused with hres | hres
    · exact halts_of_denied hres hstream backoff
    · exact halts_of_denied hres hsubscribe backoff

/-- A refusal without a message is retried. -/
theorem silent_refusal_retried :
    classifyGrpcStreamError (streamError ⟨.permissionDenied, ""⟩) = .retryable ∧
      ¬ RefusalHalts ⟨.permissionDenied, ""⟩ := by
  have hretry : classifyGrpcStreamError (streamError ⟨.permissionDenied, ""⟩) = .retryable := by
    decide +kernel
  refine ⟨hretry, ?_⟩
  intro h
  rw [h.stream] at hretry
  cases hretry

end FeedMux.Upstream
