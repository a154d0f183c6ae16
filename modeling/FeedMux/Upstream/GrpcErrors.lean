import FeedMux.Upstream.Triton

/-!
# What the logs say about gRPC errors (`src/ws_reconnect.rs`)

The summary of an error is a fixed text if one of three patterns is found in it
(`Masked`), and else the error itself, cut at byte 200. The cut panics between
two bytes of a character (`error_handled_iff`), and a denial that only
classification knows is logged as it came (`denial_masked_iff`).
-/

namespace FeedMux.Upstream
open FeedMux.Library FeedMux.Upstream.TritonLive

/-- The error contains the text, in any case. -/
def lowerContains (err text : String) : Bool := decide (text.toList <:+: toAsciiLowercase err)

def maskedForbidden : String := "HTTP 403 Forbidden (check TRITON_GRPC_TOKEN/plan)"
def maskedUnauthorized : String := "HTTP 401 Unauthorized (check TRITON_GRPC_TOKEN)"
def maskedBody : String :=
  "HTTP 403 rejected as non-gRPC body (check TRITON_GRPC_TOKEN/plan)"

def fixedTexts : List String := [maskedForbidden, maskedUnauthorized, maskedBody]

/-- One of the patterns of the summary is found in the error. -/
def Masked (err : String) : Prop :=
  (lowerContains err "403 forbidden" ∨ lowerContains err "status: 403") ∨
    (lowerContains err "401 unauthorized" ∨ lowerContains err "status: 401") ∨
      (lowerContains err "invalid compression flag" ∧ lowerContains err "403")

/-- The text for a masked error depends on the patterns alone. -/
def maskOf (err : String) : String :=
  if lowerContains err "403 forbidden" || lowerContains err "status: 403" then maskedForbidden
  else if lowerContains err "401 unauthorized" || lowerContains err "status: 401" then
    maskedUnauthorized
  else maskedBody

theorem maskOf_mem (err : String) : maskOf err ∈ fixedTexts := by
  unfold maskOf fixedTexts
  split
  · simp
  · split <;> simp

theorem lowerContains_mem {err text : String} (h : lowerContains err text = true) {c : Char}
    (hc : c ∈ text.toList) : c ∈ toAsciiLowercase err :=
  (of_decide_eq_true h).subset hc

/-- Every pattern of the summary names an HTTP status. -/
theorem Masked.status {err : String} (h : Masked err) : '4' ∈ toAsciiLowercase err := by
  rcases h with (h | h) | (h | h) | ⟨-, h⟩ <;> exact lowerContains_mem h (by decide)

theorem grpcErrorSummary_eq (err : String) : grpcErrorSummary err =
    if lowerContains err "403 forbidden" || lowerContains err "status: 403" then
      .ok maskedForbidden
    else if lowerContains err "401 unauthorized" || lowerContains err "status: 401" then
      .ok maskedUnauthorized
    else if lowerContains err "invalid compression flag" && lowerContains err "403" then
      .ok maskedBody
    else if 200 < err.utf8ByteSize then (sliceTo err 200).map (· ++ "…")
    else .ok err := rfl

theorem summary_masked {err : String} (h : Masked err) :
    grpcErrorSummary err = .ok (maskOf err) := by
  rw [grpcErrorSummary_eq, maskOf]
  split
  · rfl
  · rename_i hf
    split
    · rfl
    · rename_i hu
      simp only [Bool.or_eq_true] at hf hu
      obtain ⟨hflag, hcode⟩ := (h.resolve_left hf).resolve_left hu
      rw [hflag, hcode]
      rfl

/-- Any other error is summarised by itself, cut if it is long. -/
theorem summary_unmasked {err : String} (h : ¬ Masked err) :
    grpcErrorSummary err =
      if 200 < err.utf8ByteSize then (sliceTo err 200).map (· ++ "…") else .ok err := by
  unfold Masked at h
  push Not at h
  rw [grpcErrorSummary_eq, if_neg (by simp [h.1]), if_neg (by simp [h.2.1]), if_neg]
  intro hb
  obtain ⟨hflag, hcode⟩ := Bool.and_eq_true_iff.mp hb
  exact h.2.2 hflag hcode

/-! ## Length -/

/-- The summary is a fixed text, or at most 200 bytes of the error and an ellipsis. -/
def ShortSummary (err : String) : Prop :=
  ∃ text, grpcErrorSummary err = .ok text ∧
    (text ∈ fixedTexts ∨ (text = err ∧ err.utf8ByteSize ≤ 200) ∨
      ∃ start : String, start.toList <+: err.toList ∧ start.utf8ByteSize ≤ 200 ∧
        text = start ++ "…")

theorem short_summary_iff (err : String) :
    ShortSummary err ↔ Masked err ∨ err.utf8ByteSize ≤ 200 ∨ IsCharBoundary err 200 := by
  by_cases hm : Masked err
  · simp only [hm, true_or, iff_true]
    exact ⟨_, summary_masked hm, .inl (maskOf_mem err)⟩
  · unfold ShortSummary
    rw [summary_unmasked hm]
    by_cases hlong : 200 < err.utf8ByteSize
    · have hle : ¬ err.utf8ByteSize ≤ 200 := by omega
      simp only [hlong, ↓reduceIte, hm, hle, false_or, ← sliceTo_ok_iff]
      cases hs : sliceTo err 200 with
      | error panic => simp [Except.map]
      | ok start =>
        obtain ⟨hpre, hsize⟩ := sliceTo_eq_ok.mp hs
        simp only [Except.map, Except.ok.injEq, exists_eq', iff_true]
        exact ⟨_, rfl, .inr (.inr ⟨start, hpre, le_of_eq hsize, rfl⟩)⟩
    · have hle : err.utf8ByteSize ≤ 200 := by omega
      simp only [hlong, ↓reduceIte, hle, true_or, or_true, iff_true]
      exact ⟨err, rfl, .inr (.inl ⟨rfl, trivial⟩)⟩

/-- Where the summary panics the loop ends, although it would have gone on. -/
theorem retry_survives_iff {cfg : LoopConfig} {backoff : ReconnectBackoff} {s : Session}
    {err : String} (hres : (runSession cfg s).result = .error err)
    (hclass : classifyGrpcStreamError err = .retryable) :
    (runLiveRound cfg (some backoff) s).1 ≠ none ↔ ∃ text, grpcErrorSummary err = .ok text := by
  unfold runLiveRound
  simp only [hres, hclass]
  cases grpcErrorSummary err <;> simp

/-- The error is summarised shortly, and the loop survives it if it is retryable. -/
structure ErrorHandled (err : String) : Prop where
  short : ShortSummary err
  survives : ∀ (cfg : LoopConfig) (backoff : ReconnectBackoff) (s : Session),
    (runSession cfg s).result = .error err → classifyGrpcStreamError err = .retryable →
      (runLiveRound cfg (some backoff) s).1 ≠ none

/-- **Error texts.** They are handled exactly when they are masked, short, or have
a character boundary at byte 200. -/
theorem error_handled_iff (err : String) :
    ErrorHandled err ↔ Masked err ∨ err.utf8ByteSize ≤ 200 ∨ IsCharBoundary err 200 := by
  rw [← short_summary_iff]
  constructor
  · exact ErrorHandled.short
  · intro h
    refine ⟨h, ?_⟩
    intro cfg backoff s hres hclass
    obtain ⟨text, htext, -⟩ := h
    exact (retry_survives_iff hres hclass).mpr ⟨text, htext⟩

/-- One character of one byte, then a hundred of two. -/
def misaligned : String := String.ofList ('x' :: List.replicate 100 'é')

theorem misaligned_panics : grpcErrorSummary misaligned = .error .notCharBoundary := by
  have hm : ¬ Masked misaligned := by
    intro h
    have hfour := h.status
    unfold misaligned toAsciiLowercase at hfour
    rw [String.toList_ofList] at hfour
    revert hfour
    decide +kernel
  have hsize : misaligned.utf8ByteSize = 201 := by
    unfold misaligned
    rw [String.utf8ByteSize_ofList, String.utf8Len_cons, utf8Len_replicate]
    decide
  have hcut : takeBytes 200 ('x' :: List.replicate 100 'é') = none := by decide +kernel
  have hslice : sliceTo misaligned 200 = .error .notCharBoundary := by
    unfold sliceTo misaligned
    rw [String.toList_ofList, hcut]
  rw [summary_unmasked hm, hsize, if_pos (by decide), hslice]
  rfl

theorem misaligned_not_handled : ¬ ErrorHandled misaligned := by
  intro h
  obtain ⟨text, htext, -⟩ := h.short
  rw [misaligned_panics] at htext
  cases htext

/-! ## Denials -/

/-- What either function looks for. -/
def denialPatterns : List String :=
  ["403 forbidden", "status: 403", "401 unauthorized", "status: 401", "permissiondenied",
    "unauthenticated", "access denied", "invalid compression flag", "403"]

/-- The summary of a denial is a fixed text, and the same for every denial that
matches the same patterns. -/
structure Fixed (err : String) : Prop where
  text : ∃ text ∈ fixedTexts, grpcErrorSummary err = .ok text
  same : ∀ other, classifyGrpcStreamError other = .authDenied →
    (∀ text ∈ denialPatterns, lowerContains other text = lowerContains err text) →
      grpcErrorSummary other = grpcErrorSummary err

theorem ellipsis_notMem_fixed : ∀ text ∈ fixedTexts, '…' ∉ text.toList := by
  decide +kernel

/-- A fixed text that is itself taken for a denial is masked by itself. -/
theorem masked_of_fixed :
    ∀ text ∈ fixedTexts, classifyGrpcStreamError text = .authDenied → Masked text := by
  unfold Masked
  decide +kernel

/-- What is not masked is summarised by no fixed text. -/
theorem unmasked_not_fixed {err : String} (hd : classifyGrpcStreamError err = .authDenied)
    (hm : ¬ Masked err) : ¬ ∃ text ∈ fixedTexts, grpcErrorSummary err = .ok text := by
  rintro ⟨text, hmem, htext⟩
  rw [summary_unmasked hm] at htext
  split at htext
  · -- A cut text ends in an ellipsis, the fixed ones do not.
    cases hs : sliceTo err 200 with
    | error panic =>
      rw [hs] at htext
      cases htext
    | ok start =>
      rw [hs] at htext
      obtain rfl : start ++ "…" = text := Except.ok.inj htext
      refine ellipsis_notMem_fixed _ hmem ?_
      rw [String.toList_append]
      exact List.mem_append_right _ (by decide)
  · obtain rfl := Except.ok.inj htext
    exact hm (masked_of_fixed err hmem hd)

theorem maskOf_congr {err other : String}
    (h : ∀ text ∈ denialPatterns, lowerContains other text = lowerContains err text) :
    (Masked other ↔ Masked err) ∧ maskOf other = maskOf err := by
  simp only [denialPatterns, List.forall_mem_cons] at h
  obtain ⟨h1, h2, h3, h4, -, -, -, h8, h9, -⟩ := h
  unfold Masked maskOf
  rw [h1, h2, h3, h4, h8, h9]
  exact ⟨Iff.rfl, rfl⟩

/-- **Denials.** Nothing of a denial is logged exactly when it is masked. -/
theorem denial_masked_iff (err : String) (hd : classifyGrpcStreamError err = .authDenied) :
    Fixed err ↔ Masked err := by
  constructor
  · intro h
    by_contra hm
    exact unmasked_not_fixed hd hm h.text
  · intro hm
    refine ⟨⟨_, maskOf_mem err, summary_masked hm⟩, ?_⟩
    intro other _ hsame
    obtain ⟨hiff, hmask⟩ := maskOf_congr hsame
    rw [summary_masked (hiff.mpr hm), summary_masked hm, hmask]

theorem denial_masked_sample : Fixed "HTTP 403 Forbidden: token=abc" := by
  refine (denial_masked_iff _ (by decide +kernel)).mpr (.inl (.inl ?_))
  decide +kernel

/-- A denial that is logged with its token. -/
theorem denial_logged :
    classifyGrpcStreamError "PermissionDenied: token=abc" = .authDenied ∧
      ¬ Fixed "PermissionDenied: token=abc" := by
  have hd : classifyGrpcStreamError "PermissionDenied: token=abc" = .authDenied := by
    decide +kernel
  refine ⟨hd, ?_⟩
  intro h
  refine unmasked_not_fixed hd ?_ h.text
  intro hm
  exact absurd hm.status (by decide +kernel)

end FeedMux.Upstream
