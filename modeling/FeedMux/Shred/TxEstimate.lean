import FeedMux.Library.Windows
import FeedMux.Shred.VaultWatch

/-!
# The transaction estimate (`src/shred/vault_watch.rs`)

The estimate counts the windows of 64 bytes that are not all zero, and windows
overlap. So it stays within one transaction for every 64 bytes only if nearly all
of them lie deep in runs of zeros (`estimate_fits_iff`), or if the cap of 256 does.
-/

namespace FeedMux.Shred
open FeedMux.Library

/-- The bytes that are not zero, and at most 63 zeros of each run of zeros. -/
def occupied (bytes : Bytes) : Nat :=
  bytes.countP (· != 0) + ((runLengths (· == 0) bytes).map (min 63)).sum

/-- Few bytes are occupied, or there are so many bytes that the cap is below the bound. -/
def MostlyZero (bytes : Bytes) : Prop :=
  256 * 64 ≤ bytes.length ∨ occupied bytes ≤ 63 + max 1 (bytes.length / 64)

/-- What an estimate of transactions is to satisfy: each needs a block of its own. -/
structure EstimateFits (bytes : Bytes) : Prop where
  atLeast : 1 ≤ VaultWatchSet.countTransactionsEstimate bytes
  atMost : VaultWatchSet.countTransactionsEstimate bytes ≤ max 1 (bytes.length / 64)
  monotone : ∀ more, VaultWatchSet.countTransactionsEstimate bytes ≤
    VaultWatchSet.countTransactionsEstimate (bytes ++ more)

/-- A run of zeros is made of its first 63 and of the zeros that end a window of zeros. -/
theorem sum_runs (runs : List Nat) :
    (runs.map (min 63)).sum + (runs.map (· + 1 - 64)).sum = runs.sum := by
  induction runs with
  | nil => rfl
  | cons run runs ih =>
    simp only [List.map_cons, List.sum_cons]
    omega

/-- Of the windows those of zeros are left out, so the occupied bytes are counted. -/
theorem signatureLikeCount_eq (bytes : Bytes) :
    signatureLikeCount bytes = min 256 (occupied bytes - 63) := by
  have hzeros : (windows 64 bytes).countP (fun w => w.all (· == 0)) =
      ((runLengths (· == 0) bytes).map (· + 1 - 64)).sum :=
    countP_windows (· == 0) (by decide) bytes
  have hsplit := List.length_eq_countP_add_countP (fun w => w.all (· == 0)) (l := windows 64 bytes)
  have hcounted : ((windows 64 bytes).filter fun w => w.any (· != 0)).length =
      (windows 64 bytes).countP fun w => decide ¬ (w.all (· == 0)) = true := by
    rw [← List.countP_eq_length_filter]
    refine List.countP_congr ?_
    intro w _
    simp
  have hlength := length_eq_runs (· == 0) bytes
  have hruns := sum_runs (runLengths (· == 0) bytes)
  rw [length_windows, hzeros, ← hcounted] at hsplit
  rw [signatureLikeCount, List.length_take, occupied]
  change bytes.length = bytes.countP (· != 0) + _ at hlength
  omega

theorem estimate_eq {bytes : Bytes} (h : bytes ≠ []) :
    VaultWatchSet.countTransactionsEstimate bytes = max (signatureLikeCount bytes) 1 := by
  rw [VaultWatchSet.countTransactionsEstimate, if_neg (by simpa using h)]

/-- Appended bytes only add windows. -/
theorem signatureLikeCount_append (bytes more : Bytes) :
    signatureLikeCount bytes ≤ signatureLikeCount (bytes ++ more) := by
  obtain ⟨extra, hextra⟩ := windows_append 64 bytes more
  unfold signatureLikeCount
  rw [hextra, List.filter_append, List.length_take, List.length_take, List.length_append]
  omega

/-- **The estimate.** It fits exactly if the bytes are mostly zero. -/
theorem estimate_fits_iff (bytes : Bytes) (h : bytes ≠ []) :
    EstimateFits bytes ↔ MostlyZero bytes := by
  have hcount := signatureLikeCount_eq bytes
  unfold MostlyZero
  constructor
  · intro hfits
    have hmost := hfits.atMost
    rw [estimate_eq h] at hmost
    omega
  · intro hzero
    constructor
    · rw [estimate_eq h]
      omega
    · rw [estimate_eq h]
      omega
    · intro more
      have hmore : bytes ++ more ≠ [] := by simp [h]
      have hmono := signatureLikeCount_append bytes more
      rw [estimate_eq h, estimate_eq hmore]
      omega

/-- A byte that is not zero, with 128 zeros behind it: two windows hold it, and
there is room for two transactions. -/
def sparseBytes : Bytes := 0 :: 1 :: List.replicate 128 0

theorem estimate_fits_sample :
    EstimateFits sparseBytes ∧ VaultWatchSet.countTransactionsEstimate sparseBytes = 2 :=
  ⟨(estimate_fits_iff sparseBytes (by decide)).mpr (.inr (by decide +kernel)), by decide +kernel⟩

/-- 65 bytes that are not zero hold one signature and count as two. -/
theorem estimate_exceeds :
    List.replicate 65 (7 : UInt8) ≠ [] ∧ ¬ EstimateFits (List.replicate 65 7) := by
  refine ⟨by decide, ?_⟩
  intro h
  exact absurd h.atMost (by decide +kernel)

end FeedMux.Shred
