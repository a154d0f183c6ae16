import FeedMux.Library.TokenBucket
import FeedMux.WsReconnect

/-!
# Rate limits of the upstreams (`src/rate_limit.rs`)

The limiter is `governor`'s, taken as a parameter (`Governor`) that is assumed
to answer like a token bucket. The code sets the burst to the configured rate
but always refills one cell a second. `rate_delivered_iff` says what follows:
the configured rate is delivered exactly when it is one request a second.
-/

namespace FeedMux
open FeedMux.Library

abbrev NonZeroU32 := {n : UInt32 // n ≠ 0}

def NonZeroU32.new (n : UInt32) : Option NonZeroU32 := if h : n ≠ 0 then some ⟨n, h⟩ else none

structure Quota where
  replenishOnePer : Duration
  maxBurst : NonZeroU32

namespace Quota

/-- Without a burst allowance the burst is a single cell. -/
def withPeriod (replenishOnePer : Duration) : Option Quota :=
  if replenishOnePer.val = 0 then none else some ⟨replenishOnePer, ⟨1, by decide⟩⟩

def allowBurst (quota : Quota) (maxBurst : NonZeroU32) : Quota := { quota with maxBurst }

end Quota

/-- The `governor` crate. Times are in nanoseconds from the limiter's creation. -/
structure Governor where
  Limiter : Type
  direct : Quota → Limiter
  check : Limiter → Nat → Limiter × Bool

/-- A limiter answers like a bucket that is full at first, as long as its clock
does not go back. -/
def Governor.IsBucket (governor : Governor) : Prop :=
  ∀ (quota : Quota) (times : List Nat), times.Pairwise (· ≤ ·) →
    (runs governor.check (governor.direct quota) times).2 =
      (runs Bucket.take (.full quota.maxBurst.val.toNat quota.replenishOnePer.val) times).2

structure UpstreamRateLimiter (governor : Governor) where
  inner : governor.Limiter
  label : String

namespace UpstreamRateLimiter
variable {governor : Governor}

def new (governor : Governor) (label : String) (requestsPerSecond : UInt32) :
    UpstreamRateLimiter governor :=
  let rps := max requestsPerSecond 1
  let quota := (Quota.withPeriod (.fromSecs 1)).get (by decide)
  { inner := governor.direct (quota.allowBurst ((NonZeroU32.new rps).getD ⟨1, by decide⟩))
    label }

def tryAcquire (limiter : UpstreamRateLimiter governor) (now : Nat) :
    UpstreamRateLimiter governor × Bool :=
  let (inner, allowed) := governor.check limiter.inner now
  ({ limiter with inner }, allowed)

/-- The calls at these times, with their answers. -/
def answers (limiter : UpstreamRateLimiter governor) (times : List Nat) : GrantLog :=
  times.zip (runs tryAcquire limiter times).2

/-- One second, in nanoseconds. -/
def second : Nat := 10 ^ 9

/-- At every instant of the window the caller asks on until it is refused. -/
def NeverLetsUp (log : GrantLog) (window : Set Nat) : Prop := ∀ t ∈ window, (t, false) ∈ log

/-- What a limit of `rps` requests a second promises for windows of whole seconds. -/
structure DeliversRate (limiter : UpstreamRateLimiter governor) (rps : Nat) : Prop where
  atMost : ∀ times : List Nat, times.Pairwise (· ≤ ·) → ∀ start n : Nat,
    grantsIn (limiter.answers times) (Set.Icc start (start + n * second)) ≤ rps * (n + 1)
  atLeast : ∀ times : List Nat, times.Pairwise (· ≤ ·) → ∀ start n : Nat,
    NeverLetsUp (limiter.answers times) (Set.Ico start (start + n * second)) →
      rps * n ≤ grantsIn (limiter.answers times) (Set.Ico start (start + n * second))

/-! ## The limiter is a bucket -/

theorem runs_tryAcquire (limiter : UpstreamRateLimiter governor) (times : List Nat) :
    (runs tryAcquire limiter times).2 = (runs governor.check limiter.inner times).2 := by
  induction times generalizing limiter with
  | nil => rfl
  | cons t times ih =>
    rw [runs_cons, runs_cons]
    exact congrArg _ (ih _)

/-- The burst is the configured rate, the refill one cell a second. -/
theorem answers_eq_log (hg : governor.IsBucket) (label : String) {rps : UInt32} (hr : 1 ≤ rps)
    {times : List Nat} (hs : times.Pairwise (· ≤ ·)) :
    (new governor label rps).answers times = (Bucket.full rps.toNat second).log times := by
  have hpos : 1 ≤ rps.toNat := UInt32.le_iff_toNat_le.mp hr
  have hmax : max rps 1 = rps := by
    show (if rps ≤ 1 then 1 else rps) = rps
    split
    · exact UInt32.le_antisymm hr ‹_›
    · rfl
  have hne : rps ≠ 0 := by
    rintro rfl
    exact absurd hpos (by decide)
  have hburst : (NonZeroU32.new (max rps 1)).getD ⟨1, by decide⟩ = ⟨rps, hne⟩ := by
    rw [hmax, NonZeroU32.new, dif_pos hne]
    rfl
  unfold answers Bucket.log
  rw [runs_tryAcquire]
  unfold new
  simp only [hburst]
  rw [hg _ _ hs]
  rfl

/-! ## Sustained demand -/

/-- Ask `k` times at every instant before `stop`. -/
def busy (stop k : Nat) : List Nat := (List.range stop).flatMap fun t => List.replicate k t

theorem busy_sorted (stop k : Nat) : (busy stop k).Pairwise (· ≤ ·) := by
  unfold busy
  rw [List.pairwise_flatMap]
  refine ⟨fun t _ => List.pairwise_replicate.mpr (.inr (le_refl t)), ?_⟩
  refine List.pairwise_lt_range.imp ?_
  intro t u htu x hx y hy
  rw [List.eq_of_mem_replicate hx, List.eq_of_mem_replicate hy]
  exact le_of_lt htu

theorem busy_count {stop t : Nat} (k : Nat) (ht : t < stop) : k ≤ (busy stop k).count t := by
  have hsub : (List.replicate k t).Sublist (busy stop k) := by
    obtain ⟨pre, post, hsplit⟩ := List.append_of_mem (List.mem_range.mpr ht)
    rw [busy, hsplit, List.flatMap_append, List.flatMap_cons]
    exact (List.sublist_append_left ..).trans (List.sublist_append_right ..)
  simpa using hsub.count_le t

/-- In the first three seconds the burst is spent and three cells come back. -/
theorem not_delivers (hg : governor.IsBucket) (label : String) {rps : UInt32} (hr : 1 < rps) :
    ¬ DeliversRate (new governor label rps) rps.toNat := by
  intro h
  have htwo : 1 < rps.toNat := UInt32.lt_iff_toNat_lt.mp hr
  have hs := busy_sorted (3 * second) (rps.toNat + 4)
  have hlog := answers_eq_log hg label (UInt32.le_of_lt hr) hs
  have hwindow := Bucket.grants_window (b := .full rps.toNat second) hs
    (fun t _ => Nat.zero_le t) 0 (3 * second)
  have hmost : grantsIn ((Bucket.full rps.toNat second).log (busy (3 * second) (rps.toNat + 4)))
      (Set.Icc 0 (3 * second)) ≤ rps.toNat + 3 := by
    have hsec : 0 < second := by decide
    rw [Nat.sub_zero, ← Nat.add_mul] at hwindow
    exact Nat.le_of_mul_le_mul_right hwindow hsec
  have hshort := (grantsIn_mono _ Set.Ico_subset_Icc_self).trans hmost
  have hdemand : NeverLetsUp ((Bucket.full rps.toNat second).log
      (busy (3 * second) (rps.toNat + 4))) (Set.Ico 0 (0 + 3 * second)) := by
    intro t ht
    by_contra hno
    rw [Nat.zero_add] at ht
    have hall := grants_all ht hno
    rw [Bucket.log_times] at hall
    have hcount := busy_count (rps.toNat + 4) ht.2
    omega
  have hleast := h.atLeast _ hs 0 3
  rw [hlog] at hleast
  have hfew := hleast hdemand
  rw [Nat.zero_add] at hfew
  omega

/-- **The rate.** Of all configured rates exactly one a second is delivered. -/
theorem rate_delivered_iff (governor : Governor) (hg : governor.IsBucket) (label : String)
    (rps : UInt32) (hr : 1 ≤ rps) :
    DeliversRate (new governor label rps) rps.toNat ↔ rps = 1 := by
  constructor
  · intro h
    by_contra hne
    exact not_delivers hg label (UInt32.lt_of_le_of_ne hr (Ne.symm hne)) h
  · rintro rfl
    have hone : (1 : UInt32).toNat = 1 := rfl
    have hsec : 0 < second := by decide
    constructor
    · intro times hs start n
      rw [answers_eq_log hg label hr hs, hone]
      have hwindow := Bucket.grants_window (b := .full 1 second) hs (fun t _ => Nat.zero_le t)
        start (start + n * second)
      rw [Nat.add_sub_cancel_left, ← Nat.add_mul] at hwindow
      have hle := Nat.le_of_mul_le_mul_right hwindow hsec
      omega
    · intro times hs start n hdemand
      rw [answers_eq_log hg label hr hs, hone] at hdemand ⊢
      rw [Nat.one_mul]
      refine Bucket.grants_often Nat.one_pos hsec hs start n ?_
      intro k hk
      have hle : (k + 1) * second ≤ n * second := Nat.mul_le_mul_right _ hk
      rw [Nat.succ_mul] at hle
      exact Bucket.mem_times_of_mem_log (hdemand _ ⟨by omega, by omega⟩)

/-! The bucket itself is such a crate. -/

def bucketGovernor : Governor where
  Limiter := (quota : Quota) × Bucket quota.maxBurst.val.toNat quota.replenishOnePer.val
  direct quota := ⟨quota, .full ..⟩
  check limiter now :=
    let (bucket, allowed) := limiter.2.take now
    (⟨limiter.1, bucket⟩, allowed)

theorem bucketGovernor_runs (quota : Quota)
    (bucket : Bucket quota.maxBurst.val.toNat quota.replenishOnePer.val) (times : List Nat) :
    (runs bucketGovernor.check ⟨quota, bucket⟩ times).2 = (runs Bucket.take bucket times).2 := by
  induction times generalizing bucket with
  | nil => rfl
  | cons t times ih => exact congrArg ((bucket.take t).2 :: ·) (ih (bucket.take t).1)

theorem bucketGovernor_isBucket : bucketGovernor.IsBucket :=
  fun quota times _ => bucketGovernor_runs quota _ times

/-- The rate of 30 that the README has for Titan is not delivered; `Config` defaults
to 15. -/
theorem rate_delivered_sample :
    DeliversRate (new bucketGovernor "titan_ws" 1) 1 ∧
      ¬ DeliversRate (new bucketGovernor "titan_ws" 30) 30 :=
  ⟨(rate_delivered_iff bucketGovernor bucketGovernor_isBucket "titan_ws" 1 (by decide)).mpr rfl,
    mt (rate_delivered_iff bucketGovernor bucketGovernor_isBucket "titan_ws" 30 (by decide)).mp
      (by decide)⟩

/-- Neither is the README's 50 for Triton, where `Config` defaults to 25. -/
theorem documented_rate_not_delivered :
    ¬ DeliversRate (new bucketGovernor "triton_grpc" 50) 50 :=
  not_delivers bucketGovernor_isBucket "triton_grpc" (by decide)

end UpstreamRateLimiter

end FeedMux
