import FeedMux.WsReconnect

/-!
# The delays of a backoff (`src/ws_reconnect.rs`)

Neither the clamps of `new` nor the saturation of the doubling show in the
delay: after any calls it is the initial delay, doubled once for every wait
since the last reset and cut at the maximum (`delay_closed_form`).
-/

namespace FeedMux.ReconnectBackoff

/-- What a loop does with its backoff. -/
inductive Call where
  | wait
  | reset
  deriving DecidableEq

def call (b : ReconnectBackoff) : Call → ReconnectBackoff
  | .wait => b.wait
  | .reset => b.reset

def after (b : ReconnectBackoff) (calls : List Call) : ReconnectBackoff := calls.foldl call b

/-- The number of waits since the last reset, or since the start. -/
def waitsSince (calls : List Call) : Nat := (calls.rtakeWhile (· == .wait)).length

theorem after_concat (b : ReconnectBackoff) (calls : List Call) (c : Call) :
    b.after (calls ++ [c]) = (b.after calls).call c := by
  simp [after]

theorem waitsSince_wait (calls : List Call) :
    waitsSince (calls ++ [.wait]) = waitsSince calls + 1 := by
  simp [waitsSince]

theorem waitsSince_reset (calls : List Call) : waitsSince (calls ++ [.reset]) = 0 := by
  simp [waitsSince]

/-- The doubling saturates above every maximum. -/
theorem wait_delay (b : ReconnectBackoff) :
    b.wait.nextDelay.val = min (b.nextDelay.val * 2) b.max.val := by
  have hmax := b.max.property
  have hmin : b.wait.nextDelay.val = min (min (b.current.val * 2) durationMaxNanos) b.max.val := rfl
  rw [hmin, nextDelay]
  omega

/-- A backoff with these bounds that has waited `k` times since its last reset. -/
structure Doubled (low high k : Nat) (b : ReconnectBackoff) : Prop where
  initial : b.initial.val = low
  max : b.max.val = high
  delay : b.nextDelay.val = min (low * 2 ^ k) high

theorem Doubled.wait {low high k : Nat} {b : ReconnectBackoff} (h : Doubled low high k b) :
    Doubled low high (k + 1) b.wait := by
  refine ⟨h.initial, h.max, ?_⟩
  rw [wait_delay, h.delay, h.max, Nat.pow_succ, ← Nat.mul_assoc]
  omega

theorem Doubled.reset {low high k : Nat} {b : ReconnectBackoff} (h : Doubled low high k b) :
    Doubled low high 0 b.reset := by
  refine ⟨h.initial, h.max, ?_⟩
  have hle : b.initial.val ≤ b.max.val := b.initial_le_current.trans b.current_le_max
  rw [h.initial, h.max] at hle
  have hdelay : b.reset.nextDelay.val = b.initial.val := rfl
  rw [hdelay, h.initial, Nat.pow_zero, Nat.mul_one]
  omega

/-- The bounds that `new` lets through, in nanoseconds. -/
def clampedInitial (initial : Duration) : Nat := Max.max initial.val (10 ^ 6)

def clampedMax (initial max : Duration) : Nat := Max.max max.val (clampedInitial initial)

theorem val_max (d e : Duration) : (Max.max d e).val = Max.max d.val e.val := by
  rcases le_total d e with h | h
  · rw [max_eq_right h, max_eq_right (show d.val ≤ e.val from h)]
  · rw [max_eq_left h, max_eq_left (show e.val ≤ d.val from h)]

theorem doubled_new (initial max : Duration) :
    Doubled (clampedInitial initial) (clampedMax initial max) 0 (new initial max) := by
  have hlow : (new initial max).initial.val = clampedInitial initial := val_max _ _
  have hhigh : (new initial max).max.val = clampedMax initial max := by
    rw [clampedMax, ← hlow]
    exact val_max _ _
  refine ⟨hlow, hhigh, ?_⟩
  have hdelay : (new initial max).nextDelay.val = (new initial max).initial.val := rfl
  have hle : clampedInitial initial ≤ clampedMax initial max := Nat.le_max_right ..
  rw [hdelay, hlow, Nat.pow_zero, Nat.mul_one]
  omega

theorem doubled_after (initial max : Duration) (calls : List Call) :
    Doubled (clampedInitial initial) (clampedMax initial max) (waitsSince calls)
      ((new initial max).after calls) := by
  induction calls using List.reverseRecOn with
  | nil => exact doubled_new initial max
  | append_singleton calls c ih =>
    rw [after_concat]
    cases c with
    | wait =>
      rw [waitsSince_wait]
      exact ih.wait
    | reset =>
      rw [waitsSince_reset]
      exact ih.reset

theorem waitsSince_le {calls more : List Call} (h : .reset ∉ more) :
    waitsSince calls ≤ waitsSince (calls ++ more) := by
  induction more using List.reverseRecOn with
  | nil => rw [List.append_nil]
  | append_singleton more c ih =>
    cases c with
    | wait =>
      have hle := ih fun hm => h (List.mem_append_left _ hm)
      rw [← List.append_assoc, waitsSince_wait]
      omega
    | reset => exact absurd (by simp) h

/-- **Delays.** The closed form, and what follows of it: no delay is zero or
above the maximum, and without a reset no delay is below an earlier one. -/
theorem delay_closed_form (initial max : Duration) (calls : List Call) :
    ((new initial max).after calls).nextDelay.val =
        min (clampedInitial initial * 2 ^ waitsSince calls) (clampedMax initial max) ∧
      0 < ((new initial max).after calls).nextDelay.val ∧
      ((new initial max).after calls).nextDelay.val ≤ clampedMax initial max ∧
      ∀ more, .reset ∉ more →
        ((new initial max).after calls).nextDelay ≤
          ((new initial max).after (calls ++ more)).nextDelay := by
  have h := doubled_after initial max calls
  have hpos : 0 < ((new initial max).after calls).nextDelay.val := by
    have hinitial := ((new initial max).after calls).initial_pos
    have hle : ((new initial max).after calls).initial.val ≤
        ((new initial max).after calls).nextDelay.val :=
      ((new initial max).after calls).initial_le_current
    omega
  refine ⟨h.delay, hpos, ?_, ?_⟩
  · rw [h.delay]
    exact Nat.min_le_right ..
  · intro more hmore
    have hlater := doubled_after initial max (calls ++ more)
    have hpow : clampedInitial initial * 2 ^ waitsSince calls ≤
        clampedInitial initial * 2 ^ waitsSince (calls ++ more) :=
      Nat.mul_le_mul_left _ (Nat.pow_le_pow_right (by omega) (waitsSince_le hmore))
    show ((new initial max).after calls).nextDelay.val ≤
      ((new initial max).after (calls ++ more)).nextDelay.val
    rw [h.delay, hlater.delay]
    omega

end FeedMux.ReconnectBackoff
