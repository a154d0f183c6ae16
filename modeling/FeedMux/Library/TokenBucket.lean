import FeedMux.Library.Run

/-!
# Token buckets

A bucket of `capacity` cells starts full and regains one cell every `period`.
Its credit is counted in units of time, so that a cell is worth `period`. In a
window of `n` periods a bucket grants at most `capacity + n` requests, whatever
the schedule (`grants_window`), and at least `n` if requests come often enough
(`grants_often`). It refuses only a caller that was granted a bucketful in the
time it takes to fill one (`refused_busy`). What is granted may take place later:
that brings at most one more into a window (`countP_ends_le`).
-/

namespace FeedMux.Library

/-- A log pairs the time of every request with its answer. -/
abbrev GrantLog := List (Nat × Bool)

/-- The requests that are granted in a window. -/
def grantsIn (log : GrantLog) (window : Set Nat) [DecidablePred (· ∈ window)] : Nat :=
  log.countP fun e => e.2 && decide (e.1 ∈ window)

theorem grantsIn_cons (e : Nat × Bool) (log : GrantLog) (window : Set Nat)
    [DecidablePred (· ∈ window)] :
    grantsIn (e :: log) window =
      grantsIn log window + if e.2 = true ∧ e.1 ∈ window then 1 else 0 := by
  simp [grantsIn, List.countP_cons]

theorem grantsIn_pos {log : GrantLog} {window : Set Nat} [DecidablePred (· ∈ window)] :
    0 < grantsIn log window ↔ ∃ t ∈ window, (t, true) ∈ log := by
  rw [grantsIn, List.countP_pos_iff]
  constructor
  · rintro ⟨⟨t, ok⟩, hm, h⟩
    simp only [Bool.and_eq_true, decide_eq_true_eq] at h
    obtain ⟨rfl, ht⟩ := h
    exact ⟨t, ht, hm⟩
  · rintro ⟨t, ht, hm⟩
    exact ⟨(t, true), hm, by simp [ht]⟩

/-- Two windows side by side. -/
theorem grantsIn_split (log : GrantLog) {a b c : Nat} (hab : a ≤ b) (hbc : b ≤ c) :
    grantsIn log (Set.Ico a c) = grantsIn log (Set.Ico a b) + grantsIn log (Set.Ico b c) := by
  induction log with
  | nil => rfl
  | cons e log ih =>
    simp only [grantsIn_cons, ih, Set.mem_Ico]
    by_cases hok : e.2 = true
    · simp only [hok, true_and]
      split <;> split <;> split <;> omega
    · simp [hok]

theorem grantsIn_mono (log : GrantLog) {window wider : Set Nat} [DecidablePred (· ∈ window)]
    [DecidablePred (· ∈ wider)] (h : window ⊆ wider) :
    grantsIn log window ≤ grantsIn log wider := by
  refine List.countP_mono_left ?_
  intro e _ he
  simp only [Bool.and_eq_true, decide_eq_true_eq] at he ⊢
  exact ⟨he.1, h he.2⟩

/-- Where no request is refused, all are granted. -/
theorem grants_all {log : GrantLog} {window : Set Nat} [DecidablePred (· ∈ window)] {t : Nat}
    (ht : t ∈ window) (h : (t, false) ∉ log) :
    (log.map Prod.fst).count t ≤ grantsIn log window := by
  rw [List.count, List.countP_map]
  refine List.countP_mono_left ?_
  rintro ⟨u, ok⟩ hm hu
  obtain rfl : u = t := by simpa using hu
  cases ok with
  | false => exact absurd hm h
  | true => simp [ht]

/-- **Late users.** What takes place some time after its grant, one after the
other, can only bring one more into a window than is granted in it: the first,
which may have been granted before. -/
theorem countP_ends_le {α : Type*} {spans : List α} {p : α → Bool} {begins ends : α → Nat}
    (hspan : ∀ x ∈ spans, p x = true → begins x ≤ ends x)
    (hturn : spans.Pairwise fun x y => p x = true → p y = true → ends x ≤ begins y)
    (start stop : Nat) :
    spans.countP (fun x => p x && decide (ends x ∈ Set.Icc start stop)) ≤
      spans.countP (fun x => p x && decide (begins x ∈ Set.Icc start stop)) + 1 := by
  induction spans with
  | nil => simp
  | cons x spans ih =>
    obtain ⟨hx, hturn'⟩ := List.pairwise_cons.mp hturn
    have hspan' := fun y hy => hspan y (List.mem_cons_of_mem x hy)
    rw [List.countP_cons, List.countP_cons]
    by_cases hfirst : (p x && decide (ends x ∈ Set.Icc start stop)) = true
    · -- Whatever comes later is granted when `x` is over, thus in the window.
      simp only [Bool.and_eq_true, decide_eq_true_eq] at hfirst
      have hlater : spans.countP (fun y => p y && decide (ends y ∈ Set.Icc start stop)) ≤
          spans.countP (fun y => p y && decide (begins y ∈ Set.Icc start stop)) := by
        refine List.countP_mono_left ?_
        intro y hy h
        simp only [Bool.and_eq_true, decide_eq_true_eq] at h ⊢
        have hafter := hx y hy hfirst.1 h.1
        have hends := hspan' y hy h.1
        exact ⟨h.1, hfirst.2.1.trans hafter, hends.trans h.2.2⟩
      split <;> omega
    · rw [if_neg hfirst]
      have hrest := ih hspan' hturn'
      omega

structure Bucket (capacity period : Nat) where
  credit : Nat
  last : Nat
  credit_le : credit ≤ capacity * period

namespace Bucket
variable {c p : Nat}

def full (c p : Nat) : Bucket c p := ⟨c * p, 0, le_refl _⟩

def refill (b : Bucket c p) (now : Nat) : Bucket c p :=
  ⟨min (b.credit + (now - b.last)) (c * p), now, Nat.min_le_right ..⟩

/-- A request takes a cell if there is one. -/
def take (b : Bucket c p) (now : Nat) : Bucket c p × Bool :=
  let filled := b.refill now
  if p ≤ filled.credit then
    (⟨filled.credit - p, now, (Nat.sub_le ..).trans filled.credit_le⟩, true)
  else (filled, false)

/-- The requests at these times, with the bucket's answers. -/
def log (b : Bucket c p) (times : List Nat) : GrantLog := times.zip (runs take b times).2

@[simp] theorem log_nil (b : Bucket c p) : b.log [] = [] := rfl

@[simp] theorem log_cons (b : Bucket c p) (t : Nat) (times : List Nat) :
    b.log (t :: times) = (t, (b.take t).2) :: (b.take t).1.log times := rfl

theorem log_times (b : Bucket c p) (times : List Nat) : (b.log times).map Prod.fst = times :=
  List.map_fst_zip (by simp)

theorem mem_times_of_mem_log {b : Bucket c p} {times : List Nat} {e : Nat × Bool}
    (h : e ∈ b.log times) : e.1 ∈ times := (List.of_mem_zip h).1

/-! ## One request -/

theorem take_last (b : Bucket c p) (now : Nat) : (b.take now).1.last = now := by
  unfold take
  simp only
  split <;> rfl

/-- A granted request costs a cell; a refused one found less than a cell. -/
theorem take_credit (b : Bucket c p) (now : Nat) :
    if (b.take now).2 = true then (b.take now).1.credit + p = (b.refill now).credit
    else (b.take now).1.credit = (b.refill now).credit ∧ (b.refill now).credit < p := by
  unfold take
  simp only
  by_cases h : p ≤ (b.refill now).credit
  · simp only [h, ↓reduceIte]
    omega
  · simp only [h, Bool.false_eq_true, ↓reduceIte, true_and]
    omega

theorem refill_credit_le (b : Bucket c p) (now : Nat) :
    (b.refill now).credit ≤ b.credit + (now - b.last) := Nat.min_le_left ..

/-- Refilling twice at one time is refilling once. -/
theorem take_refill (b : Bucket c p) (now : Nat) : (b.refill now).take now = b.take now := by
  have h : (b.refill now).refill now = b.refill now := by
    have hc := (b.refill now).credit_le
    unfold refill at hc ⊢
    simp only [Bucket.mk.injEq, and_true] at hc ⊢
    omega
  unfold take
  simp only [h]

/-! ## At most -/

/-- No request of a schedule comes before its first. -/
theorem first_le {t : Nat} {times : List Nat} (hs : (t :: times).Pairwise (· ≤ ·)) :
    ∀ u ∈ t :: times, t ≤ u := by
  intro u hu
  rcases List.mem_cons.mp hu with rfl | hu
  · exact le_refl _
  · exact (List.pairwise_cons.mp hs).1 u hu

section
variable {b : Bucket c p} {times : List Nat}

theorem no_grants_after {start stop : Nat} (h : ∀ t ∈ times, stop < t) :
    grantsIn (b.log times) (Set.Icc start stop) = 0 := by
  rw [← Nat.le_zero, ← Nat.not_lt, grantsIn_pos]
  rintro ⟨t, ht, hm⟩
  have hlate := h t (mem_times_of_mem_log hm)
  have hstop := ht.2
  omega

/-- Grants are paid from the credit and from the time that passes. -/
theorem grants_paid (hs : times.Pairwise (· ≤ ·)) (hb : ∀ t ∈ times, b.last ≤ t)
    (start : Nat) {stop : Nat} (hstop : b.last ≤ stop) :
    grantsIn (b.log times) (Set.Icc start stop) * p ≤ b.credit + (stop - b.last) := by
  induction times generalizing b with
  | nil => simp [grantsIn]
  | cons t times ih =>
    obtain ⟨ht, hs'⟩ := List.pairwise_cons.mp hs
    have hbt := hb t List.mem_cons_self
    by_cases hlate : stop < t
    · have hall : ∀ u ∈ t :: times, stop < u :=
        fun u hu => lt_of_lt_of_le hlate (first_le hs u hu)
      rw [no_grants_after hall]
      omega
    · have hrest := ih (b := (b.take t).1) hs' (by rwa [take_last])
        (by rw [take_last]; omega)
      rw [take_last] at hrest
      have hcredit := b.take_credit t
      have hfill := b.refill_credit_le t
      rw [log_cons, grantsIn_cons, Nat.add_mul]
      dsimp only
      by_cases hok : (b.take t).2 = true
      · rw [if_pos hok] at hcredit
        have hone : (if (b.take t).2 = true ∧ t ∈ Set.Icc start stop then 1 else 0) * p ≤ p := by
          split <;> omega
        omega
      · rw [if_neg hok] at hcredit
        simp only [hok, false_and, Bool.false_eq_true, ↓reduceIte, Nat.zero_mul]
        omega

/-- **At most.** A full bucket and the time in the window pay for all grants. -/
theorem grants_window (hs : times.Pairwise (· ≤ ·)) (hb : ∀ t ∈ times, b.last ≤ t)
    (start stop : Nat) :
    grantsIn (b.log times) (Set.Icc start stop) * p ≤ c * p + (stop - start) := by
  induction times generalizing b with
  | nil => simp [grantsIn]
  | cons t times ih =>
    obtain ⟨ht, hs'⟩ := List.pairwise_cons.mp hs
    by_cases hearly : t < start
    · have hrest := ih (b := (b.take t).1) hs' (by rwa [take_last])
      have hout : ¬ (t, (b.take t).2).1 ∈ Set.Icc start stop := by
        intro h
        have := h.1
        omega
      rw [log_cons, grantsIn_cons, if_neg (fun h => hout h.2)]
      exact hrest
    · by_cases hlate : stop < t
      · have hall : ∀ u ∈ t :: times, stop < u :=
          fun u hu => lt_of_lt_of_le hlate (first_le hs u hu)
        rw [no_grants_after hall]
        omega
      · -- The first request in the window finds at most a full bucket.
        have hfrom : b.log (t :: times) = (b.refill t).log (t :: times) := by
          rw [log_cons, log_cons, take_refill]
        have hpaid := grants_paid (b := b.refill t) hs (first_le hs) start (show t ≤ stop by omega)
        have hfull := (b.refill t).credit_le
        have hlast : (b.refill t).last = t := rfl
        rw [hfrom]
        omega

/-! ## At least -/

/-- A request is granted by the time the credit reaches a cell. -/
theorem granted_by (hc : 0 < c) (hs : times.Pairwise (· ≤ ·)) (hb : ∀ t ∈ times, b.last ≤ t)
    {stop : Nat} (hm : stop ∈ times) (hcredit : p ≤ b.credit + (stop - b.last)) :
    ∃ t ≤ stop, (t, true) ∈ b.log times := by
  induction times generalizing b with
  | nil => cases hm
  | cons t times ih =>
    obtain ⟨ht, hs'⟩ := List.pairwise_cons.mp hs
    have hbt := hb t List.mem_cons_self
    have htop : t ≤ stop := first_le hs stop hm
    by_cases hok : (b.take t).2 = true
    · exact ⟨t, htop, by simp [hok]⟩
    · have hstep := b.take_credit t
      rw [if_neg hok] at hstep
      have hcap : p ≤ c * p := Nat.le_mul_of_pos_left p hc
      -- A bucket that refuses is not full, so none of the credit is lost.
      have hkept : (b.refill t).credit = b.credit + (t - b.last) := by
        have h : (b.refill t).credit = min (b.credit + (t - b.last)) (c * p) := rfl
        omega
      have hne : stop ≠ t := by
        rintro rfl
        omega
      obtain ⟨u, hu, hlog⟩ := ih (b := (b.take t).1) hs' (by rwa [take_last])
        ((List.mem_cons.mp hm).resolve_left hne) (by rw [take_last]; omega)
      exact ⟨u, hu, by rw [log_cons]; exact List.mem_cons_of_mem _ hlog⟩

/-- One period with a request at its last instant has a grant. -/
theorem granted_within (hc : 0 < c) (hp : 0 < p) (hs : times.Pairwise (· ≤ ·))
    (hb : ∀ t ∈ times, b.last ≤ t) (start : Nat) (hready : b.last < start ∨ p ≤ b.credit)
    (hm : start + p - 1 ∈ times) : 0 < grantsIn (b.log times) (Set.Ico start (start + p)) := by
  induction times generalizing b with
  | nil => cases hm
  | cons t times ih =>
    obtain ⟨ht, hs'⟩ := List.pairwise_cons.mp hs
    by_cases hearly : t < start
    · have hrest := ih (b := (b.take t).1) hs' (by rwa [take_last])
        (by rw [take_last]; exact .inl hearly)
        ((List.mem_cons.mp hm).resolve_left (by omega))
      rw [log_cons, grantsIn_cons]
      omega
    · obtain ⟨u, hu, hlog⟩ := granted_by hc hs hb hm (by omega)
      have htu : t ≤ u := first_le hs u (mem_times_of_mem_log hlog)
      exact grantsIn_pos.mpr ⟨u, ⟨by omega, by omega⟩, hlog⟩

end

/-- **At least.** Periods that all have a request at their last instant. -/
theorem grants_often (hc : 0 < c) (hp : 0 < p) {times : List Nat} (hs : times.Pairwise (· ≤ ·))
    (start n : Nat) (hm : ∀ k < n, start + k * p + p - 1 ∈ times) :
    n ≤ grantsIn ((full c p).log times) (Set.Ico start (start + n * p)) := by
  induction n with
  | zero => omega
  | succ n ih =>
    have hbefore := ih fun k hk => hm k (by omega)
    have hlast := granted_within (b := full c p) hc hp hs (fun t _ => Nat.zero_le t)
      (start + n * p) (.inr (Nat.le_mul_of_pos_left p hc)) (hm n (by omega))
    have hsum : start + (n + 1) * p = start + n * p + p := by
      rw [Nat.succ_mul]
      omega
    rw [hsum, grantsIn_split _ (Nat.le_add_right start (n * p)) (Nat.le_add_right _ p)]
    omega

/-! ## Refusals -/

section
variable {b : Bucket c p} {times : List Nat}

/-- A refusal is paid for: what was there and what came in are spent, but for
less than a cell. -/
theorem refused_spent (hs : times.Pairwise (· ≤ ·)) {start t : Nat}
    (hstart : ∀ u ∈ times, start ≤ u) (h : (t, false) ∈ b.log times) :
    min (c * p) (b.credit + (t - b.last)) <
      grantsIn (b.log times) (Set.Icc start t) * p + p := by
  induction times generalizing b with
  | nil => cases h
  | cons u times ih =>
    obtain ⟨hu, hs'⟩ := List.pairwise_cons.mp hs
    have hstep := b.take_credit u
    have hfill : (b.refill u).credit = min (b.credit + (u - b.last)) (c * p) := rfl
    rw [log_cons] at h ⊢
    rw [grantsIn_cons, Nat.add_mul]
    dsimp only
    rcases List.mem_cons.mp h with he | h
    · obtain ⟨rfl, hok⟩ := Prod.mk.inj he
      rw [← hok] at hstep
      simp only [Bool.false_eq_true, ↓reduceIte] at hstep
      omega
    · have hut : u ≤ t := hu t (mem_times_of_mem_log h)
      have hrest := ih hs' (fun v hv => hstart v (List.mem_cons_of_mem _ hv)) h
      rw [take_last] at hrest
      by_cases hok : (b.take u).2 = true
      · rw [if_pos hok] at hstep
        rw [if_pos ⟨hok, hstart u List.mem_cons_self, hut⟩, Nat.one_mul]
        omega
      · rw [if_neg hok] at hstep
        rw [if_neg fun hg => hok hg.1, Nat.zero_mul]
        omega

/-- **Refusals.** Only a caller that was granted a bucketful in the time that it
takes to fill one is refused. -/
theorem refused_busy (hs : times.Pairwise (· ≤ ·)) {t : Nat} (hlast : b.last ≤ t - c * p)
    (hcredit : c * p ≤ b.credit + (t - b.last))
    (h : (t, false) ∈ b.log times) :
    c ≤ grantsIn (b.log times) (Set.Icc (t - c * p) t) := by
  have hall : ∀ {b : Bucket c p} {times : List Nat}, times.Pairwise (· ≤ ·) →
      (∀ u ∈ times, t - c * p ≤ u) → c * p ≤ b.credit + (t - b.last) →
      (t, false) ∈ b.log times → c ≤ grantsIn (b.log times) (Set.Icc (t - c * p) t) := by
    intro b times hs hlate hcredit h
    have hspent := refused_spent hs hlate h
    rw [min_eq_left hcredit, ← Nat.succ_mul] at hspent
    exact Nat.lt_succ_iff.mp (Nat.lt_of_mul_lt_mul_right hspent)
  induction times generalizing b with
  | nil => cases h
  | cons u times ih =>
    obtain ⟨hu, hs'⟩ := List.pairwise_cons.mp hs
    by_cases hearly : u < t - c * p
    · rw [log_cons] at h ⊢
      have hrest : (t, false) ∈ (b.take u).1.log times := by
        rcases List.mem_cons.mp h with he | h
        · obtain ⟨rfl, -⟩ := Prod.mk.inj he
          omega
        · exact h
      rw [grantsIn_cons]
      have hih := ih (b := (b.take u).1) hs' (by rw [take_last]; omega)
        (by rw [take_last]; omega) hrest
      omega
    · exact hall hs (fun v hv => (Nat.le_of_not_lt hearly).trans (first_le hs v hv)) hcredit h

end

theorem full_refused_busy {times : List Nat} (hs : times.Pairwise (· ≤ ·)) {t : Nat}
    (h : (t, false) ∈ (full c p).log times) :
    c ≤ grantsIn ((full c p).log times) (Set.Icc (t - c * p) t) :=
  refused_busy hs (Nat.zero_le _) (Nat.le_add_right ..) h

end Bucket

end FeedMux.Library
