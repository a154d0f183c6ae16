import FeedMux.Library.Bytes

/-!
# Counting windows

A window whose elements all satisfy a predicate lies in one maximal run of such
elements, and a run of `l` elements has `l + 1 - n` windows of `n`
(`countP_windows`). Appending to a list appends to its windows.
-/

namespace FeedMux.Library

variable {α : Type*}

/-- The lengths of the runs of `p`, also of the empty ones: one more than there
are elements that fail `p`. -/
def runLengths (p : α → Bool) (xs : List α) : List Nat :=
  (xs.splitOnP fun x => !p x).map List.length

theorem runLengths_cons (p : α → Bool) (x : α) (xs : List α) :
    runLengths p (x :: xs) =
      if p x then (runLengths p xs).modifyHead (· + 1) else 0 :: runLengths p xs := by
  unfold runLengths
  rw [List.splitOnP_cons_eq_if_modifyHead]
  cases hp : p x with
  | false => simp
  | true =>
    obtain ⟨run, rest, hruns⟩ :=
      List.exists_cons_of_ne_nil (List.splitOnP_ne_nil (fun x => !p x) xs)
    simp [hruns]

/-- The first run. -/
theorem runLengths_head (p : α → Bool) (xs : List α) :
    ∃ rest, runLengths p xs = (xs.takeWhile p).length :: rest := by
  induction xs with
  | nil => exact ⟨[], rfl⟩
  | cons x xs ih =>
    obtain ⟨rest, hrest⟩ := ih
    rw [runLengths_cons, hrest]
    cases hp : p x with
    | false => simp [hp]
    | true => simp [hp]

/-- Every element is in a run, or fails `p`. -/
theorem length_eq_runs (p : α → Bool) (xs : List α) :
    xs.length = xs.countP (fun x => !p x) + (runLengths p xs).sum := by
  induction xs with
  | nil => rfl
  | cons x xs ih =>
    obtain ⟨rest, hrest⟩ := runLengths_head p xs
    rw [hrest] at ih
    rw [runLengths_cons, hrest, List.length_cons, ih, List.countP_cons]
    cases hp : p x with
    | false =>
      simp
      omega
    | true =>
      simp
      omega

theorem all_take_iff {p : α → Bool} {xs : List α} {n : Nat} (hn : n ≤ xs.length) :
    (xs.take n).all p = true ↔ n ≤ (xs.takeWhile p).length := by
  induction xs generalizing n with
  | nil =>
    obtain rfl : n = 0 := by simpa using hn
    simp
  | cons x xs ih =>
    cases n with
    | zero => simp
    | succ n =>
      have hxs : n ≤ xs.length := by simpa using hn
      rw [List.take_succ_cons, List.all_cons, List.takeWhile_cons]
      cases hp : p x with
      | false => simp
      | true => simp [ih hxs]

/-! ## Windows -/

theorem windows_short {n : Nat} {xs : List α} (h : xs.length < n) : windows n xs = [] := by
  have hzero : xs.length + 1 - n = 0 := by omega
  rw [windows, hzero]
  rfl

theorem windows_cons {n : Nat} {x : α} {xs : List α} (h : n ≤ xs.length + 1) :
    windows n (x :: xs) = (x :: xs).take n :: windows n xs := by
  have hsucc : (x :: xs).length + 1 - n = (xs.length + 1 - n) + 1 := by
    rw [List.length_cons]
    omega
  unfold windows
  rw [hsucc, List.range_succ_eq_map, List.map_cons, List.map_map]
  rfl

@[simp] theorem length_windows (n : Nat) (xs : List α) :
    (windows n xs).length = xs.length + 1 - n := by
  simp [windows]

theorem windows_append (n : Nat) (xs ys : List α) :
    ∃ more, windows n (xs ++ ys) = windows n xs ++ more := by
  obtain ⟨extra, hextra⟩ : ∃ extra, (xs ++ ys).length + 1 - n = (xs.length + 1 - n) + extra := by
    refine ⟨(xs ++ ys).length + 1 - n - (xs.length + 1 - n), ?_⟩
    rw [List.length_append]
    omega
  unfold windows
  rw [hextra, List.range_add, List.map_append]
  refine ⟨_, congrArg (· ++ _) ?_⟩
  refine List.map_congr_left ?_
  intro i hi
  rw [List.mem_range] at hi
  rw [List.drop_append_of_le_length (by omega), List.take_append_of_le_length]
  rw [List.length_drop]
  omega

/-- **Runs and windows.** The windows inside the runs of `p`, run by run. -/
theorem countP_windows (p : α → Bool) {n : Nat} (hn : 0 < n) (xs : List α) :
    (windows n xs).countP (fun w => w.all p) = ((runLengths p xs).map (· + 1 - n)).sum := by
  induction xs with
  | nil =>
    rw [windows_short hn]
    have hruns : runLengths p [] = [0] := rfl
    simp [hruns]
    omega
  | cons x xs ih =>
    obtain ⟨rest, hrest⟩ := runLengths_head p xs
    have hcons := runLengths_cons p x xs
    have hfirst : (windows n (x :: xs)).countP (fun w => w.all p) =
        (windows n xs).countP (fun w => w.all p) +
          if n ≤ ((x :: xs).takeWhile p).length then 1 else 0 := by
      by_cases hlong : n ≤ xs.length + 1
      · rw [windows_cons hlong, List.countP_cons]
        congr 1
        have hall : ((x :: xs).take n).all p = true ↔ n ≤ ((x :: xs).takeWhile p).length :=
          all_take_iff hlong
        simp only [hall]
      · have hle := (List.takeWhile_sublist (l := x :: xs) p).length_le
        rw [List.length_cons] at hle
        rw [windows_short (by rw [List.length_cons]; omega), windows_short (by omega),
          if_neg (by omega)]
        rfl
    rw [hfirst, ih, hcons, hrest]
    cases hp : p x with
    | false =>
      have hne : n ≠ 0 := by omega
      simp [hp, hne]
      omega
    | true =>
      simp [hp]
      split <;> omega

end FeedMux.Library
