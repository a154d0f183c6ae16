import Mathlib

/-!
# Numerals with leading zeros

A numeral is a list of digits, most significant first. It is given by its
leading zeros and its value (`write_zeros_value`), so that changing the base and
keeping both loses nothing (`rebase_rebase`).
-/

namespace FeedMux.Library

/-- Digits in base `b`, most significant first. -/
@[ext] structure Numeral (b : Nat) where
  digits : List Nat
  lt_base : ∀ d ∈ digits, d < b

namespace Numeral

variable {a b : Nat}

def zeros (n : Numeral b) : Nat := (n.digits.takeWhile (· == 0)).length

def value (n : Numeral b) : Nat := Nat.ofDigits b n.digits.reverse

/-- The numeral with these leading zeros and this value. -/
def write (hb : 1 < b) (zeros value : Nat) : Numeral b where
  digits := List.replicate zeros 0 ++ (Nat.digits b value).reverse
  lt_base := by
    intro d hd
    rcases List.mem_append.mp hd with hz | hv
    · obtain rfl := List.eq_of_mem_replicate hz
      omega
    · exact Nat.digits_lt_base hb (List.mem_reverse.mp hv)

theorem takeWhile_digits_reverse (b value : Nat) :
    (Nat.digits b value).reverse.takeWhile (· == 0) = [] := by
  rw [List.takeWhile_eq_nil_iff]
  intro hlen hzero
  have hne : value ≠ 0 := by
    rintro rfl
    simp at hlen
  refine Nat.getLast_digit_ne_zero b hne ?_
  rw [List.getLast_eq_getElem]
  simpa using hzero

theorem zeros_write (hb : 1 < b) (zeros value : Nat) : (write hb zeros value).zeros = zeros := by
  have hall : ∀ d ∈ List.replicate zeros 0, (d == 0) = true := by
    intro d hd
    rw [List.eq_of_mem_replicate hd]
    rfl
  rw [Numeral.zeros, write, List.takeWhile_append_of_pos hall, takeWhile_digits_reverse,
    List.append_nil, List.length_replicate]

theorem value_write (hb : 1 < b) (zeros value : Nat) : (write hb zeros value).value = value := by
  rw [Numeral.value, write, List.reverse_append, List.reverse_reverse, List.reverse_replicate,
    Nat.ofDigits_append_replicate_zero, Nat.ofDigits_digits]

/-- A numeral is its leading zeros, and the rest. -/
theorem digits_eq (n : Numeral b) :
    n.digits = List.replicate n.zeros 0 ++ n.digits.dropWhile (· == 0) := by
  have hzeros : n.digits.takeWhile (· == 0) = List.replicate n.zeros 0 := by
    refine List.eq_replicate_iff.mpr ⟨rfl, ?_⟩
    intro d hd
    simpa using List.mem_takeWhile_imp hd
  rw [← hzeros, List.takeWhile_append_dropWhile]

theorem write_zeros_value (hb : 1 < b) (n : Numeral b) : write hb n.zeros n.value = n := by
  have hvalue : n.value = Nat.ofDigits b (n.digits.dropWhile (· == 0)).reverse := by
    rw [Numeral.value, n.digits_eq, List.reverse_append, List.reverse_replicate,
      Nat.ofDigits_append_replicate_zero, ← n.digits_eq]
  have hlt : ∀ d ∈ (n.digits.dropWhile (· == 0)).reverse, d < b := by
    intro d hd
    exact n.lt_base d ((List.dropWhile_sublist _).subset (List.mem_reverse.mp hd))
  have hlast : ∀ h : (n.digits.dropWhile (· == 0)).reverse ≠ [],
      (n.digits.dropWhile (· == 0)).reverse.getLast h ≠ 0 := by
    intro h hzero
    rw [List.getLast_reverse] at hzero
    have hhead := List.head_dropWhile_not (· == 0) (by simpa using h)
    rw [hzero] at hhead
    cases hhead
  have hdigits : (Nat.digits b n.value).reverse = n.digits.dropWhile (· == 0) := by
    rw [hvalue, Nat.digits_ofDigits b hb _ hlt hlast, List.reverse_reverse]
  ext1
  calc List.replicate n.zeros 0 ++ (Nat.digits b n.value).reverse
      = List.replicate n.zeros 0 ++ n.digits.dropWhile (· == 0) := by rw [hdigits]
    _ = n.digits := n.digits_eq.symm

/-! ## Another base -/

def rebase (hb : 1 < b) (n : Numeral a) : Numeral b := write hb n.zeros n.value

theorem rebase_rebase (ha : 1 < a) (hb : 1 < b) (n : Numeral a) :
    (n.rebase hb).rebase ha = n := by
  rw [rebase, rebase, zeros_write, value_write, write_zeros_value]

end Numeral

/-! ## Reading item by item -/

theorem mapM_eq_some_iff {α β : Type*} {f : α → Option β} {l : List α} {m : List β} :
    l.mapM f = some m ↔ List.Forall₂ (fun x y => f x = some y) l m := by
  induction l generalizing m with
  | nil =>
    rw [List.mapM_nil, List.forall₂_nil_left_iff]
    exact ⟨fun h => (Option.some.inj h).symm, fun h => by rw [h]; rfl⟩
  | cons x l ih =>
    rw [List.mapM_cons, List.forall₂_cons_left_iff]
    constructor
    · intro h
      obtain ⟨y, hy, hrest⟩ := Option.bind_eq_some_iff.mp h
      obtain ⟨ys, hys, hm⟩ := Option.bind_eq_some_iff.mp hrest
      exact ⟨y, ys, hy, ih.mp hys, (Option.some.inj hm).symm⟩
    · rintro ⟨y, ys, hy, hys, rfl⟩
      rw [hy, ih.mpr hys]
      rfl

end FeedMux.Library
