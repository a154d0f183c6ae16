import Mathlib

/-!
# Byte strings: checked slices, little-endian numbers, windows

`slice` fails where Rust's `&xs[lo..hi]` panics. `leBytes` and `fromLeBytes`
are inverse to each other on numbers that fit (`fromLeBytes_leBytes`), and
`mem_windows` says that the windows of a list are its contiguous parts.
-/

namespace FeedMux.Library

abbrev Bytes := List UInt8

/-- What aborts a Rust task. -/
inductive Panic where
  | sliceOutOfRange
  | notCharBoundary
  deriving DecidableEq, Repr

variable {α : Type*}

/-- `&xs[lo..hi]`. -/
def slice (xs : List α) (lo hi : Nat) : Except Panic (List α) :=
  if lo ≤ hi ∧ hi ≤ xs.length then .ok ((xs.take hi).drop lo) else .error .sliceOutOfRange

theorem slice_ok (xs : List α) {lo hi : Nat} (h : lo ≤ hi) (h' : hi ≤ xs.length) :
    slice xs lo hi = .ok ((xs.take hi).drop lo) := if_pos ⟨h, h'⟩

/-- Conversion of a slice to an array of `n` elements. -/
def toArray (n : Nat) (xs : List α) : Option (List α) := if xs.length = n then some xs else none

theorem toArray_slice (xs : List α) {lo hi n : Nat} (h : lo + n = hi) (h' : hi ≤ xs.length) :
    toArray n ((xs.take hi).drop lo) = some ((xs.take hi).drop lo) := by
  apply if_pos
  simp only [List.length_drop, List.length_take]
  omega

/-- `dst[off..off + src.len()].copy_from_slice(src)`. -/
def writeAt (dst : List α) (off : Nat) (src : List α) : List α :=
  dst.take off ++ src ++ dst.drop (off + src.length)

/-! ## Little-endian numbers -/

def leBytes : Nat → Nat → Bytes
  | 0, _ => []
  | k + 1, n => UInt8.ofNat n :: leBytes k (n / 256)

def fromLeBytes : Bytes → Nat
  | [] => 0
  | b :: bs => b.toNat + 256 * fromLeBytes bs

theorem fromLeBytes_leBytes (k n : Nat) (h : n < 256 ^ k) : fromLeBytes (leBytes k n) = n := by
  induction k generalizing n with
  | zero => simp at h; simp [leBytes, fromLeBytes, h]
  | succ k ih =>
    have hq : n / 256 < 256 ^ k := by
      rw [Nat.pow_succ] at h
      omega
    have hd := Nat.div_add_mod n 256
    simp only [leBytes, fromLeBytes, ih _ hq, UInt8.toNat_ofNat']
    omega

theorem fromLeBytes_u64 (n : UInt64) : UInt64.ofNat (fromLeBytes (leBytes 8 n.toNat)) = n := by
  rw [fromLeBytes_leBytes _ _ (by simpa using n.toNat_lt)]
  simp

theorem fromLeBytes_u32 (n : UInt32) : UInt32.ofNat (fromLeBytes (leBytes 4 n.toNat)) = n := by
  rw [fromLeBytes_leBytes _ _ (by simpa using n.toNat_lt)]
  simp

/-! ## Windows -/

/-- `xs.windows(n)`. -/
def windows (n : Nat) (xs : List α) : List (List α) :=
  (List.range (xs.length + 1 - n)).map fun i => (xs.drop i).take n

theorem mem_windows {n : Nat} {xs w : List α} :
    w ∈ windows n xs ↔ w <:+: xs ∧ w.length = n := by
  constructor
  · intro h
    obtain ⟨i, hi, rfl⟩ := List.mem_map.mp h
    rw [List.mem_range] at hi
    refine ⟨(List.take_prefix n _).isInfix.trans (List.drop_suffix i xs).isInfix, ?_⟩
    simp only [List.length_take, List.length_drop]
    omega
  · rintro ⟨⟨s, t, rfl⟩, rfl⟩
    refine List.mem_map.mpr ⟨s.length, ?_, ?_⟩
    · rw [List.mem_range]
      simp only [List.length_append]
      omega
    · rw [List.append_assoc, List.drop_left, List.take_left]

end FeedMux.Library
