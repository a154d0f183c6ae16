import FeedMux.Library.Bytes

/-!
# Byte offsets in UTF-8 strings

A character takes one to four bytes. `sliceTo` fails where Rust's `&s[..n]`
panics, which is where `n` is no character boundary (`sliceTo_ok_iff`).
-/

namespace FeedMux.Library
open String (utf8Len)

/-- The characters that make up the first bytes, if a character ends there. -/
def takeBytes : Nat → List Char → Option (List Char)
  | 0, _ => some []
  | _ + 1, [] => none
  | n + 1, c :: cs =>
    if c.utf8Size ≤ n + 1 then (takeBytes (n + 1 - c.utf8Size) cs).map (c :: ·) else none

/-- `is_char_boundary`. -/
def IsCharBoundary (s : String) (n : Nat) : Prop :=
  ∃ before, before <+: s.toList ∧ utf8Len before = n

/-- `&s[..n]`. -/
def sliceTo (s : String) (n : Nat) : Except Panic String :=
  match takeBytes n s.toList with
  | some cs => .ok (String.ofList cs)
  | none => .error .notCharBoundary

theorem takeBytes_zero {cs before : List Char} :
    takeBytes 0 cs = some before ↔ before <+: cs ∧ utf8Len before = 0 := by
  rw [takeBytes, Option.some.injEq, String.utf8Len_eq_zero]
  constructor
  · rintro rfl
    exact ⟨List.nil_prefix, rfl⟩
  · rintro ⟨-, rfl⟩
    rfl

theorem takeBytes_eq_some {n : Nat} {cs before : List Char} :
    takeBytes n cs = some before ↔ before <+: cs ∧ utf8Len before = n := by
  induction cs generalizing n before with
  | nil =>
    cases n with
    | zero => exact takeBytes_zero
    | succ n =>
      rw [takeBytes, List.prefix_nil]
      constructor
      · intro h
        cases h
      · rintro ⟨rfl, h⟩
        cases h
  | cons c cs ih =>
    have hpos := c.utf8Size_pos
    cases n with
    | zero => exact takeBytes_zero
    | succ n =>
      rw [takeBytes]
      constructor
      · intro h
        split at h
        · obtain ⟨rest, hrest, rfl⟩ := Option.map_eq_some_iff.mp h
          obtain ⟨hpre, hlen⟩ := ih.mp hrest
          refine ⟨List.cons_prefix_cons.mpr ⟨rfl, hpre⟩, ?_⟩
          rw [String.utf8Len_cons]
          omega
        · cases h
      · rintro ⟨hpre, hlen⟩
        cases before with
        | nil => cases hlen
        | cons d rest =>
          obtain ⟨rfl, htail⟩ := List.cons_prefix_cons.mp hpre
          rw [String.utf8Len_cons] at hlen
          have hrest : takeBytes (n + 1 - d.utf8Size) cs = some rest :=
            ih.mpr ⟨htail, by omega⟩
          rw [if_pos (by omega), hrest]
          rfl

theorem utf8Len_replicate (n : Nat) (c : Char) :
    utf8Len (List.replicate n c) = n * c.utf8Size := by
  induction n with
  | zero => simp
  | succ n ih => rw [List.replicate_succ, String.utf8Len_cons, ih, Nat.succ_mul]

theorem utf8Len_toList (s : String) : utf8Len s.toList = s.utf8ByteSize := by
  rw [← String.utf8ByteSize_ofList, String.ofList_toList]

theorem sliceTo_eq_ok {s t : String} {n : Nat} :
    sliceTo s n = .ok t ↔ t.toList <+: s.toList ∧ t.utf8ByteSize = n := by
  rw [← utf8Len_toList, ← takeBytes_eq_some]
  unfold sliceTo
  cases takeBytes n s.toList with
  | none =>
    constructor <;> intro h <;> cases h
  | some cs =>
    simp only [Except.ok.injEq, Option.some.injEq]
    constructor
    · rintro rfl
      exact String.toList_ofList.symm
    · rintro rfl
      exact String.ofList_toList

theorem sliceTo_ok_iff {s : String} {n : Nat} :
    (∃ t, sliceTo s n = .ok t) ↔ IsCharBoundary s n := by
  constructor
  · rintro ⟨t, h⟩
    obtain ⟨hpre, hsize⟩ := sliceTo_eq_ok.mp h
    exact ⟨t.toList, hpre, (utf8Len_toList t).trans hsize⟩
  · rintro ⟨before, hpre, hlen⟩
    refine ⟨String.ofList before, sliceTo_eq_ok.mpr ⟨?_, ?_⟩⟩
    · rwa [String.toList_ofList]
    · rw [String.utf8ByteSize_ofList, hlen]

theorem length_le_utf8Len (cs : List Char) : cs.length ≤ utf8Len cs := by
  induction cs with
  | nil => simp
  | cons c cs ih =>
    have hpos := c.utf8Size_pos
    rw [List.length_cons, String.utf8Len_cons]
    omega

theorem length_le_utf8ByteSize (s : String) : s.toList.length ≤ s.utf8ByteSize := by
  rw [← utf8Len_toList]
  exact length_le_utf8Len _

end FeedMux.Library
