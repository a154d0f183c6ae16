import Mathlib

/-!
# Texts with a separator

A pattern without the separator is found in a text exactly if it is found in
one of the parts around it (`infix_append_sep`); a decimal text holds none but
digits (`notMem_repr`). `strip` drops what is blank at
both ends of a text; splitting and then stripping the parts does not see whether
the text was stripped before (`map_strip_splitOn`).
-/

namespace FeedMux.Library

variable {α : Type*}

theorem infix_append_sep {pattern a b : List α} {sep : α} (h : sep ∉ pattern) :
    pattern <:+: a ++ sep :: b ↔ pattern <:+: a ∨ pattern <:+: b := by
  rw [List.infix_append_iff]
  constructor
  · rintro (ha | hb | ⟨front, back, rfl, hfront, hback⟩)
    · exact .inl ha
    · rcases List.infix_cons_iff.mp hb with hstart | hb
      · cases pattern with
        | nil => exact .inl List.nil_infix
        | cons x pattern =>
          obtain ⟨rfl, -⟩ := List.cons_prefix_cons.mp hstart
          exact absurd List.mem_cons_self h
      · exact .inr hb
    · cases back with
      | nil =>
        rw [List.append_nil]
        exact .inl hfront.isInfix
      | cons x back =>
        obtain ⟨rfl, -⟩ := List.cons_prefix_cons.mp hback
        exact absurd (List.mem_append_right _ List.mem_cons_self) h
  · rintro (ha | hb)
    · exact .inl ha
    · exact .inr (.inl (List.infix_cons hb))

/-- A separator that does not occur after itself splits a list one way only. -/
theorem append_sep_inj {a a' d d' : List α} {sep : α} (hd : sep ∉ d)
    (hd' : sep ∉ d') : a ++ sep :: d = a' ++ sep :: d' ↔ a = a' ∧ d = d' := by
  constructor
  · intro h
    rcases List.append_eq_append_iff.mp h with ⟨more, rfl, hm⟩ | ⟨more, rfl, hm⟩
    · cases more with
      | nil =>
        rw [List.nil_append] at hm
        exact ⟨(List.append_nil a).symm, (List.cons.inj hm).2⟩
      | cons x more =>
        obtain ⟨rfl, rfl⟩ := List.cons.inj hm
        exact absurd (by simp) hd
    · cases more with
      | nil =>
        rw [List.nil_append] at hm
        exact ⟨List.append_nil a', (List.cons.inj hm).2.symm⟩
      | cons x more =>
        obtain ⟨rfl, rfl⟩ := List.cons.inj hm
        exact absurd (by simp) hd'
  · rintro ⟨rfl, rfl⟩
    rfl

/-! ## Decimal texts -/

theorem isDigit_of_mem_repr {n : Nat} {c : Char} (h : c ∈ n.repr.toList) : c.isDigit := by
  rw [Nat.toList_repr] at h
  exact Nat.isDigit_of_mem_toDigits (by decide) (by decide) h

/-- What is no digit can separate decimal texts. -/
theorem notMem_repr {c : Char} (hc : c.isDigit = false) (n : Nat) : c ∉ n.repr.toList := by
  intro h
  rw [isDigit_of_mem_repr h] at hc
  cases hc

/-! ## Blanks at the ends -/

variable {blank : α → Bool}

/-- The text without the blanks at its ends. -/
def strip (blank : α → Bool) (l : List α) : List α := (l.dropWhile blank).rdropWhile blank

theorem strip_append_left {front : List α} (h : ∀ x ∈ front, blank x) (l : List α) :
    strip blank (front ++ l) = strip blank l := by
  rw [strip, List.dropWhile_append_of_pos h, strip]

theorem rdropWhile_append_of_pos {back : List α} (h : ∀ x ∈ back, blank x) (l : List α) :
    (l ++ back).rdropWhile blank = l.rdropWhile blank := by
  have hrev : ∀ x ∈ back.reverse, blank x := fun x hx => h x (List.mem_reverse.mp hx)
  rw [List.rdropWhile, List.reverse_append, List.dropWhile_append_of_pos hrev, List.rdropWhile]

theorem strip_append_right {back : List α} (h : ∀ x ∈ back, blank x) (l : List α) :
    strip blank (l ++ back) = strip blank l := by
  unfold strip
  rw [List.dropWhile_append]
  split
  · rename_i hempty
    rw [List.isEmpty_iff.mp hempty, List.dropWhile_eq_nil_iff.mpr h]
  · exact rdropWhile_append_of_pos h _

/-- A text is what is left of it between two blank parts. -/
theorem exists_strip (blank : α → Bool) (l : List α) :
    ∃ front back, l = front ++ (strip blank l ++ back) ∧ (∀ x ∈ front, blank x) ∧
      ∀ x ∈ back, blank x := by
  refine ⟨l.takeWhile blank, (l.dropWhile blank).rtakeWhile blank, ?_, ?_, ?_⟩
  · rw [strip, List.rdropWhile_append_rtakeWhile, List.takeWhile_append_dropWhile]
  · intro x hx
    exact List.mem_takeWhile_imp hx
  · intro x hx
    exact List.mem_rtakeWhile_imp hx

theorem strip_strip (blank : α → Bool) (l : List α) :
    strip blank (strip blank l) = strip blank l := by
  obtain ⟨front, back, hl, hfront, hback⟩ := exists_strip blank l
  calc strip blank (strip blank l)
      = strip blank (strip blank l ++ back) := (strip_append_right hback _).symm
    _ = strip blank (front ++ (strip blank l ++ back)) := (strip_append_left hfront _).symm
    _ = strip blank l := by rw [← hl]

/-- A text without blanks is left as it is. -/
theorem strip_eq_self {l : List α} (h : ∀ x ∈ l, blank x = false) : strip blank l = l := by
  have hdrop : l.dropWhile blank = l := by
    cases l with
    | nil => rfl
    | cons x l => rw [List.dropWhile_cons_of_neg (by simp [h x List.mem_cons_self])]
  rw [strip, hdrop, List.rdropWhile_eq_self_iff]
  intro hne hlast
  rw [h _ (List.getLast_mem hne)] at hlast
  cases hlast

/-! ## Splitting -/

variable [BEq α] [LawfulBEq α] {sep : α}

theorem map_strip_splitOn_left {front : List α} (h : ∀ x ∈ front, blank x)
    (hsep : blank sep = false) (l : List α) :
    ((front ++ l).splitOn sep).map (strip blank) = (l.splitOn sep).map (strip blank) := by
  have hfront : sep ∉ front := fun hmem => by simp [h sep hmem] at hsep
  by_cases hl : sep ∈ l
  · obtain ⟨a, b, rfl, ha⟩ := List.eq_append_cons_of_mem hl
    have hsplit : sep ∉ front ++ a := by simp [hfront, ha]
    rw [← List.append_assoc, List.splitOn_append_cons_self_of_not_mem hsplit,
      List.splitOn_append_cons_self_of_not_mem ha, List.map_cons, List.map_cons,
      strip_append_left h]
  · have hsplit : sep ∉ front ++ l := by simp [hfront, hl]
    rw [List.splitOn_eq_singleton hsplit, List.splitOn_eq_singleton hl, List.map_singleton,
      List.map_singleton, strip_append_left h]

theorem map_strip_splitOn_right {back : List α} (h : ∀ x ∈ back, blank x)
    (hsep : blank sep = false) (l : List α) :
    ((l ++ back).splitOn sep).map (strip blank) = (l.splitOn sep).map (strip blank) := by
  have hback : sep ∉ back := fun hmem => by simp [h sep hmem] at hsep
  induction hn : l.length using Nat.strong_induction_on generalizing l with
  | _ n ih =>
    by_cases hl : sep ∈ l
    · obtain ⟨a, b, rfl⟩ := List.append_of_mem hl
      have hlt : b.length < n := by
        rw [List.length_append, List.length_cons] at hn
        omega
      rw [List.append_assoc, List.cons_append, List.splitOn_append_cons_self,
        List.splitOn_append_cons_self, List.map_append, List.map_append, ih _ hlt b rfl]
    · have hsplit : sep ∉ l ++ back := by simp [hl, hback]
      rw [List.splitOn_eq_singleton hsplit, List.splitOn_eq_singleton hl, List.map_singleton,
        List.map_singleton, strip_append_right h]

theorem map_strip_splitOn (hsep : blank sep = false) (l : List α) :
    ((strip blank l).splitOn sep).map (strip blank) = (l.splitOn sep).map (strip blank) := by
  obtain ⟨front, back, hl, hfront, hback⟩ := exists_strip blank l
  calc ((strip blank l).splitOn sep).map (strip blank)
      = ((strip blank l ++ back).splitOn sep).map (strip blank) :=
        (map_strip_splitOn_right hback hsep _).symm
    _ = ((front ++ (strip blank l ++ back)).splitOn sep).map (strip blank) :=
        (map_strip_splitOn_left hfront hsep _).symm
    _ = (l.splitOn sep).map (strip blank) := by rw [← hl]

end FeedMux.Library
