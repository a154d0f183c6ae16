import FeedMux.Titan.Registry

/-!
# Which ladder a text configures (`src/titan_quote.rs`)

A ladder has exactly the positive decimal numbers between the commas of the
configured text, or is the default one. Printed with commas it is read back as
it was (`hunt_ladder`).
-/

namespace FeedMux.Titan
open FeedMux.Library Std

/-! ## Decimal numbers -/

/-- A decimal `u64`: digits, perhaps after a plus sign, whose value fits. -/
def IsDecimal (s : List Char) (n : UInt64) : Prop :=
  ∃ digits, (s = digits ∨ s = '+' :: digits) ∧ digits ≠ [] ∧ (∀ c ∈ digits, c.isDigit) ∧
    Nat.ofDigitChars 10 digits 0 = n.toNat

theorem ofDigits_eq_ofDigitChars (digits : List Char) :
    Nat.ofDigits 10 (digits.reverse.map fun c => c.toNat - '0'.toNat) =
      Nat.ofDigitChars 10 digits 0 := by
  induction digits using List.reverseRecOn with
  | nil => rfl
  | append_singleton digits c ih =>
    rw [List.reverse_append, Nat.ofDigitChars_append, Nat.ofDigitChars_cons,
      Nat.ofDigitChars_nil, ← ih]
    simp only [List.reverse_singleton, List.singleton_append, List.map_cons, Nat.ofDigits_cons]
    omega

/-- Digits are read as the number they write, if it fits. -/
theorem parseU64_digits {digits : List Char} {n : UInt64} :
    (if digits.isEmpty || !digits.all Char.isDigit then none
      else
        let n := Nat.ofDigits 10 (digits.reverse.map fun c => c.toNat - '0'.toNat)
        if n < 2 ^ 64 then some (UInt64.ofNat n) else none) = some n ↔
      digits ≠ [] ∧ (∀ c ∈ digits, c.isDigit) ∧ Nat.ofDigitChars 10 digits 0 = n.toNat := by
  have hfit : ∀ value : Nat, (if value < 2 ^ 64 then some (UInt64.ofNat value) else none) = some n ↔
      value = n.toNat := by
    intro value
    rw [Option.ite_none_right_eq_some, Option.some.injEq, ← UInt64.toNat_inj, UInt64.toNat_ofNat']
    have hn := n.toNat_lt
    omega
  simp only [ofDigits_eq_ofDigitChars, Option.ite_none_left_eq_some, hfit]
  simp [and_assoc]

theorem parseU64_eq_some (s : List Char) (n : UInt64) : parseU64 s = some n ↔ IsDecimal s n := by
  have hplus : ('+' : Char).isDigit = false := by decide
  unfold parseU64 IsDecimal
  rw [parseU64_digits]
  split
  · rename_i rest
    constructor
    · intro h
      exact ⟨rest, .inr rfl, h⟩
    · rintro ⟨digits, rfl | hs, h⟩
      · rw [h.2.1 '+' List.mem_cons_self] at hplus
        cases hplus
      · rw [(List.cons.inj hs).2]
        exact h
  · rename_i hsign
    constructor
    · intro h
      exact ⟨s, .inl rfl, h⟩
    · rintro ⟨digits, rfl | rfl, h⟩
      · exact h
      · exact absurd rfl (hsign digits)

theorem isDecimal_repr (n : UInt64) : IsDecimal n.toNat.repr.toList n := by
  refine ⟨_, .inl rfl, ?_, ?_, ?_⟩
  · rw [Nat.toList_repr]
    exact Nat.toDigits_ne_nil
  · intro c hc
    exact isDigit_of_mem_repr hc
  · rw [Nat.toList_repr, Nat.ofDigitChars_ten_toDigits]

/-! ## The sizes a text names -/

/-- One of the parts between the commas is the size, and it is positive. -/
def Names (raw : Option String) (size : UInt64) : Prop :=
  ∃ text, raw = some text ∧ 0 < size ∧ ∃ part ∈ text.toList.splitOn ',', IsDecimal (trim part) size

/-- The sizes as they stand in the text. -/
def namedSizes (text : List Char) : List UInt64 :=
  ((text.splitOn ',').filterMap fun part => parseU64 (trim part)).filter (0 < ·)

theorem namedSizes_trim (text : List Char) : namedSizes (trim text) = namedSizes text := by
  have hsep : isWhitespace ',' = false := by decide
  have hread : ∀ l : List Char, (l.splitOn ',').filterMap (fun part => parseU64 (trim part)) =
      ((l.splitOn ',').map (strip isWhitespace)).filterMap parseU64 := by
    intro l
    rw [List.filterMap_map]
    rfl
  rw [namedSizes, namedSizes, hread, hread]
  exact congrArg _ (congrArg _ (map_strip_splitOn hsep text))

theorem mem_namedSizes (text : String) (size : UInt64) :
    size ∈ namedSizes text.toList ↔ Names (some text) size := by
  simp only [namedSizes, Names, List.mem_filter, List.mem_filterMap, parseU64_eq_some,
    decide_eq_true_eq, Option.some.injEq, exists_eq_left']
  exact and_comm

/-- The sizes in ascending order, each once. -/
def sortedOnce (sizes : List UInt64) : List UInt64 :=
  (sizes.insertionSort (· ≤ ·)).destutter (· ≠ ·)

theorem mem_sortedOnce (sizes : List UInt64) (size : UInt64) :
    size ∈ sortedOnce sizes ↔ size ∈ sizes := by
  have : Std.Total fun a b : UInt64 => a ≤ b := ⟨fun _ _ => UInt64.le_total _ _⟩
  have : IsTrans UInt64 fun a b => a ≤ b := ⟨fun _ _ _ => UInt64.le_trans⟩
  have : Std.Antisymm fun a b : UInt64 => a ≤ b := ⟨fun _ _ => UInt64.le_antisymm⟩
  have hsorted := List.pairwise_insertionSort (· ≤ ·) sizes
  rw [sortedOnce, hsorted.destutter_eq_dedup, List.mem_dedup, List.mem_insertionSort]

theorem parseHuntSizes_some (text : String) :
    parseHuntSizes (some text) =
      if (sortedOnce (namedSizes text.toList)).isEmpty then defaultHuntSizesLamports
      else sortedOnce (namedSizes text.toList) := by
  rw [← namedSizes_trim]
  unfold parseHuntSizes
  rw [Option.map_some]
  cases hempty : (trim text.toList).isEmpty with
  | true =>
    rw [List.isEmpty_iff.mp hempty]
    rfl
  | false =>
    rw [Option.filter_some, hempty]
    rfl

/-- A text that names a size has a ladder of the sizes that it names. -/
theorem mem_parseHuntSizes {raw : Option String} (h : ∃ size, Names raw size) (size : UInt64) :
    size ∈ parseHuntSizes raw ↔ Names raw size := by
  obtain ⟨named, text, rfl, hnamed⟩ := h
  have hmem : named ∈ sortedOnce (namedSizes text.toList) :=
    (mem_sortedOnce _ _).mpr ((mem_namedSizes text named).mpr ⟨text, rfl, hnamed⟩)
  have hne : (sortedOnce (namedSizes text.toList)).isEmpty = false :=
    List.isEmpty_eq_false_iff.mpr (List.ne_nil_of_mem hmem)
  rw [parseHuntSizes_some, hne, if_neg Bool.false_ne_true, mem_sortedOnce, mem_namedSizes]

theorem parseHuntSizes_default {raw : Option String} (h : ¬ ∃ size, Names raw size) :
    parseHuntSizes raw = defaultHuntSizesLamports := by
  cases raw with
  | none => rfl
  | some text =>
    have hnone : sortedOnce (namedSizes text.toList) = [] := by
      refine List.eq_nil_iff_forall_not_mem.mpr ?_
      intro size hsize
      exact h ⟨size, (mem_namedSizes text size).mp ((mem_sortedOnce _ _).mp hsize)⟩
    rw [parseHuntSizes_some, hnone]
    rfl

theorem parseHuntSizes_ne_nil (raw : Option String) : parseHuntSizes raw ≠ [] := by
  by_cases h : ∃ size, Names raw size
  · obtain ⟨size, hsize⟩ := h
    exact List.ne_nil_of_mem ((mem_parseHuntSizes ⟨size, hsize⟩ size).mpr hsize)
  · rw [parseHuntSizes_default h]
    decide

/-! ## Printing and reading again -/

def joined (sizes : List UInt64) : String := ",".intercalate (sizes.map toString)

theorem trim_repr (n : Nat) : trim n.repr.toList = n.repr.toList := by
  refine strip_eq_self ?_
  intro c hc
  obtain ⟨hlow, hhigh⟩ := Char.isDigit_iff_toNat.mp (isDigit_of_mem_repr hc)
  change 48 ≤ c.toNat at hlow
  change c.toNat ≤ 57 at hhigh
  exact isWhitespace_graphic (by omega) (by omega)

/-- A number is read back from its decimal text, and nothing else is. -/
theorem isDecimal_repr_iff (n size : UInt64) : IsDecimal n.toNat.repr.toList size ↔ n = size := by
  have hn := (parseU64_eq_some _ n).mpr (isDecimal_repr n)
  rw [← parseU64_eq_some, hn, Option.some.injEq]

theorem splitOn_joined {sizes : List UInt64} (h : sizes ≠ []) :
    (joined sizes).toList.splitOn ',' = sizes.map fun size => size.toNat.repr.toList := by
  have hparts : (joined sizes).toList =
      [','].intercalate (sizes.map fun size => size.toNat.repr.toList) := by
    rw [joined, String.toList_intercalate, List.map_map]
    rfl
  have hcomma : ∀ part ∈ sizes.map fun size => size.toNat.repr.toList, ',' ∉ part := by
    intro part hpart
    obtain ⟨size, -, rfl⟩ := List.mem_map.mp hpart
    exact notMem_repr (by decide) _
  rw [hparts, List.splitOn_intercalate ',' hcomma (by simpa using h)]

theorem names_joined {sizes : List UInt64} (h : sizes ≠ []) (hpos : ∀ size ∈ sizes, 0 < size)
    (size : UInt64) : Names (some (joined sizes)) size ↔ size ∈ sizes := by
  simp only [Names, Option.some.injEq, exists_eq_left', splitOn_joined h, List.mem_map,
    exists_exists_and_eq_and, trim_repr, isDecimal_repr_iff, exists_eq_right]
  exact ⟨fun hs => hs.2, fun hs => ⟨hpos size hs, hs⟩⟩

theorem parseHuntSizes_joined {sizes : List UInt64} (h : sizes ≠ [])
    (hsorted : sizes.Pairwise (· < ·)) (hpos : ∀ size ∈ sizes, 0 < size) :
    parseHuntSizes (some (joined sizes)) = sizes := by
  have : Std.Antisymm fun a b : UInt64 => a < b :=
    ⟨fun _ _ hab hba => absurd hba (UInt64.lt_asymm hab)⟩
  have : Std.Irrefl fun a b : UInt64 => a < b := ⟨UInt64.lt_irrefl⟩
  obtain ⟨first, hfirst⟩ := List.exists_mem_of_ne_nil sizes h
  have hnames : ∃ size, Names (some (joined sizes)) size :=
    ⟨first, (names_joined h hpos first).mpr hfirst⟩
  refine (parseHuntSizes_sorted _).eq_of_mem_iff hsorted ?_
  intro size
  rw [mem_parseHuntSizes hnames, names_joined h hpos]

/-! ## The ladder -/

/-- What a ladder is, given the text that configures it. -/
structure IsLadder (raw : Option String) (ladder : List UInt64) : Prop where
  ne_nil : ladder ≠ []
  ascending : ladder.Pairwise (· < ·)
  pos : ∀ size ∈ ladder, 0 < size
  named : (∃ size, Names raw size) → ∀ size, size ∈ ladder ↔ Names raw size
  default : (¬ ∃ size, Names raw size) → ladder = defaultHuntSizesLamports
  joined : parseHuntSizes (some (joined ladder)) = ladder

/-- **Hunt ladders.** Every text, and none, configures a well-formed ladder. -/
theorem hunt_ladder (raw : Option String) : IsLadder raw (parseHuntSizes raw) := by
  have hne := parseHuntSizes_ne_nil raw
  have hsorted := parseHuntSizes_sorted raw
  have hpos : ∀ size ∈ parseHuntSizes raw, 0 < size := by
    intro size hsize
    refine UInt64.pos_iff_ne_zero.mpr ?_
    rintro rfl
    exact zero_notMem_parseHuntSizes raw hsize
  exact ⟨hne, hsorted, hpos, mem_parseHuntSizes, parseHuntSizes_default,
    parseHuntSizes_joined hne hsorted hpos⟩

example : parseHuntSizes (some " 1000000000,250000000, +7,x,0,1000000000") =
    [7, 250000000, 1000000000] := by
  decide +kernel

end FeedMux.Titan
