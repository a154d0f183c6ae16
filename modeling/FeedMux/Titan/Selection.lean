import FeedMux.Titan.Quote

/-!
# Which route is selected (`select_best_route` in `src/titan_quote.rs`)

The entry that `metadata.ExpectedWinner` names, if there is one, and else the
last of the entries with the greatest `outAmount` (`route_selection`).
-/

namespace FeedMux.Titan
open FeedMux.Library

/-! ## The last greatest element -/

section
variable {α : Type*} {key : α → UInt64} {l : List α} {a : α}

theorem maxByKey_concat (key : α → UInt64) (l : List α) (a : α) :
    maxByKey key (l ++ [a]) =
      match maxByKey key l with
      | none => some a
      | some b => if key b ≤ key a then some a else some b := by
  rw [maxByKey, List.foldl_append]
  rfl

theorem maxByKey_eq_none : maxByKey key l = none ↔ l = [] := by
  induction l using List.reverseRecOn with
  | nil => exact ⟨fun _ => rfl, fun _ => rfl⟩
  | append_singleton l a _ =>
    rw [maxByKey_concat]
    cases maxByKey key l with
    | none => simp
    | some b =>
      simp only
      split <;> simp

/-- No element before it has a greater key, and every one after it a smaller one. -/
theorem maxByKey_split (h : maxByKey key l = some a) :
    ∃ pre post, l = pre ++ a :: post ∧ (∀ b ∈ pre, key b ≤ key a) ∧
      ∀ b ∈ post, key b < key a := by
  induction l using List.reverseRecOn generalizing a with
  | nil => cases h
  | append_singleton l last ih =>
    rw [maxByKey_concat] at h
    cases hm : maxByKey key l with
    | none =>
      obtain rfl := maxByKey_eq_none.mp hm
      rw [hm] at h
      obtain rfl := Option.some.inj h
      exact ⟨[], [], rfl, by simp, by simp⟩
    | some best =>
      rw [hm] at h
      obtain ⟨pre, post, rfl, hpre, hpost⟩ := ih hm
      simp only at h
      split at h
      · rename_i hle
        obtain rfl := Option.some.inj h
        refine ⟨_, [], rfl, ?_, by simp⟩
        intro b hb
        rcases List.mem_append.mp hb with hb | hb
        · exact UInt64.le_trans (hpre b hb) hle
        · rcases List.mem_cons.mp hb with rfl | hb
          · exact hle
          · exact UInt64.le_trans (UInt64.le_of_lt (hpost b hb)) hle
      · rename_i hlt
        obtain rfl := Option.some.inj h
        refine ⟨pre, post ++ [last], by simp, hpre, ?_⟩
        intro b hb
        rcases List.mem_append.mp hb with hb | hb
        · exact hpost b hb
        · rw [List.mem_singleton.mp hb]
          exact UInt64.not_le.mp hlt

/-- Lists that agree one by one have greatest elements that agree. -/
theorem maxByKey_aligned {β : Type*} {R : α → β → Prop} {other : β → UInt64} {l' : List β}
    (hk : ∀ a b, R a b → key a = other b) (h : List.Forall₂ R l l') :
    Option.Rel R (maxByKey key l) (maxByKey other l') := by
  refine List.rel_foldl (R := R) (P := Option.Rel R) ?_ .none h
  intro best best' hbest a a' ha
  cases hbest with
  | none => exact .some ha
  | some hb =>
    simp only [hk _ _ hb, hk _ _ ha]
    split
    · exact .some ha
    · exact .some hb

/-- Without a tie the order of the list does not matter. -/
theorem maxByKey_perm {l' : List α} (hp : l.Perm l')
    (ht : ∀ a ∈ l, ∀ b ∈ l, (∀ c ∈ l, key c ≤ key a) → (∀ c ∈ l, key c ≤ key b) → a = b) :
    maxByKey key l = maxByKey key l' := by
  have hgreatest {l : List α} {a : α} (h : maxByKey key l = some a) :
      a ∈ l ∧ ∀ c ∈ l, key c ≤ key a := by
    obtain ⟨pre, post, rfl, hpre, hpost⟩ := maxByKey_split h
    refine ⟨by simp, ?_⟩
    intro c hc
    rcases List.mem_append.mp hc with hc | hc
    · exact hpre c hc
    · rcases List.mem_cons.mp hc with rfl | hc
      · exact UInt64.le_refl _
      · exact UInt64.le_of_lt (hpost c hc)
  cases ha : maxByKey key l with
  | none =>
    obtain rfl := maxByKey_eq_none.mp ha
    rw [List.nil_perm.mp hp]
    rfl
  | some a =>
    cases hb : maxByKey key l' with
    | none =>
      obtain rfl := maxByKey_eq_none.mp hb
      obtain rfl := List.perm_nil.mp hp
      cases ha
    | some b =>
      obtain ⟨hma, hga⟩ := hgreatest ha
      obtain ⟨hmb, hgb⟩ := hgreatest hb
      refine congrArg some (ht a hma b (hp.mem_iff.mpr hmb) hga ?_)
      intro c hc
      exact hgb c (hp.mem_iff.mp hc)

end

/-! ## What is selected -/

/-- `metadata.ExpectedWinner`, where it is a string. -/
def winnerName (swapQuotes : Value) : Option String :=
  (mapGet swapQuotes "metadata").bind fun metadata =>
    (mapGet metadata "ExpectedWinner").bind valueAsString

/-- The first entry under a key. -/
def FirstUnder (entries : List (Value × Value)) (name : String) (route : Value) : Prop :=
  ∃ pre key post, entries = pre ++ (key, route) :: post ∧ mapKeyStr key = some name ∧
    ∀ e ∈ pre, mapKeyStr e.1 ≠ some name

/-- No entry is keyed by the expected winner. -/
def NoWinner (entries : List (Value × Value)) (swapQuotes : Value) : Prop :=
  ∀ name, winnerName swapQuotes = some name → ∀ e ∈ entries, mapKeyStr e.1 ≠ some name

/-- An eligible entry that no other beats, the last one of these. -/
def LastBest (entries : List (Value × Value)) (name : String) (route : Value) : Prop :=
  ∃ pre key post out, entries = pre ++ (key, route) :: post ∧
    eligible (key, route) = some (name, route, out) ∧
    (∀ e ∈ pre, ∀ other, eligible e = some other → other.2.2 ≤ out) ∧
    ∀ e ∈ post, ∀ other, eligible e = some other → other.2.2 < out

/-- Eligible means a string key and a `u64` amount. -/
theorem eligible_eq_some {e : Value × Value} {name : String} {route : Value} {out : UInt64} :
    eligible e = some (name, route, out) ↔
      mapKeyStr e.1 = some name ∧ e.2 = route ∧ u64At e.2 "outAmount" = some out := by
  unfold eligible u64At
  simp only [Option.bind_eq_bind, Option.pure_def, Option.bind_eq_some_iff, Option.some.injEq,
    Prod.mk.injEq]
  constructor
  · rintro ⟨_, hk, _, hout, rfl, rfl, rfl⟩
    exact ⟨hk, rfl, hout⟩
  · rintro ⟨hk, rfl, hout⟩
    exact ⟨name, hk, out, hout, rfl, rfl, rfl⟩

theorem find_key_eq_some {entries : List (Value × Value)} {name : String} {e : Value × Value} :
    entries.find? (fun e => mapKeyStr e.1 == some name) = some e ↔
      ∃ pre post, entries = pre ++ e :: post ∧ mapKeyStr e.1 = some name ∧
        ∀ e' ∈ pre, mapKeyStr e'.1 ≠ some name := by
  rw [List.find?_eq_some_iff_append]
  constructor
  · rintro ⟨hk, pre, post, hsplit, hpre⟩
    exact ⟨pre, post, hsplit, by simpa using hk, fun e' he' => by simpa using hpre e' he'⟩
  · rintro ⟨pre, post, hsplit, hk, hpre⟩
    exact ⟨by simpa using hk, pre, post, hsplit, fun e' he' => by simpa using hpre e' he'⟩

theorem expectedWinner_eq_some {entries : List (Value × Value)} {swapQuotes : Value}
    {name : String} {route : Value} :
    expectedWinner entries swapQuotes = some (name, route) ↔
      winnerName swapQuotes = some name ∧ FirstUnder entries name route := by
  unfold expectedWinner winnerName FirstUnder
  simp only [Option.bind_eq_bind, Option.pure_def, Option.bind_eq_some_iff, Option.some.injEq,
    Prod.mk.injEq]
  constructor
  · rintro ⟨metadata, hm, winner, ⟨w, hw, hs⟩, e, hf, rfl, rfl⟩
    obtain ⟨pre, post, hsplit, hk, hpre⟩ := find_key_eq_some.mp hf
    exact ⟨⟨metadata, hm, w, hw, hs⟩, pre, e.1, post, hsplit, hk, hpre⟩
  · rintro ⟨⟨metadata, hm, w, hw, hs⟩, pre, key, post, hsplit, hk, hpre⟩
    exact ⟨metadata, hm, name, ⟨w, hw, hs⟩, (key, route),
      find_key_eq_some.mpr ⟨pre, post, hsplit, hk, hpre⟩, rfl, rfl⟩

theorem expectedWinner_eq_none {entries : List (Value × Value)} {swapQuotes : Value} :
    expectedWinner entries swapQuotes = none ↔ NoWinner entries swapQuotes := by
  constructor
  · intro h name hname e he hk
    cases hf : entries.find? (fun e => mapKeyStr e.1 == some name) with
    | none =>
      have hno := List.find?_eq_none.mp hf e he
      rw [hk] at hno
      exact hno (beq_self_eq_true _)
    | some found =>
      obtain ⟨pre, post, hsplit, hfound, hpre⟩ := find_key_eq_some.mp hf
      have hsome : expectedWinner entries swapQuotes = some (name, found.2) :=
        expectedWinner_eq_some.mpr ⟨hname, pre, found.1, post, hsplit, hfound, hpre⟩
      rw [h] at hsome
      cases hsome
  · intro h
    cases hw : expectedWinner entries swapQuotes with
    | none => rfl
    | some winner =>
      obtain ⟨hname, pre, key, post, rfl, hk, -⟩ := expectedWinner_eq_some.mp hw
      exact absurd hk (h _ hname (key, winner.2) (by simp))

/-- The winner comes before the scan; an empty map has neither. -/
theorem selectBestRoute_map {quotesMap : Value} {entries : List (Value × Value)}
    (h : valueAsMap quotesMap = some entries) (swapQuotes : Value) :
    selectBestRoute quotesMap swapQuotes =
      (expectedWinner entries swapQuotes).or
        ((maxByKey (fun e => e.2.2) (entries.filterMap eligible)).map fun e => (e.1, e.2.1)) := by
  unfold selectBestRoute
  rw [h]
  cases entries with
  | nil =>
    have hnone : expectedWinner [] swapQuotes = none := by
      rw [expectedWinner_eq_none]
      simp [NoWinner]
    rw [hnone]
    rfl
  | cons e entries =>
    show (expectedWinner (e :: entries) swapQuotes <|> _) = _
    rw [Option.orElse_eq_orElse, Option.orElse_eq_or]

section
variable {quotesMap swapQuotes : Value} {entries : List (Value × Value)} {name : String}
  {route : Value}

theorem select_winner (hm : valueAsMap quotesMap = some entries)
    (hname : winnerName swapQuotes = some name) (hfirst : FirstUnder entries name route) :
    selectBestRoute quotesMap swapQuotes = some (name, route) := by
  rw [selectBestRoute_map hm, expectedWinner_eq_some.mpr ⟨hname, hfirst⟩]
  rfl

/-- Without an expected winner the scan decides. -/
theorem select_last_best (hm : valueAsMap quotesMap = some entries)
    (hno : NoWinner entries swapQuotes)
    (hs : selectBestRoute quotesMap swapQuotes = some (name, route)) :
    LastBest entries name route := by
  rw [selectBestRoute_map hm, expectedWinner_eq_none.mpr hno, Option.none_or,
    Option.map_eq_some_iff] at hs
  obtain ⟨⟨provider, best, out⟩, hmax, hbest⟩ := hs
  obtain ⟨rfl, rfl⟩ := Prod.mk.inj hbest
  obtain ⟨pre, post, hsplit, hpre, hpost⟩ := maxByKey_split hmax
  obtain ⟨before, ⟨key, route⟩, after, rfl, rfl, he, rfl⟩ := filterMap_split hsplit
  obtain ⟨-, rfl, -⟩ := eligible_eq_some.mp he
  refine ⟨before, key, after, out, rfl, he, ?_, ?_⟩
  · intro e hm other hother
    exact hpre other (List.mem_filterMap.mpr ⟨e, hm, hother⟩)
  · intro e hm other hother
    exact hpost other (List.mem_filterMap.mpr ⟨e, hm, hother⟩)

theorem select_none_iff (hm : valueAsMap quotesMap = some entries) :
    selectBestRoute quotesMap swapQuotes = none ↔
      NoWinner entries swapQuotes ∧ ∀ e ∈ entries, eligible e = none := by
  rw [selectBestRoute_map hm, Option.or_eq_none_iff, expectedWinner_eq_none,
    Option.map_eq_none_iff, maxByKey_eq_none, List.filterMap_eq_nil_iff]

end

/-- **Route selection.** The first entry under the expected winner; without one
the last best entry; and nothing only when there is no entry to select. -/
theorem route_selection (quotesMap swapQuotes : Value) :
    (∀ entries name route, valueAsMap quotesMap = some entries →
      winnerName swapQuotes = some name → FirstUnder entries name route →
        selectBestRoute quotesMap swapQuotes = some (name, route)) ∧
      (∀ entries name route, valueAsMap quotesMap = some entries → NoWinner entries swapQuotes →
        selectBestRoute quotesMap swapQuotes = some (name, route) →
          LastBest entries name route) ∧
      (selectBestRoute quotesMap swapQuotes = none ↔
        valueAsMap quotesMap = none ∨ ∃ entries, valueAsMap quotesMap = some entries ∧
          NoWinner entries swapQuotes ∧ ∀ e ∈ entries, eligible e = none) := by
  refine ⟨?_, ?_, ?_⟩
  · intro entries name route hm hname hfirst
    exact select_winner hm hname hfirst
  · intro entries name route hm hno hs
    exact select_last_best hm hno hs
  · cases hm : valueAsMap quotesMap with
    | none =>
      have hnone : selectBestRoute quotesMap swapQuotes = none := by
        unfold selectBestRoute
        rw [hm]
        rfl
      simp [hnone]
    | some entries =>
      rw [select_none_iff hm]
      simp

/-! Three routes: the last two are best. -/

def threeRoutes : List (Value × Value) :=
  let route (out : UInt64) : Value :=
    .map [(.string (.valid "outAmount"), .integer (.posInt out))]
  [(.string (.valid "a"), route 5), (.string (.valid "b"), route 7),
    (.string (.valid "c"), route 7)]

/-- The metadata names the first of them. -/
def firstExpected : Value :=
  .map [(.string (.valid "metadata"),
    .map [(.string (.valid "ExpectedWinner"), .string (.valid "a"))])]

/-- The expected route is selected, and without metadata the last of the best. -/
theorem route_selection_sample :
    selectBestRoute (.map threeRoutes) firstExpected =
        some ("a", .map [(.string (.valid "outAmount"), .integer (.posInt 5))]) ∧
      LastBest threeRoutes "c"
        (.map [(.string (.valid "outAmount"), .integer (.posInt 7))]) := by
  constructor
  · refine (route_selection (.map threeRoutes) firstExpected).1 _ _ _ rfl rfl ?_
    exact ⟨[], _, _, rfl, rfl, by simp⟩
  · exact (route_selection (.map threeRoutes) (.map [])).2.1 _ _ _ rfl (by rintro _ ⟨⟩) rfl

end FeedMux.Titan
