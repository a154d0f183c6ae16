import Mathlib

/-!
# Ordered maps as their last writes

`Std.ExtTreeMap` keeps its entries in ascending key order. A map built by a
list of writes holds the last write to each key (`getElem?_insertAll`), and its
entries in key order are read off from that list (`entries_insertAll`,
`entries_insertAll_sorted`).
-/

namespace FeedMux.Library
open Std

variable {κ ν : Type*}

/-! ## The last write to a key -/

section
variable [DecidableEq κ]

/-- The value of the last write to a key. -/
def lastWrite (ws : List (κ × ν)) (k : κ) : Option ν :=
  (ws.reverse.find? fun w => w.1 = k).map Prod.snd

theorem lastWrite_concat (ws : List (κ × ν)) (w : κ × ν) (k : κ) :
    lastWrite (ws ++ [w]) k = if w.1 = k then some w.2 else lastWrite ws k := by
  unfold lastWrite
  rw [List.reverse_append, List.reverse_singleton, List.singleton_append, List.find?_cons]
  by_cases h : w.1 = k <;> simp [h]

theorem mem_of_lastWrite {ws : List (κ × ν)} {k : κ} {v : ν} (h : lastWrite ws k = some v) :
    (k, v) ∈ ws := by
  unfold lastWrite at h
  obtain ⟨w, hw, rfl⟩ := Option.map_eq_some_iff.mp h
  have hk := List.find?_some hw
  have hm := List.mem_of_find?_eq_some hw
  simp only [decide_eq_true_eq] at hk
  subst hk
  simpa using hm

/-- It is the last of the writes to that key. -/
theorem getLast?_filter_key (ws : List (κ × ν)) (k : κ) :
    (ws.filter fun w => w.1 = k).getLast? = (lastWrite ws k).map fun v => (k, v) := by
  induction ws using List.reverseRecOn with
  | nil => rfl
  | append_singleton ws w ih =>
    rw [lastWrite_concat, List.filter_append]
    by_cases hk : w.1 = k
    · subst hk
      simp
    · simp [hk, ih]

/-- With distinct keys, the last write to a key is the only one. -/
theorem lastWrite_eq_some_iff {ws : List (κ × ν)} (hd : (ws.map Prod.fst).Nodup) {k : κ} {v : ν} :
    lastWrite ws k = some v ↔ (k, v) ∈ ws := by
  refine ⟨mem_of_lastWrite, ?_⟩
  intro h
  induction ws using List.reverseRecOn with
  | nil => simp at h
  | append_singleton ws w ih =>
    rw [lastWrite_concat]
    rw [List.map_append, List.nodup_append] at hd
    obtain ⟨hd, _, hne⟩ := hd
    rcases List.mem_append.mp h with h | h
    · have hk : w.1 ≠ k := fun e =>
        hne k (List.mem_map.mpr ⟨_, h, rfl⟩) w.1 (by simp) e.symm
      rw [if_neg hk, ih hd h]
    · rw [List.mem_singleton] at h
      simp [← h]

theorem isSome_lastWrite {ws : List (κ × ν)} {k : κ} :
    (lastWrite ws k).isSome ↔ k ∈ ws.map Prod.fst := by
  induction ws using List.reverseRecOn with
  | nil => simp [lastWrite]
  | append_singleton ws w ih =>
    rw [lastWrite_concat, List.map_append, List.mem_append, ← ih]
    by_cases h : w.1 = k
    · simp [h]
    · simp [h, Ne.symm h]

/-- The last write among those that the elements of a list make. -/
theorem lastWrite_filterMap {α : Type*} {f : α → Option (κ × ν)} {l : List α} {k : κ} {v : ν} :
    lastWrite (l.filterMap f) k = some v ↔
      ∃ pre a post, l = pre ++ a :: post ∧ f a = some (k, v) ∧
        ∀ b ∈ post, ∀ u, f b ≠ some (k, u) := by
  rw [lastWrite, ← List.filterMap_reverse, List.find?_filterMap, Option.map_eq_some_iff]
  simp only [Option.bind_eq_some_iff, List.find?_eq_some_iff_append, List.reverse_eq_append_iff,
    List.reverse_cons, List.append_assoc, List.singleton_append]
  constructor
  · rintro ⟨w, ⟨a, ⟨hk, post, pre, hl, hpost⟩, ha⟩, rfl⟩
    obtain rfl : w.1 = k := by simpa [ha] using hk
    refine ⟨_, a, _, hl, ha, ?_⟩
    intro b hb u hu
    have hb := hpost b (List.mem_reverse.mp hb)
    simp [hu] at hb
  · rintro ⟨pre, a, post, hl, ha, hpost⟩
    refine ⟨(k, v), ⟨a, ⟨by simp [ha], post.reverse, pre.reverse, by simpa using hl, ?_⟩, ha⟩, rfl⟩
    intro b hb
    cases hf : f b with
    | none => simp
    | some w =>
      have hw : w.1 ≠ k := by
        rintro rfl
        exact hpost b (List.mem_reverse.mp hb) w.2 hf
      simp [hw]

end

/-! ## Lists in ascending key order -/

theorem compare_irrefl [Ord κ] [OrientedOrd κ] (a : κ) : compare a a ≠ .lt := by
  simp [ReflCmp.compare_self]

theorem compare_asymm [Ord κ] [OrientedOrd κ] {a b : κ} (h : compare a b = .lt) :
    compare b a ≠ .lt := by
  intro h'
  have hgt := OrientedCmp.gt_of_lt h
  rw [h'] at hgt
  cases hgt

variable [Ord κ] [TransOrd κ]

/-- The key of the first pair comes strictly before the key of the second. -/
def KeyLt (a b : κ × ν) : Prop := compare a.1 b.1 = .lt

instance : Std.Irrefl (KeyLt : κ × ν → κ × ν → Prop) := ⟨fun a => compare_irrefl a.1⟩

instance : Std.Antisymm (KeyLt : κ × ν → κ × ν → Prop) :=
  ⟨fun _ _ h h' => absurd h' (compare_asymm h)⟩

/-- The entries in ascending key order, spelled as pairs. -/
def entries (m : ExtTreeMap κ ν) : List (κ × ν) := m.toList

/-- The values in ascending key order. -/
def valuesInOrder (m : ExtTreeMap κ ν) : List ν := (entries m).map Prod.snd

/-- A write leaves the other keys as they are. -/
theorem getElem?_insert_of_ne [LawfulEqOrd κ] {k k' : κ} (h : k ≠ k') (m : ExtTreeMap κ ν) (v : ν) :
    (m.insert k v)[k']? = m[k']? := by
  have hne : compare k k' ≠ .eq := fun he => h (LawfulEqOrd.eq_of_compare he)
  rw [ExtTreeMap.getElem?_insert, if_neg hne]

theorem getElem?_erase_of_ne [LawfulEqOrd κ] {k k' : κ} (h : k ≠ k') (m : ExtTreeMap κ ν) :
    (m.erase k)[k']? = m[k']? := by
  have hne : compare k k' ≠ .eq := fun he => h (LawfulEqOrd.eq_of_compare he)
  rw [ExtTreeMap.getElem?_erase, if_neg hne]

theorem entries_sorted (m : ExtTreeMap κ ν) : (entries m).Pairwise KeyLt :=
  ExtTreeMap.ordered_keys_toList

theorem mem_entries [LawfulEqOrd κ] {m : ExtTreeMap κ ν} {e : κ × ν} :
    e ∈ entries m ↔ m[e.1]? = some e.2 :=
  ExtTreeMap.mem_toList_iff_getElem?_eq_some

theorem mem_valuesInOrder [LawfulEqOrd κ] {m : ExtTreeMap κ ν} {v : ν} :
    v ∈ valuesInOrder m ↔ ∃ k : κ, m[k]? = some v := by
  rw [valuesInOrder, List.mem_map]
  constructor
  · rintro ⟨e, he, rfl⟩
    exact ⟨e.1, mem_entries.mp he⟩
  · rintro ⟨k, hk⟩
    exact ⟨(k, v), mem_entries.mpr hk, rfl⟩

theorem nodup_of_sorted {l : List (κ × ν)} (hs : l.Pairwise KeyLt) : (l.map Prod.fst).Nodup := by
  rw [List.Nodup, List.pairwise_map]
  refine hs.imp fun {a b} (hab : compare a.1 b.1 = .lt) (he : a.1 = b.1) => ?_
  rw [he] at hab
  exact compare_irrefl _ hab

/-- A sorted list with the map's entries is the map's list of entries. -/
theorem entries_eq_of_sorted [LawfulEqOrd κ] {m : ExtTreeMap κ ν} {l : List (κ × ν)}
    (hs : l.Pairwise KeyLt)
    (h : ∀ e, e ∈ l ↔ m[e.1]? = some e.2) : entries m = l :=
  (entries_sorted m).eq_of_mem_iff hs fun e => by rw [mem_entries, h]

/-! ## Overwriting one entry -/

theorem entries_insert [LawfulEqOrd κ] (m : ExtTreeMap κ ν) (k : κ) (v : ν) :
    entries (m.insert k v) = (entries m).filter (fun e => compare e.1 k = .lt) ++
      (k, v) :: (entries m).filter (fun e => compare k e.1 = .lt) := by
  apply entries_eq_of_sorted
  · rw [List.pairwise_append, List.pairwise_cons]
    refine ⟨(entries_sorted m).filter _, ⟨?_, (entries_sorted m).filter _⟩, ?_⟩
    · intro b hb
      have hkb : compare k b.1 = .lt := of_decide_eq_true (List.mem_filter.mp hb).2
      exact hkb
    · intro a ha b hb
      have hak : compare a.1 k = .lt := of_decide_eq_true (List.mem_filter.mp ha).2
      rcases List.mem_cons.mp hb with rfl | hb
      · exact hak
      · exact TransCmp.lt_trans hak (of_decide_eq_true (List.mem_filter.mp hb).2)
  · rintro ⟨k', v'⟩
    simp only [List.mem_append, List.mem_cons, List.mem_filter, mem_entries, decide_eq_true_eq,
      Prod.mk.injEq, ExtTreeMap.getElem?_insert, LawfulEqCmp.compare_eq_iff_eq]
    by_cases hk : k = k'
    · subst hk
      simp [ReflCmp.compare_self, eq_comm]
    · have hne : compare k k' ≠ .eq := fun h => hk (LawfulEqCmp.eq_of_compare h)
      have hswap : compare k' k = (compare k k').swap := OrientedCmp.eq_swap
      rw [if_neg hne, hswap]
      cases hc : compare k k' with
      | eq => exact absurd hc hne
      | _ => simp [Ne.symm hk]

section
variable {β : Type*} [LawfulEqOrd κ] {m m' : ExtTreeMap κ (List β)}

/-- Absent values and empty ones make no difference to the concatenation. -/
theorem flatten_values_congr (h : ∀ k : κ, (m[k]?).getD [] = (m'[k]?).getD []) :
    (valuesInOrder m).flatten = (valuesInOrder m').flatten := by
  have hfilter (m : ExtTreeMap κ (List β)) : (valuesInOrder m).flatten =
      (((entries m).filter fun e => e.2 ≠ []).map Prod.snd).flatten := by
    rw [valuesInOrder, ← List.flatten_filter_ne_nil, List.filter_map]
    rfl
  rw [hfilter, hfilter]
  congr 2
  refine ((entries_sorted m).filter _).eq_of_mem_iff ((entries_sorted m').filter _) ?_
  rintro ⟨k, v⟩
  have hval {o : Option (List β)} (hv : v ≠ []) : o = some v ↔ o.getD [] = v := by
    cases o <;> simp [hv.symm]
  simp only [List.mem_filter, mem_entries, decide_eq_true_eq]
  refine and_congr_left fun hv => ?_
  rw [hval hv, hval hv, h k]

/-- The concatenation shows which value a key has. -/
theorem flatten_values_insert_inj {k : κ} {v v' : List β} :
    (valuesInOrder (m.insert k v)).flatten = (valuesInOrder (m.insert k v')).flatten ↔ v = v' := by
  simp [valuesInOrder, entries_insert]

/-- Writing the value a key has anyway. -/
theorem flatten_values_rewrite {k : κ} {v : List β} (h : (m[k]?).getD [] = v) :
    (valuesInOrder (m.insert k v)).flatten = (valuesInOrder m).flatten := by
  refine flatten_values_congr fun k' => ?_
  rw [ExtTreeMap.getElem?_insert]
  split
  · rename_i hk
    rw [LawfulEqCmp.compare_eq_iff_eq] at hk
    rw [← hk, h]
    rfl
  · rfl

theorem flatten_values_eq_nil_iff :
    (valuesInOrder m).flatten = [] ↔ ∀ k : κ, (m[k]?).getD [] = [] := by
  rw [List.flatten_eq_nil_iff]
  constructor
  · intro h k
    cases hk : m[k]? with
    | none => rfl
    | some v => exact h v (mem_valuesInOrder.mpr ⟨k, hk⟩)
  · rintro h v hv
    obtain ⟨k, hk⟩ := mem_valuesInOrder.mp hv
    have hv := h k
    rw [hk] at hv
    exact hv

end

/-- A written key is the smallest one exactly if no other was smaller. -/
theorem minKey?_insert_eq_iff [LawfulEqOrd κ] {m : ExtTreeMap κ ν} {k : κ} {v : ν} :
    (m.insert k v).minKey? = some k ↔ ∀ k' ∈ m, compare k' k ≠ .lt := by
  rw [ExtTreeMap.minKey?_eq_some_iff_mem_and_forall]
  have hle (k' : κ) : (compare k k').isLE ↔ compare k' k ≠ .lt := by
    have hswap : compare k' k = (compare k k').swap := OrientedCmp.eq_swap
    rw [hswap]
    cases compare k k' <;> simp
  constructor
  · rintro ⟨_, h⟩ k' hk'
    exact (hle k').mp (h k' (ExtTreeMap.mem_insert.mpr (.inr hk')))
  · intro h
    refine ⟨ExtTreeMap.mem_insert_self, fun k' hk' => ?_⟩
    rcases ExtTreeMap.mem_insert.mp hk' with he | hm
    · rw [he]
      rfl
    · exact (hle k').mpr (h k' hm)

/-! ## Sorting by key -/

/-- A stable sort by key. -/
def sortByKey {α : Type*} (key : α → κ) (l : List α) : List α :=
  l.insertionSort fun a b => (compare (key a) (key b)).isLE

omit [TransOrd κ] in
theorem sortByKey_perm {α : Type*} (key : α → κ) (l : List α) : (sortByKey key l).Perm l :=
  List.perm_insertionSort _ _

/-- With distinct keys, the sorted keys are strictly ascending. -/
theorem sortByKey_sorted [LawfulEqOrd κ] {α : Type*} {key : α → κ} {l : List α}
    (hd : (l.map key).Nodup) :
    (sortByKey key l).Pairwise fun a b => compare (key a) (key b) = .lt := by
  have : Std.Total fun a b : α => (compare (key a) (key b)).isLE := by
    constructor
    intro a b
    rw [show compare (key b) (key a) = _ from OrientedCmp.eq_swap]
    cases compare (key a) (key b) <;> simp
  have : IsTrans α fun a b => (compare (key a) (key b)).isLE := ⟨fun _ _ _ => TransCmp.isLE_trans⟩
  have hk : ((sortByKey key l).map key).Nodup := ((sortByKey_perm key l).map key).nodup_iff.mpr hd
  rw [List.Nodup, List.pairwise_map] at hk
  refine ((List.pairwise_insertionSort _ l).and hk).imp ?_
  rintro a b ⟨hle, hne⟩
  cases hc : compare (key a) (key b) with
  | lt => rfl
  | eq => exact absurd (LawfulEqOrd.eq_of_compare hc) hne
  | gt => simp [hc] at hle

/-- The distinct keys of a list, ascending. -/
def ascending [DecidableEq κ] (l : List κ) : List κ := sortByKey id l.dedup

omit [TransOrd κ] in
@[simp] theorem mem_ascending [DecidableEq κ] {x : κ} {l : List κ} : x ∈ ascending l ↔ x ∈ l := by
  rw [ascending, (sortByKey_perm id l.dedup).mem_iff, List.mem_dedup]

theorem ascending_sorted [DecidableEq κ] [LawfulEqOrd κ] (l : List κ) :
    (ascending l).Pairwise fun a b => compare a b = .lt :=
  sortByKey_sorted (by simpa using l.nodup_dedup)

/-! ## Writes -/

/-- Apply the writes one after another. -/
def insertAll (m : ExtTreeMap κ ν) (ws : List (κ × ν)) : ExtTreeMap κ ν :=
  ws.foldl (fun m w => m.insert w.1 w.2) m

theorem insertAll_concat (m : ExtTreeMap κ ν) (ws : List (κ × ν)) (w : κ × ν) :
    insertAll m (ws ++ [w]) = (insertAll m ws).insert w.1 w.2 := by
  simp [insertAll]

variable [LawfulEqOrd κ] [DecidableEq κ]

theorem getElem?_insertAll (ws : List (κ × ν)) (k : κ) :
    (insertAll (∅ : ExtTreeMap κ ν) ws)[k]? = lastWrite ws k := by
  induction ws using List.reverseRecOn with
  | nil => simp [insertAll, lastWrite]
  | append_singleton ws w ih =>
    rw [insertAll_concat, lastWrite_concat, ExtTreeMap.getElem?_insert, ih]
    by_cases h : w.1 = k <;> simp [h]

/-- The entries of a map of writes: each written key, ascending, with its last value. -/
theorem entries_insertAll (ws : List (κ × ν)) :
    entries (insertAll (∅ : ExtTreeMap κ ν) ws) =
      (ascending (ws.map Prod.fst)).filterMap fun k => (lastWrite ws k).map (k, ·) := by
  apply entries_eq_of_sorted
  · apply List.Pairwise.filterMap _ _ (ascending_sorted _)
    intro a b hab x hx y hy
    obtain ⟨_, _, rfl⟩ := Option.map_eq_some_iff.mp hx
    obtain ⟨_, _, rfl⟩ := Option.map_eq_some_iff.mp hy
    exact hab
  · rintro ⟨k, v⟩
    rw [getElem?_insertAll, List.mem_filterMap]
    constructor
    · rintro ⟨a, _, ha⟩
      obtain ⟨u, hu, he⟩ := Option.map_eq_some_iff.mp ha
      obtain ⟨rfl, rfl⟩ := Prod.mk.injEq .. ▸ he
      exact hu
    · intro h
      refine ⟨k, ?_, by simp [h]⟩
      rw [mem_ascending, ← isSome_lastWrite, h]
      rfl

/-- Writes with distinct keys, listed in ascending order, are the entries. -/
theorem entries_insertAll_sorted {ws sorted : List (κ × ν)} (hp : sorted.Perm ws)
    (hs : sorted.Pairwise KeyLt) : entries (insertAll (∅ : ExtTreeMap κ ν) ws) = sorted := by
  have hd : (ws.map Prod.fst).Nodup := by
    rw [← (hp.map Prod.fst).nodup_iff]
    exact nodup_of_sorted hs
  apply entries_eq_of_sorted hs
  rintro ⟨k, v⟩
  rw [getElem?_insertAll, lastWrite_eq_some_iff hd, hp.mem_iff]

end FeedMux.Library
