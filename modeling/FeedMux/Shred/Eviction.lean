import FeedMux.Shred.Duplicates

/-!
# Eviction

A full reassembler drops its smallest key. So a new key survives its own push
exactly if there is room or a smaller key to drop (`Admits`); otherwise every
unflagged shred of it is dropped at once, and the set comes back as its last
payload only (`restored_whole_iff`).
-/

namespace FeedMux.Shred
open FeedMux.Library Std

/-- The shreds of an FEC set in ascending index order; only the last is flagged. -/
structure InOrder (k : SetKey) (first : List ParsedDataShred) (last : ParsedDataShred) : Prop where
  sameKey : ∀ s ∈ first ++ [last], s.key = k
  ascending : (first ++ [last]).Pairwise fun s t => s.index < t.index
  unflagged : ∀ s ∈ first, s.dataComplete = false
  flagged : last.dataComplete = true

def payloads (shreds : List ParsedDataShred) : Bytes := shreds.flatMap ParsedDataShred.payload

/-- Shreds in ascending index order are assembled as they are. -/
theorem assemble_ascending {shreds : List ParsedDataShred}
    (h : shreds.Pairwise fun s t => s.index < t.index) : assemble shreds = payloads shreds := by
  have hs : (shreds.map fun shred => (shred.index, shred.payload)).Pairwise KeyLt := by
    rw [List.pairwise_map]
    exact h.imp fun {s t} hlt => Std.compare_eq_lt.mpr hlt
  rw [← valuesInOrder_indexMap, valuesInOrder, indexMap, entries_insertAll_sorted (.refl _) hs,
    List.map_map]
  rfl

namespace ShredReassembler

/-- There is room for a new key, or a smaller key to drop. -/
def Admits (r : ShredReassembler) (k : SetKey) : Prop :=
  r.sets.size < r.maxSets ∨ ∃ k' ∈ r.sets, compare k' k = .lt

theorem trimOldSets_full {r : ShredReassembler} (h : r.sets.size = r.maxSets + 1) {k : SetKey}
    (hk : r.sets.minKey? = some k) : r.trimOldSets = { r with sets := r.sets.erase k } := by
  have hc : r.sets.contains k := ExtTreeMap.contains_iff_mem.mpr (ExtTreeMap.minKey?_mem hk)
  have hsize : (r.sets.erase k).size ≤ r.maxSets := by
    rw [ExtTreeMap.size_erase, if_pos hc]
    omega
  rw [trimOldSets, h, trimLoop, if_pos (by omega), hk]
  simp only
  rw [trimLoop_of_le hsize]

/-! ## Which keys are buffered -/

theorem mem_of_mem_trimLoop {maxSets rounds : Nat} {sets : ExtTreeMap SetKey FecSetBuffer}
    {k : SetKey} (h : k ∈ trimLoop maxSets rounds sets) : k ∈ sets := by
  induction rounds generalizing sets with
  | zero => exact h
  | succ rounds ih =>
    unfold trimLoop at h
    split at h
    · split at h
      · exact ExtTreeMap.mem_of_mem_erase (ih h)
      · exact h
    · exact h

theorem mem_push {r : ShredReassembler} {shred : ParsedDataShred} {k : SetKey}
    (h : k ∈ (r.push shred).1.sets) : shred.key = k ∨ k ∈ r.sets := by
  rw [push_eq] at h
  have hu : k ∈ (r.untrimmed shred).1.sets := mem_of_mem_trimLoop h
  rw [untrimmed_sets] at hu
  have hi : k ∈ r.sets.insert shred.key ((r.buffer shred.key).add shred) := by
    simp only at hu
    split at hu
    · exact ExtTreeMap.mem_of_mem_erase hu
    · exact hu
  rcases ExtTreeMap.mem_insert.mp hi with he | hm
  · exact .inl (LawfulEqOrd.eq_of_compare he)
  · exact .inr hm

/-- Only keys that were pushed are buffered. -/
theorem key_of_mem_runs {m : Nat} {shreds : List ParsedDataShred} {k : SetKey}
    (h : k ∈ (runs push (.new m) shreds).1.sets) : ∃ shred ∈ shreds, shred.key = k := by
  induction shreds using List.reverseRecOn with
  | nil => exact absurd h ExtTreeMap.not_mem_empty
  | append_singleton shreds shred ih =>
    rw [runs_concat] at h
    rcases mem_push h with hk | hm
    · exact ⟨shred, by simp, hk⟩
    · obtain ⟨s, hs, hk⟩ := ih hm
      exact ⟨s, List.mem_append_left _ hs, hk⟩

/-! ## Pushes without the flag -/

section
variable {r : ShredReassembler} {shred : ParsedDataShred}

theorem push_unflagged (hu : shred.dataComplete = false) :
    r.push shred = (trimOldSets
      { r with sets := r.sets.insert shred.key ((r.buffer shred.key).add shred) }, none) := by
  have hnone : (r.untrimmed shred).2 = none := by
    rw [untrimmed_output, hu]
    rfl
  have hsets := untrimmed_sets r shred
  rw [hnone] at hsets
  rw [push_eq, hnone]
  exact congrArg (fun sets => (trimOldSets { r with sets }, none)) hsets

/-- A key that is buffered stays so. -/
theorem push_present (hr : r.sets.size ≤ r.maxSets) {buf : FecSetBuffer}
    (hb : r.sets[shred.key]? = some buf) (hu : shred.dataComplete = false) :
    (r.push shred).1.sets[shred.key]? = some (buf.add shred) := by
  have hm : shred.key ∈ r.sets := ExtTreeMap.mem_iff_isSome_getElem?.mpr (by rw [hb]; rfl)
  have hbuf : r.buffer shred.key = buf := by
    rw [buffer, hb]
    rfl
  rw [push_unflagged hu, hbuf, trimOldSets_of_le]
  · exact ExtTreeMap.getElem?_insert_self
  · show (r.sets.insert _ _).size ≤ r.maxSets
    rw [ExtTreeMap.size_insert, if_pos (ExtTreeMap.contains_iff_mem.mpr hm)]
    exact hr

/-- A new key makes the map larger by one. -/
theorem size_insert_new {r : ShredReassembler} {k : SetKey} (hk : r.sets[k]? = none)
    (buf : FecSetBuffer) : (r.sets.insert k buf).size = r.sets.size + 1 := by
  have hm : ¬ r.sets.contains k := by
    rw [ExtTreeMap.contains_iff_mem, ExtTreeMap.mem_iff_isSome_getElem?, hk]
    simp
  rw [ExtTreeMap.size_insert, if_neg hm]

/-- An admitted key is buffered. -/
theorem push_admitted (hr : r.sets.size ≤ r.maxSets) (hk : r.sets[shred.key]? = none)
    (ha : r.Admits shred.key) (hu : shred.dataComplete = false) :
    (r.push shred).1.sets[shred.key]? = some ((r.buffer shred.key).add shred) := by
  have hsize := size_insert_new hk ((r.buffer shred.key).add shred)
  rw [push_unflagged hu]
  by_cases hroom : r.sets.size < r.maxSets
  · rw [trimOldSets_of_le]
    · exact ExtTreeMap.getElem?_insert_self
    · show (r.sets.insert _ _).size ≤ r.maxSets
      omega
  · have hfull : r.sets.size = r.maxSets := by omega
    obtain ⟨small, hmem, hlt⟩ := ha.resolve_left hroom
    rw [hfull] at hsize
    cases hmin : (r.sets.insert shred.key ((r.buffer shred.key).add shred)).minKey? with
    | none =>
      rw [ExtTreeMap.minKey?_eq_none_iff] at hmin
      simp [hmin] at hsize
    | some k =>
      rw [trimOldSets_full hsize hmin]
      have hne : k ≠ shred.key := by
        rintro rfl
        rw [minKey?_insert_eq_iff] at hmin
        exact hmin small hmem hlt
      show ((r.sets.insert _ _).erase k)[shred.key]? = _
      rw [getElem?_erase_of_ne hne, ExtTreeMap.getElem?_insert_self]

/-- Any other new key is dropped at once. -/
theorem push_starved (hr : r.sets.size ≤ r.maxSets) (hk : r.sets[shred.key]? = none)
    (ha : ¬ r.Admits shred.key) (hu : shred.dataComplete = false) : (r.push shred).1 = r := by
  obtain ⟨hroom, hsmall⟩ := not_or.mp ha
  have hfull : r.sets.size = r.maxSets := by omega
  have hsize := size_insert_new hk ((r.buffer shred.key).add shred)
  rw [hfull] at hsize
  have hmin : (r.sets.insert shred.key ((r.buffer shred.key).add shred)).minKey? =
      some shred.key := by
    rw [minKey?_insert_eq_iff]
    intro k' hk' hlt
    exact hsmall ⟨k', hk', hlt⟩
  have hsame : (r.sets.insert shred.key ((r.buffer shred.key).add shred)).erase shred.key =
      r.sets := by
    apply ExtTreeMap.ext_getElem?
    intro k
    rw [ExtTreeMap.getElem?_erase, ExtTreeMap.getElem?_insert]
    split
    · rename_i he
      rw [← LawfulEqOrd.eq_of_compare he, hk]
    · rfl
  rw [push_unflagged hu, trimOldSets_full hsize hmin, hsame]

/-- What a flagged push returns when `past` is buffered, whatever it evicts. -/
theorem push_flagged {past : List ParsedDataShred} (hb : r.sets[shred.key]? = buffered past)
    (hf : shred.dataComplete = true) :
    (r.push shred).2 = if assemble (past ++ [shred]) = [] then none
      else some ⟨shred.slot, shred.fecSetIndex, assemble (past ++ [shred])⟩ := by
  have hbytes : ((r.buffer shred.key).add shred).bytes = assemble (past ++ [shred]) := by
    rw [FecSetBuffer.add, buffer, hb, buffered_getD, ← indexMap_concat]
    exact valuesInOrder_indexMap _
  rw [push_eq]
  show (r.untrimmed shred).2 = _
  rw [untrimmed_output, hbytes]
  by_cases hnil : assemble (past ++ [shred]) = []
  · rw [if_pos hnil, if_neg fun h => h.2 hnil]
  · rw [if_neg hnil, if_pos ⟨hf, hnil⟩]

end

/-! ## The unflagged part of a set -/

section
variable {r : ShredReassembler} {k : SetKey} {first : List ParsedDataShred}

theorem first_admitted (hr : r.sets.size ≤ r.maxSets) (hk : r.sets[k]? = none) (ha : r.Admits k)
    (hkey : ∀ s ∈ first, s.key = k) (hu : ∀ s ∈ first, s.dataComplete = false) :
    (runs push r first).1.sets[k]? = buffered first := by
  induction first using List.reverseRecOn with
  | nil => exact hk
  | append_singleton first s ih =>
    have ih := ih (fun t ht => hkey t (List.mem_append_left _ ht))
      fun t ht => hu t (List.mem_append_left _ ht)
    have hs : s.key = k := hkey s (by simp)
    have hus : s.dataComplete = false := hu s (by simp)
    subst hs
    rw [runs_concat, buffered_concat, indexMap_concat]
    by_cases hnil : first = []
    · subst hnil
      have hbuf : r.buffer s.key = {} := by
        rw [buffer, hk]
        rfl
      rw [runs_nil, push_admitted hr hk ha hus, hbuf]
      rfl
    · rw [buffered, if_neg hnil] at ih
      exact push_present (runs_size hr _) ih hus

theorem first_starved (hr : r.sets.size ≤ r.maxSets) (hk : r.sets[k]? = none)
    (ha : ¬ r.Admits k) (hkey : ∀ s ∈ first, s.key = k)
    (hu : ∀ s ∈ first, s.dataComplete = false) : (runs push r first).1 = r := by
  induction first with
  | nil => rfl
  | cons s first ih =>
    have hs : s.key = k := hkey s (by simp)
    rw [runs_cons, push_starved hr (hs ▸ hk) (hs ▸ ha) (hu s (by simp))]
    exact ih (fun t ht => hkey t (List.mem_cons_of_mem _ ht))
      fun t ht => hu t (List.mem_cons_of_mem _ ht)

end

/-- **Starvation.** In any reachable state, an unbuffered FEC set pushed in order
comes back whole exactly if it has bytes and its key is admitted, or only its
last shred has any. -/
theorem restored_whole_iff (m : Nat) (before first : List ParsedDataShred)
    (last : ParsedDataShred) (k : SetKey) (h : InOrder k first last)
    (hk : (runs push (.new m) before).1.sets[k]? = none) :
    let r := (runs push (.new m) before).1
    ((runs push r first).1.push last).2 = some ⟨k.1, k.2, payloads (first ++ [last])⟩ ↔
      payloads (first ++ [last]) ≠ [] ∧ (r.Admits k ∨ ∀ s ∈ first, s.payload = []) := by
  intro r
  have hr : r.sets.size ≤ r.maxSets := runs_size (Nat.zero_le _) before
  have hkey : ∀ s ∈ first, s.key = k := fun s hs => h.sameKey s (List.mem_append_left _ hs)
  have hlast : last.key = k := h.sameKey last (by simp)
  obtain ⟨hslot, hfec⟩ := Prod.mk.inj hlast
  by_cases ha : r.Admits k
  · have hb := first_admitted hr hk ha hkey h.unflagged
    rw [push_flagged (hlast.symm ▸ hb) h.flagged, assemble_ascending h.ascending]
    split
    · simp [*]
    · simp [*]
  · have hstarved := first_starved hr hk ha hkey h.unflagged
    have hb : r.sets[last.key]? = buffered [] := by
      rw [hlast]
      exact hk
    have hone : assemble ([] ++ [last]) = last.payload := by
      rw [List.nil_append, assemble_ascending (List.pairwise_singleton _ last)]
      exact List.flatMap_singleton ..
    have hall : payloads (first ++ [last]) = payloads first ++ last.payload := by
      simp [payloads]
    have hfirst : payloads first = [] ↔ ∀ s ∈ first, s.payload = [] := List.flatMap_eq_nil_iff
    rw [hstarved, push_flagged hb h.flagged, hone, hall, ← hfirst]
    by_cases hnil : last.payload = []
    · simp [hnil, ha]
    · rw [if_neg hnil]
      simp [hnil, ha, hslot, hfec]

/-! Sixteen sets that never complete fill the reassembler: a later slot still comes
back whole, an earlier one has lost its first byte. -/

def lingering : List ParsedDataShred :=
  (List.range 16).map fun n => ⟨100 + UInt64.ofNat n, 0, 0, false, false, [1]⟩

def crowded : ShredReassembler := (runs push (.new 8) lingering).1

def firstOf (slot : UInt64) : ParsedDataShred := ⟨slot, 0, 0, false, false, [97]⟩

def lastOf (slot : UInt64) : ParsedDataShred := ⟨slot, 1, 0, true, false, [98]⟩

theorem restored_whole_sample :
    ((runs push crowded [firstOf 200]).1.push (lastOf 200)).2 = some ⟨200, 0, [97, 98]⟩ :=
  (restored_whole_iff 8 lingering [firstOf 200] (lastOf 200) (200, 0)
    ⟨by decide, by decide, by decide, rfl⟩ (by decide +kernel)).mpr
    ⟨by decide, .inl (.inr ⟨(100, 0), by decide +kernel, by decide⟩)⟩

theorem crowded_starves : ¬ crowded.Admits (1, 0) := by
  have hfull : crowded.sets.size = crowded.maxSets := by decide +kernel
  rintro (hroom | ⟨k', hk', hlt⟩)
  · omega
  · obtain ⟨shred, hs, rfl⟩ := key_of_mem_runs hk'
    clear hk'
    revert shred
    decide

theorem restored_whole_fails : ¬ ∀ (m : Nat) (before first : List ParsedDataShred)
    (last : ParsedDataShred) (k : SetKey), InOrder k first last →
    (runs push (.new m) before).1.sets[k]? = none →
    let r := (runs push (.new m) before).1
    ((runs push r first).1.push last).2 =
      some ⟨k.1, k.2, payloads (first ++ [last])⟩ := by
  intro h
  have hk : crowded.sets[((1, 0) : SetKey)]? = none := by decide +kernel
  have hsize : crowded.sets.size ≤ crowded.maxSets := runs_size (Nat.zero_le _) lingering
  have hsame : (runs push crowded [firstOf 1]).1 = crowded :=
    first_starved hsize hk crowded_starves (by decide) (by decide)
  have hlast : (crowded.push (lastOf 1)).2 = some ⟨1, 0, [98]⟩ := by decide +kernel
  have hwhole : ((runs push crowded [firstOf 1]).1.push (lastOf 1)).2 = some ⟨1, 0, [97, 98]⟩ :=
    h 8 lingering [firstOf 1] (lastOf 1) (1, 0) ⟨by decide, by decide, by decide, rfl⟩ hk
  rw [hsame, hlast] at hwhole
  exact absurd hwhole (by decide)

end ShredReassembler
end FeedMux.Shred
