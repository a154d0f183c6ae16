import FeedMux.Shred.Eviction

/-!
# What a push leaves behind (`src/shred/reassembly.rs`)

A push writes its own set (`grown`) and then drops at most one: its own if it
completed, and else the smallest key if there is one set too many
(`push_cases`). In every reachable state this keeps the reassembler within its
bound and every other set as it was (`buffering_bounded`).
-/

namespace FeedMux.Shred.ShredReassembler
open FeedMux.Library Std

/-- The sets once the shred is buffered, before any is dropped. -/
def grown (r : ShredReassembler) (shred : ParsedDataShred) : ExtTreeMap SetKey FecSetBuffer :=
  r.sets.insert shred.key ((r.buffer shred.key).add shred)

/-- What holds of a reassembler between two pushes. -/
structure Buffering (m : Nat) (r : ShredReassembler) : Prop where
  maxSets : r.maxSets = max m 16
  bounded : r.sets.size ≤ max m 16
  nonempty : ∀ (k : SetKey) (buf : FecSetBuffer), r.sets[k]? = some buf → buf.shreds ≠ ∅

/-- What a push may change. The smallest key is that of the sets with the pushed
one among them. -/
structure EvictsAtMost (m : Nat) (r : ShredReassembler) (shred : ParsedDataShred) : Prop where
  frame : ∀ k, k ≠ shred.key → (r.grown shred).minKey? ≠ some k →
    (r.push shred).1.sets[k]? = r.sets[k]?
  pushed : (r.push shred).2 = none → (r.grown shred).minKey? ≠ some shred.key →
    (r.push shred).1.sets[shred.key]? = some ((r.buffer shred.key).add shred)
  smallest : ∀ k, (r.push shred).2 = none → (r.grown shred).minKey? = some k →
    (r.push shred).1.sets[k]? = (r.grown shred)[k]? ∨
      (r.push shred).1.sets[k]? = none ∧ (r.grown shred).size = max m 16 + 1
  batch : (r.push shred).2.isSome → (r.push shred).1.sets[shred.key]? = none ∧
    ∀ k, k ≠ shred.key → (r.push shred).1.sets[k]? = r.sets[k]?

section
variable {r : ShredReassembler} {shred : ParsedDataShred}

theorem grown_own (r : ShredReassembler) (shred : ParsedDataShred) :
    (r.grown shred)[shred.key]? = some ((r.buffer shred.key).add shred) :=
  ExtTreeMap.getElem?_insert_self

theorem grown_other {k : SetKey} (hk : k ≠ shred.key) : (r.grown shred)[k]? = r.sets[k]? :=
  getElem?_insert_of_ne hk.symm _ _

theorem grown_size (hr : r.sets.size ≤ r.maxSets) : (r.grown shred).size ≤ r.maxSets + 1 := by
  rw [grown, ExtTreeMap.size_insert]
  split <;> omega

/-- **One push.** It completes its set, or keeps all sets, or drops the smallest. -/
theorem push_cases (hr : r.sets.size ≤ r.maxSets) (shred : ParsedDataShred) :
    ((r.push shred).2.isSome ∧ (r.push shred).1.sets = (r.grown shred).erase shred.key) ∨
      ((r.push shred).2 = none ∧ (r.push shred).1.sets = r.grown shred) ∨
      ∃ k, (r.push shred).2 = none ∧ (r.grown shred).minKey? = some k ∧
        (r.grown shred).size = r.maxSets + 1 ∧
        (r.push shred).1.sets = (r.grown shred).erase k := by
  have hsets := untrimmed_sets r shred
  rw [push_eq]
  cases hb : (r.untrimmed shred).2 with
  | some batch =>
    have hsome : (r.untrimmed shred).2.isSome := by
      rw [hb]
      rfl
    have hfit := (untrimmed_size_of_batch hsome).trans hr
    rw [trimOldSets_of_le hfit]
    rw [hb] at hsets
    exact .inl ⟨rfl, hsets⟩
  | none =>
    rw [hb] at hsets
    replace hsets : (r.untrimmed shred).1.sets = r.grown shred := hsets
    right
    by_cases hfit : (r.grown shred).size ≤ r.maxSets
    · rw [trimOldSets_of_le (by rw [hsets]; exact hfit)]
      exact .inl ⟨rfl, hsets⟩
    · have hfull : (r.grown shred).size = r.maxSets + 1 := by
        have hle : (r.grown shred).size ≤ r.maxSets + 1 := grown_size hr
        omega
      cases hmin : (r.grown shred).minKey? with
      | none =>
        rw [ExtTreeMap.minKey?_eq_none_iff] at hmin
        simp [hmin] at hfull
      | some k =>
        rw [← hsets] at hmin hfull
        rw [trimOldSets_full hfull hmin, hsets]
        exact .inr ⟨k, rfl, rfl, hsets ▸ hfull, rfl⟩

theorem evicts_at_most {m : Nat} (hr : Buffering m r) : EvictsAtMost m r shred := by
  have hcases := push_cases (hr.maxSets ▸ hr.bounded) shred
  rw [hr.maxSets] at hcases
  rcases hcases with ⟨hsome, hsets⟩ | ⟨hnone, hsets⟩ | ⟨small, hnone, hmin, hfull, hsets⟩
  · have hother : ∀ k, k ≠ shred.key → (r.push shred).1.sets[k]? = r.sets[k]? := by
      intro k hk
      rw [hsets, getElem?_erase_of_ne hk.symm, grown_other hk]
    have hemits : (r.push shred).2 ≠ none := Option.isSome_iff_ne_none.mp hsome
    constructor
    · intro k hk _
      exact hother k hk
    · intro hnone _
      exact absurd hnone hemits
    · intro k hnone _
      exact absurd hnone hemits
    · intro _
      refine ⟨?_, hother⟩
      rw [hsets]
      exact ExtTreeMap.getElem?_erase_self
  · constructor
    · intro k hk _
      rw [hsets, grown_other hk]
    · intro _ _
      rw [hsets, grown_own]
    · intro k _ _
      rw [hsets]
      exact .inl rfl
    · intro hsome
      rw [hnone] at hsome
      cases hsome
  · have hother : ∀ k, (r.grown shred).minKey? ≠ some k →
        (r.push shred).1.sets[k]? = (r.grown shred)[k]? := by
      intro k hk
      have hne : small ≠ k := by
        rintro rfl
        exact hk hmin
      rw [hsets, getElem?_erase_of_ne hne]
    constructor
    · intro k hk hmin'
      rw [hother k hmin', grown_other hk]
    · intro _ hmin'
      rw [hother _ hmin', grown_own]
    · intro k _ hmin'
      obtain rfl := Option.some.inj (hmin.symm.trans hmin')
      refine .inr ⟨?_, hfull⟩
      rw [hsets]
      exact ExtTreeMap.getElem?_erase_self
    · intro hsome
      rw [hnone] at hsome
      cases hsome

/-- A push only ever leaves sets that it grew. -/
theorem mem_grown (hr : r.sets.size ≤ r.maxSets) {k : SetKey} {buf : FecSetBuffer}
    (h : (r.push shred).1.sets[k]? = some buf) : (r.grown shred)[k]? = some buf := by
  have herase {k' : SetKey} (h : ((r.grown shred).erase k')[k]? = some buf) :
      (r.grown shred)[k]? = some buf := by
    rw [ExtTreeMap.getElem?_erase] at h
    split at h
    · cases h
    · exact h
  rcases push_cases hr shred with ⟨_, hsets⟩ | ⟨_, hsets⟩ | ⟨_, _, _, _, hsets⟩
  · rw [hsets] at h
    exact herase h
  · rwa [hsets] at h
  · rw [hsets] at h
    exact herase h

theorem Buffering.push {m : Nat} (hr : Buffering m r) : Buffering m (r.push shred).1 := by
  have hfit : r.sets.size ≤ r.maxSets := hr.maxSets ▸ hr.bounded
  have hmax : (r.push shred).1.maxSets = max m 16 := (push_maxSets r shred).trans hr.maxSets
  refine ⟨hmax, ?_, ?_⟩
  · have hsize := push_size r shred
    rwa [hr.maxSets] at hsize
  · intro k buf hbuf
    have hgrown := mem_grown hfit hbuf
    by_cases hk : k = shred.key
    · subst hk
      rw [grown_own] at hgrown
      obtain rfl := Option.some.inj hgrown
      intro hempty
      have hself : ((r.buffer shred.key).add shred).shreds[shred.index]? = some shred.payload :=
        ExtTreeMap.getElem?_insert_self
      rw [hempty] at hself
      cases hself
    · rw [grown_other hk] at hgrown
      exact hr.nonempty k buf hgrown

end

theorem buffering_runs (m : Nat) (shreds : List ParsedDataShred) :
    Buffering m (runs push (.new m) shreds).1 := by
  refine runs_history (R := fun _ _ r => Buffering m r) ?_ ?_ shreds
  · refine ⟨rfl, Nat.zero_le _, ?_⟩
    intro k buf hbuf
    cases hbuf
  · intro _ _ r shred hr
    exact hr.push

/-- **Bounded buffering.** In every reachable state a push keeps the bound and
drops at most the smallest set, and that only for want of room. -/
theorem buffering_bounded (m : Nat) (before : List ParsedDataShred) (shred : ParsedDataShred) :
    Buffering m ((runs push (.new m) before).1.push shred).1 ∧
      EvictsAtMost m (runs push (.new m) before).1 shred :=
  ⟨(buffering_runs m before).push, evicts_at_most (buffering_runs m before)⟩

end FeedMux.Shred.ShredReassembler
