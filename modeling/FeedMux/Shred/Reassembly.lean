import FeedMux.Library.Run
import FeedMux.Library.OrderedMap
import FeedMux.Shred.Parse

/-!
# Reassembly of FEC sets (`src/shred/reassembly.rs`)

A push either completes its set or buffers the shred. As long as nothing is
evicted, what a key has buffered is determined by the shreds pushed for that
key since its last batch (`buffered_after`), and so is the batch a push returns
(`push_output`). An FEC set is put back together whole exactly when its
data-complete shred comes last (`restored_iff_completed_last`).
-/

namespace FeedMux.Shred
open FeedMux.Library Std

/-- Slot and FEC set index. -/
abbrev SetKey := UInt64 × UInt32

instance : Ord SetKey := lexOrd

structure FecSetBuffer where
  shreds : ExtTreeMap UInt32 Bytes := ∅

structure ShredReassembler where
  sets : ExtTreeMap SetKey FecSetBuffer := ∅
  maxSets : Nat

structure DeshredBatch where
  slot : UInt64
  fecSetIndex : UInt32
  bytes : Bytes
  deriving DecidableEq, Repr

def ParsedDataShred.key (shred : ParsedDataShred) : SetKey := (shred.slot, shred.fecSetIndex)

def FecSetBuffer.deshred (buf : FecSetBuffer) (slot : UInt64) (fecSetIndex : UInt32) :
    Option DeshredBatch :=
  if buf.shreds.isEmpty then none
  else
    let bytes := (valuesInOrder buf.shreds).flatten
    if bytes.isEmpty then none else some ⟨slot, fecSetIndex, bytes⟩

/-- The payloads in index order. -/
def FecSetBuffer.bytes (buf : FecSetBuffer) : Bytes := (valuesInOrder buf.shreds).flatten

theorem FecSetBuffer.deshred_eq (buf : FecSetBuffer) (slot : UInt64) (fecSetIndex : UInt32) :
    buf.deshred slot fecSetIndex =
      if buf.bytes = [] then none else some ⟨slot, fecSetIndex, buf.bytes⟩ := by
  unfold deshred bytes
  by_cases he : buf.shreds.isEmpty
  · rw [if_pos he, ExtTreeMap.isEmpty_iff.mp he]
    rfl
  · rw [if_neg he]
    simp

namespace ShredReassembler

def new (maxSets : Nat) : ShredReassembler := { maxSets := max maxSets 16 }

/-- Drop the oldest key while there are too many. Every round drops one, so the
map's size bounds the rounds. -/
def trimLoop (maxSets : Nat) : Nat → ExtTreeMap SetKey FecSetBuffer →
    ExtTreeMap SetKey FecSetBuffer
  | 0, sets => sets
  | rounds + 1, sets =>
    if sets.size > maxSets then
      match sets.minKey? with
      | some k => trimLoop maxSets rounds (sets.erase k)
      | none => sets
    else sets

def trimOldSets (r : ShredReassembler) : ShredReassembler :=
  { r with sets := trimLoop r.maxSets r.sets.size r.sets }

/-- Insert a data shred; returns concatenated entry bytes when the FEC set completes. -/
def push (r : ShredReassembler) (shred : ParsedDataShred) :
    ShredReassembler × Option DeshredBatch :=
  let key := shred.key
  let buf := (r.sets[key]?).getD {}
  let buf : FecSetBuffer := { shreds := buf.shreds.insert shred.index shred.payload }
  let r := { r with sets := r.sets.insert key buf }
  if !shred.dataComplete then (r.trimOldSets, none)
  else
    match buf.deshred shred.slot shred.fecSetIndex with
    | none => (r.trimOldSets, none)
    | some batch => (trimOldSets { r with sets := r.sets.erase key }, some batch)

/-! ## Trimming -/

theorem trimLoop_of_le {maxSets : Nat} {sets : ExtTreeMap SetKey FecSetBuffer}
    (h : sets.size ≤ maxSets) (rounds : Nat) : trimLoop maxSets rounds sets = sets := by
  cases rounds with
  | zero => rfl
  | succ rounds => exact if_neg (by omega)

theorem trimLoop_size {maxSets rounds : Nat} {sets : ExtTreeMap SetKey FecSetBuffer}
    (h : sets.size ≤ maxSets + rounds) : (trimLoop maxSets rounds sets).size ≤ maxSets := by
  induction rounds generalizing sets with
  | zero => exact h
  | succ rounds ih =>
    unfold trimLoop
    split
    case isFalse => omega
    case isTrue hgt =>
      cases hk : sets.minKey? with
      | none =>
        rw [ExtTreeMap.minKey?_eq_none_iff] at hk
        simp [hk] at hgt
      | some k =>
        have hc : sets.contains k := ExtTreeMap.contains_iff_mem.mpr (ExtTreeMap.minKey?_mem hk)
        refine ih ?_
        rw [ExtTreeMap.size_erase, if_pos hc]
        omega

/-- After trimming at most `max_sets` sets are left. -/
theorem trimOldSets_size (r : ShredReassembler) : r.trimOldSets.sets.size ≤ r.maxSets :=
  trimLoop_size (by omega)

theorem trimOldSets_of_le {r : ShredReassembler} (h : r.sets.size ≤ r.maxSets) :
    r.trimOldSets = r := by
  rw [trimOldSets, trimLoop_of_le h]

/-! ## A push without eviction -/

/-- `push` up to its call of `trim_old_sets`. -/
def untrimmed (r : ShredReassembler) (shred : ParsedDataShred) :
    ShredReassembler × Option DeshredBatch :=
  let buf : FecSetBuffer :=
    { shreds := ((r.sets[shred.key]?).getD {}).shreds.insert shred.index shred.payload }
  let batch := if shred.dataComplete then buf.deshred shred.slot shred.fecSetIndex else none
  let sets := r.sets.insert shred.key buf
  ({ r with sets := if batch.isSome then sets.erase shred.key else sets }, batch)

theorem push_eq (r : ShredReassembler) (shred : ParsedDataShred) :
    r.push shred = ((r.untrimmed shred).1.trimOldSets, (r.untrimmed shred).2) := by
  unfold push untrimmed
  cases shred.dataComplete with
  | false => simp
  | true =>
    simp only [Bool.not_true, Bool.false_eq_true, ↓reduceIte]
    split
    · rename_i hb
      simp [hb]
    · rename_i hb
      simp [hb]

/-- No push of the run finds more than `max_sets` sets to trim. -/
def NeverEvicts : ShredReassembler → List ParsedDataShred → Prop
  | _, [] => True
  | r, shred :: shreds =>
    (r.untrimmed shred).1.sets.size ≤ r.maxSets ∧ NeverEvicts (r.push shred).1 shreds

instance decidableNeverEvicts :
    (r : ShredReassembler) → (shreds : List ParsedDataShred) → Decidable (NeverEvicts r shreds)
  | _, [] => isTrue trivial
  | r, shred :: shreds =>
    @instDecidableAnd _ _ _ (decidableNeverEvicts (r.push shred).1 shreds)

theorem push_of_no_eviction {r : ShredReassembler} {shred : ParsedDataShred}
    (h : (r.untrimmed shred).1.sets.size ≤ r.maxSets) : r.push shred = r.untrimmed shred := by
  rw [push_eq, trimOldSets_of_le h]

theorem runs_push {r : ShredReassembler} {shreds : List ParsedDataShred}
    (h : NeverEvicts r shreds) : runs push r shreds = runs untrimmed r shreds := by
  induction shreds generalizing r with
  | nil => rfl
  | cons shred shreds ih =>
    have hp := push_of_no_eviction h.1
    rw [runs_cons, runs_cons, ih h.2, hp]

theorem neverEvicts_append {r : ShredReassembler} {shreds more : List ParsedDataShred} :
    NeverEvicts r (shreds ++ more) ↔
      NeverEvicts r shreds ∧ NeverEvicts (runs push r shreds).1 more := by
  induction shreds generalizing r with
  | nil => simp [NeverEvicts]
  | cons shred shreds ih =>
    rw [List.cons_append, NeverEvicts, NeverEvicts, ih, and_assoc, runs_cons]

/-! ## The size of a reassembler -/

@[simp] theorem push_maxSets (r : ShredReassembler) (shred : ParsedDataShred) :
    (r.push shred).1.maxSets = r.maxSets := by
  rw [push_eq]
  rfl

theorem push_size (r : ShredReassembler) (shred : ParsedDataShred) :
    (r.push shred).1.sets.size ≤ r.maxSets := by
  rw [push_eq]
  exact trimOldSets_size _

theorem runs_size {r : ShredReassembler} (h : r.sets.size ≤ r.maxSets)
    (shreds : List ParsedDataShred) :
    (runs push r shreds).1.sets.size ≤ (runs push r shreds).1.maxSets := by
  induction shreds generalizing r with
  | nil => exact h
  | cons shred shreds ih =>
    refine ih ?_
    rw [push_maxSets]
    exact push_size r shred

/-- A push that emits a batch needs no room. -/
theorem untrimmed_size_of_batch {r : ShredReassembler} {shred : ParsedDataShred}
    (h : (r.untrimmed shred).2.isSome) : (r.untrimmed shred).1.sets.size ≤ r.sets.size := by
  unfold untrimmed at h ⊢
  simp only at h ⊢
  rw [if_pos h, ExtTreeMap.size_erase, ExtTreeMap.size_insert]
  rw [if_pos (ExtTreeMap.contains_insert_self)]
  split <;> omega

end ShredReassembler

/-! ## What the history of a key determines -/

/-- The shreds pushed for a key since its last batch. -/
def pending (k : SetKey) (shreds : List ParsedDataShred) : List ParsedDataShred :=
  (shreds.filter fun shred => shred.key = k).rtakeWhile fun shred => !shred.dataComplete

/-- The index map these shreds leave behind. -/
def indexMap (shreds : List ParsedDataShred) : ExtTreeMap UInt32 Bytes :=
  insertAll ∅ (shreds.map fun shred => (shred.index, shred.payload))

/-- What a key with these pending shreds has buffered. -/
def buffered (shreds : List ParsedDataShred) : Option FecSetBuffer :=
  if shreds = [] then none else some ⟨indexMap shreds⟩

/-- The last payload given for an index. -/
def lastPayload (shreds : List ParsedDataShred) (index : UInt32) : Option Bytes :=
  lastWrite (shreds.map fun shred => (shred.index, shred.payload)) index

/-- For each index, ascending, the last payload given for it. -/
def assemble (shreds : List ParsedDataShred) : Bytes :=
  (ascending (shreds.map ParsedDataShred.index)).flatMap fun index =>
    (lastPayload shreds index).getD []

theorem pending_concat (k : SetKey) (shreds : List ParsedDataShred) (shred : ParsedDataShred) :
    pending k (shreds ++ [shred]) =
      if shred.key = k then if shred.dataComplete then [] else pending k shreds ++ [shred]
      else pending k shreds := by
  unfold pending
  rw [List.filter_append, List.filter_singleton]
  by_cases hk : shred.key = k
  · simp only [hk, decide_true, cond_true, ↓reduceIte]
    rw [List.rtakeWhile_concat]
    cases shred.dataComplete <;> simp
  · simp [hk]

/-- Shreds of other keys do not count. -/
theorem pending_filter (k : SetKey) (shreds : List ParsedDataShred) :
    pending k (shreds.filter fun shred => shred.key = k) = pending k shreds := by
  unfold pending
  rw [List.filter_filter]
  simp

theorem mem_of_mem_pending {k : SetKey} {shreds : List ParsedDataShred}
    {shred : ParsedDataShred} (h : shred ∈ pending k shreds) : shred ∈ shreds :=
  (List.mem_filter.mp ((List.rtakeWhile_suffix _ _).subset h)).1

theorem indexMap_concat (shreds : List ParsedDataShred) (shred : ParsedDataShred) :
    indexMap (shreds ++ [shred]) = (indexMap shreds).insert shred.index shred.payload := by
  unfold indexMap
  rw [List.map_append, List.map_singleton, insertAll_concat]

theorem buffered_getD (shreds : List ParsedDataShred) :
    ((buffered shreds).getD {}).shreds = indexMap shreds := by
  unfold buffered
  split
  · rename_i h
    rw [h]
    rfl
  · rfl

theorem buffered_concat (shreds : List ParsedDataShred) (shred : ParsedDataShred) :
    buffered (shreds ++ [shred]) = some ⟨indexMap (shreds ++ [shred])⟩ :=
  if_neg (by simp)

theorem filterMap_flatten {α β : Type*} (f : α → Option (List β)) (l : List α) :
    (l.filterMap f).flatten = l.flatMap fun a => (f a).getD [] := by
  induction l with
  | nil => rfl
  | cons a l ih =>
    rw [List.flatMap_cons, ← ih]
    cases h : f a <;> simp [h]

/-- The values of the index map, in key order, are the assembled bytes. -/
theorem valuesInOrder_indexMap (shreds : List ParsedDataShred) :
    (valuesInOrder (indexMap shreds)).flatten = assemble shreds := by
  unfold valuesInOrder indexMap
  rw [entries_insertAll, List.map_filterMap, filterMap_flatten, List.map_map]
  unfold assemble lastPayload
  congr 1
  funext index
  cases lastWrite (shreds.map fun shred => (shred.index, shred.payload)) index <;> rfl

theorem assemble_ne_nil {shreds : List ParsedDataShred} (h0 : shreds ≠ [])
    (hp : ∀ shred ∈ shreds, shred.payload ≠ []) : assemble shreds ≠ [] := by
  obtain ⟨shred, hs⟩ := List.exists_mem_of_ne_nil shreds h0
  have hi : shred.index ∈ shreds.map ParsedDataShred.index := List.mem_map_of_mem hs
  have hsome : (lastPayload shreds shred.index).isSome := by
    rw [lastPayload, isSome_lastWrite, List.map_map]
    exact hi
  obtain ⟨payload, hl⟩ := Option.isSome_iff_exists.mp hsome
  obtain ⟨t, ht, he⟩ := List.mem_map.mp (mem_of_lastWrite hl)
  have hne : payload ≠ [] := by
    rw [← (Prod.mk.inj he).2]
    exact hp t ht
  intro hnil
  have := List.flatMap_eq_nil_iff.mp hnil shred.index (mem_ascending.mpr hi)
  rw [hl] at this
  exact hne this

theorem deshred_indexMap {shreds : List ParsedDataShred} (h0 : shreds ≠ [])
    (hp : ∀ shred ∈ shreds, shred.payload ≠ []) (slot : UInt64) (fecSetIndex : UInt32) :
    FecSetBuffer.deshred ⟨indexMap shreds⟩ slot fecSetIndex =
      some ⟨slot, fecSetIndex, assemble shreds⟩ := by
  have hb : FecSetBuffer.bytes ⟨indexMap shreds⟩ = assemble shreds := valuesInOrder_indexMap shreds
  rw [FecSetBuffer.deshred_eq, hb, if_neg (assemble_ne_nil h0 hp)]

/-- The batch a push returns when `past` is pending for its key. -/
def batchAfter (past : List ParsedDataShred) (shred : ParsedDataShred) : Option DeshredBatch :=
  if shred.dataComplete then some ⟨shred.slot, shred.fecSetIndex, assemble (past ++ [shred])⟩
  else none

namespace ShredReassembler

/-! ## One push -/

theorem untrimmed_frame (r : ShredReassembler) {shred : ParsedDataShred} {k : SetKey}
    (h : shred.key ≠ k) : (r.untrimmed shred).1.sets[k]? = r.sets[k]? := by
  unfold untrimmed
  simp only
  generalize (if shred.dataComplete = true then _ else none : Option DeshredBatch) = batch
  cases batch with
  | none => simp [ExtTreeMap.getElem?_insert, h]
  | some batch => simp [ExtTreeMap.getElem?_erase, ExtTreeMap.getElem?_insert, h]

section
variable {r : ShredReassembler} {shred : ParsedDataShred} {past : List ParsedDataShred}

theorem untrimmed_batch (hs : r.sets[shred.key]? = buffered past)
    (hp : ∀ s ∈ past ++ [shred], s.payload ≠ []) :
    (r.untrimmed shred).2 = batchAfter past shred := by
  simp only [untrimmed, batchAfter, hs, buffered_getD, ← indexMap_concat]
  split
  · exact deshred_indexMap (by simp) hp _ _
  · rfl

theorem untrimmed_own (hs : r.sets[shred.key]? = buffered past)
    (hp : ∀ s ∈ past ++ [shred], s.payload ≠ []) :
    (r.untrimmed shred).1.sets[shred.key]? =
      if shred.dataComplete then none else buffered (past ++ [shred]) := by
  have hb := untrimmed_batch hs hp
  unfold untrimmed batchAfter at hb
  simp only [untrimmed, hs, buffered_getD, ← indexMap_concat] at hb ⊢
  rw [hb]
  cases shred.dataComplete with
  | true => simp
  | false => simp [buffered_concat]

end

/-! ## Runs -/

/-- **Buffered shreds.** A key that starts empty buffers what is pending for it. -/
theorem buffered_after {r : ShredReassembler} {k : SetKey} (hk : r.sets[k]? = none)
    {shreds : List ParsedDataShred} (hp : ∀ s ∈ shreds, s.payload ≠ []) :
    (runs untrimmed r shreds).1.sets[k]? = buffered (pending k shreds) := by
  induction shreds using List.reverseRecOn with
  | nil => exact hk
  | append_singleton shreds shred ih =>
    have ih := ih fun s hs => hp s (List.mem_append_left _ hs)
    rw [runs_concat, pending_concat]
    by_cases h : shred.key = k
    · subst h
      have hpast : ∀ s ∈ pending shred.key shreds ++ [shred], s.payload ≠ [] := by
        intro s hs
        refine hp s ?_
        rcases List.mem_append.mp hs with hs | hs
        · exact List.mem_append_left _ (mem_of_mem_pending hs)
        · exact List.mem_append_right _ hs
      rw [untrimmed_own ih hpast]
      cases shred.dataComplete <;> simp [buffered]
    · rw [untrimmed_frame _ h, if_neg h, ih]

/-- **Output of a push.** It is determined by the pending shreds of its own key. -/
theorem push_output {r : ShredReassembler} {pre post : List ParsedDataShred}
    {shred : ParsedDataShred} (hk : r.sets[shred.key]? = none)
    (hn : NeverEvicts r (pre ++ shred :: post))
    (hp : ∀ s ∈ pre ++ shred :: post, s.payload ≠ []) :
    (runs push r (pre ++ shred :: post)).2[pre.length]? =
      some (batchAfter (pending shred.key pre) shred) := by
  have hpre : ∀ s ∈ pre, s.payload ≠ [] := fun s hs => hp s (List.mem_append_left _ hs)
  rw [runs_push hn, runs_output]
  congr 1
  refine untrimmed_batch (buffered_after hk hpre) ?_
  intro s hs
  rcases List.mem_append.mp hs with hs | hs
  · exact hpre s (mem_of_mem_pending hs)
  · exact hp s (List.mem_append_right _ (List.mem_cons.mpr (.inl (List.mem_singleton.mp hs))))

end ShredReassembler
end FeedMux.Shred
