import FeedMux.Shred.FecSet

/-!
# Copies of a shred

The reassembler has no record of what it has seen: a copy is one more push.
Reassemblers that hold the same payloads emit the same batches
(`alike_batches`), and a copy is harmless for every continuation exactly if it
is redundant: the buffer still holds its payload and it completes nothing
(`harmless_iff_redundant`).
-/

namespace FeedMux.Shred
open FeedMux.Library Std

namespace FecSetBuffer

/-- The payload at an index; empty if there is none. -/
def payload (buf : FecSetBuffer) (index : UInt32) : Bytes := (buf.shreds[index]?).getD []

def add (buf : FecSetBuffer) (shred : ParsedDataShred) : FecSetBuffer :=
  ⟨buf.shreds.insert shred.index shred.payload⟩

theorem payload_add (buf : FecSetBuffer) (shred : ParsedDataShred) (index : UInt32) :
    (buf.add shred).payload index =
      if shred.index = index then shred.payload else buf.payload index := by
  unfold payload add
  rw [ExtTreeMap.getElem?_insert]
  split <;> simp_all

theorem bytes_congr {buf buf' : FecSetBuffer}
    (h : ∀ index, buf.payload index = buf'.payload index) : buf.bytes = buf'.bytes :=
  flatten_values_congr h

theorem bytes_eq_nil_iff {buf : FecSetBuffer} : buf.bytes = [] ↔ ∀ index, buf.payload index = [] :=
  flatten_values_eq_nil_iff

/-- The bytes show which payload an index has. -/
theorem add_bytes_inj (buf : FecSetBuffer) (shred other : ParsedDataShred)
    (h : shred.index = other.index) :
    (buf.add shred).bytes = (buf.add other).bytes ↔ shred.payload = other.payload := by
  unfold add bytes
  rw [h]
  exact flatten_values_insert_inj

end FecSetBuffer

namespace ShredReassembler

/-- What is buffered for a key. -/
def buffer (r : ShredReassembler) (k : SetKey) : FecSetBuffer := (r.sets[k]?).getD {}

/-- The batches of a run, in order. -/
def batches (r : ShredReassembler) (shreds : List ParsedDataShred) : List DeshredBatch :=
  (runs push r shreds).2.reduceOption

/-- Reassemblers that hold the same payloads. -/
def Alike (r r' : ShredReassembler) : Prop :=
  ∀ k index, (r.buffer k).payload index = (r'.buffer k).payload index

/-- The buffer still holds what the shred carries, and nothing is there to complete. -/
structure Redundant (r : ShredReassembler) (shred : ParsedDataShred) : Prop where
  held : (r.buffer shred.key).payload shred.index = shred.payload
  silent : shred.dataComplete = true → (r.buffer shred.key).bytes = []

instance (r : ShredReassembler) (shred : ParsedDataShred) : Decidable (r.Redundant shred) :=
  decidable_of_iff
    ((r.buffer shred.key).payload shred.index = shred.payload ∧
      (shred.dataComplete = true → (r.buffer shred.key).bytes = []))
    ⟨fun h => ⟨h.1, h.2⟩, fun h => ⟨h.held, h.silent⟩⟩

/-! ## One push -/

theorem untrimmed_sets (r : ShredReassembler) (shred : ParsedDataShred) :
    (r.untrimmed shred).1.sets =
      let sets := r.sets.insert shred.key ((r.buffer shred.key).add shred)
      if (r.untrimmed shred).2.isSome then sets.erase shred.key else sets := rfl

theorem untrimmed_output (r : ShredReassembler) (shred : ParsedDataShred) :
    (r.untrimmed shred).2 =
      if shred.dataComplete = true ∧ ((r.buffer shred.key).add shred).bytes ≠ [] then
        some ⟨shred.slot, shred.fecSetIndex, ((r.buffer shred.key).add shred).bytes⟩
      else none := by
  simp only [untrimmed, FecSetBuffer.deshred_eq]
  unfold FecSetBuffer.add buffer
  split <;> simp_all

theorem untrimmed_buffer (r : ShredReassembler) (shred : ParsedDataShred) (k : SetKey) :
    (r.untrimmed shred).1.buffer k =
      if shred.key = k then
        if (r.untrimmed shred).2.isSome then {} else (r.buffer shred.key).add shred
      else r.buffer k := by
  by_cases hk : shred.key = k
  · subst hk
    rw [if_pos rfl, buffer, untrimmed_sets]
    split <;> simp
  · rw [if_neg hk, buffer, untrimmed_frame r hk, buffer]

/-- Alike reassemblers stay alike and emit the same. -/
theorem alike_step {r r' : ShredReassembler} (h : r.Alike r') (shred : ParsedDataShred) :
    (r.untrimmed shred).2 = (r'.untrimmed shred).2 ∧
      (r.untrimmed shred).1.Alike (r'.untrimmed shred).1 := by
  have hadd : ∀ index, ((r.buffer shred.key).add shred).payload index =
      ((r'.buffer shred.key).add shred).payload index := by
    intro index
    rw [FecSetBuffer.payload_add, FecSetBuffer.payload_add, h]
  have hout : (r.untrimmed shred).2 = (r'.untrimmed shred).2 := by
    rw [untrimmed_output, untrimmed_output, FecSetBuffer.bytes_congr hadd]
  refine ⟨hout, ?_⟩
  intro k index
  rw [untrimmed_buffer, untrimmed_buffer, hout]
  split
  · split
    · rfl
    · exact hadd index
  · exact h k index

/-- **Same payloads, same batches.** -/
theorem alike_batches {r r' : ShredReassembler} (h : r.Alike r') {shreds : List ParsedDataShred}
    (hn : r.NeverEvicts shreds) (hn' : r'.NeverEvicts shreds) :
    (runs push r shreds).2 = (runs push r' shreds).2 := by
  rw [runs_push hn, runs_push hn']
  exact (runs_simulates (R := fun _ => Alike) (fun shred _ _ _ h => alike_step h shred) h).1

theorem redundant_step {r : ShredReassembler} {shred : ParsedDataShred} (h : r.Redundant shred) :
    (r.untrimmed shred).2 = none ∧ (r.untrimmed shred).1.Alike r := by
  have hadd : ∀ index, ((r.buffer shred.key).add shred).payload index =
      (r.buffer shred.key).payload index := by
    intro index
    rw [FecSetBuffer.payload_add]
    split
    · rename_i hi
      rw [← hi, h.held]
    · rfl
  have hout : (r.untrimmed shred).2 = none := by
    rw [untrimmed_output, FecSetBuffer.bytes_congr hadd, if_neg]
    rintro ⟨hc, hb⟩
    exact hb (h.silent hc)
  refine ⟨hout, ?_⟩
  intro k index
  rw [untrimmed_buffer, hout]
  split
  · rename_i hk
    rw [← hk]
    exact hadd index
  · rfl

/-! ## Telling two buffers apart -/

/-- A flagged shred with a payload, next to an index. -/
def probe (k : SetKey) (index : UInt32) : ParsedDataShred where
  slot := k.1
  index := index + 1
  fecSetIndex := k.2
  dataComplete := true
  lastInSlot := false
  payload := [0]

theorem probe_index_ne (k : SetKey) (index : UInt32) : (probe k index).index ≠ index := by
  show index + 1 ≠ index
  simp

theorem probe_bytes (buf : FecSetBuffer) (k : SetKey) (index : UInt32) :
    (buf.add (probe k index)).bytes ≠ [] := by
  intro h
  have hp := FecSetBuffer.bytes_eq_nil_iff.mp h (probe k index).index
  rw [FecSetBuffer.payload_add, if_pos rfl] at hp
  cases hp

theorem probe_output (r : ShredReassembler) (k : SetKey) (index : UInt32) :
    (r.untrimmed (probe k index)).2 =
      some ⟨k.1, k.2, ((r.buffer k).add (probe k index)).bytes⟩ := by
  rw [untrimmed_output]
  exact if_pos ⟨rfl, probe_bytes (r.buffer k) k index⟩

theorem probe_neverEvicts {r : ShredReassembler} (hr : r.sets.size ≤ r.maxSets) (k : SetKey)
    (index : UInt32) : r.NeverEvicts [probe k index] := by
  refine ⟨(untrimmed_size_of_batch ?_).trans hr, trivial⟩
  rw [probe_output]
  rfl

theorem held_of_probe {buf : FecSetBuffer} {shred : ParsedDataShred}
    (h : (buf.add (probe shred.key shred.index)).bytes =
      ((buf.add shred).add (probe shred.key shred.index)).bytes) :
    buf.payload shred.index = shred.payload := by
  have hne := probe_index_ne shred.key shred.index
  -- both sides are the probed buffer with one payload rewritten
  let same : ParsedDataShred := { shred with payload := buf.payload shred.index }
  have hleft : (buf.add (probe shred.key shred.index)).bytes =
      ((buf.add (probe shred.key shred.index)).add same).bytes := by
    refine FecSetBuffer.bytes_congr fun index => ?_
    rw [FecSetBuffer.payload_add (buf.add _) same]
    split
    · rename_i hi
      rw [← hi, FecSetBuffer.payload_add, if_neg hne]
    · rfl
  have hright : ((buf.add shred).add (probe shred.key shred.index)).bytes =
      ((buf.add (probe shred.key shred.index)).add shred).bytes := by
    refine FecSetBuffer.bytes_congr fun index => ?_
    simp only [FecSetBuffer.payload_add]
    by_cases hi : shred.index = index
    · rw [← hi, if_neg hne, if_pos rfl, if_pos rfl]
    · rw [if_neg hi, if_neg hi]
  rw [hleft, hright] at h
  exact (FecSetBuffer.add_bytes_inj _ same shred rfl).mp h

theorem batches_cons (r : ShredReassembler) (shred : ParsedDataShred)
    (shreds : List ParsedDataShred) :
    r.batches (shred :: shreds) = (r.push shred).2.toList ++ (r.push shred).1.batches shreds := by
  unfold batches
  rw [runs_cons]
  cases (r.push shred).2 <;> rfl

theorem probe_batches {r : ShredReassembler} (hr : r.sets.size ≤ r.maxSets) (k : SetKey)
    (index : UInt32) :
    r.batches [probe k index] = [⟨k.1, k.2, ((r.buffer k).add (probe k index)).bytes⟩] := by
  rw [batches_cons, push_of_no_eviction (probe_neverEvicts hr k index).1, probe_output]
  rfl

theorem bytes_add_of_held {buf : FecSetBuffer} {shred : ParsedDataShred}
    (h : buf.payload shred.index = shred.payload) : (buf.add shred).bytes = buf.bytes :=
  flatten_values_rewrite h

theorem batches_append (r : ShredReassembler) (shreds more : List ParsedDataShred) :
    r.batches (shreds ++ more) = r.batches shreds ++ (runs push r shreds).1.batches more := by
  unfold batches
  rw [runs_append, List.reduceOption_append]

/-- **A copy.** One more push is harmless for every continuation without
eviction exactly if it is redundant. -/
theorem harmless_iff_redundant {r : ShredReassembler} {shred : ParsedDataShred}
    (hr : r.sets.size ≤ r.maxSets) (hs : (r.untrimmed shred).1.sets.size ≤ r.maxSets) :
    (∀ after, r.NeverEvicts after → r.NeverEvicts (shred :: after) →
      r.batches (shred :: after) = r.batches after) ↔ r.Redundant shred := by
  have hpush := push_of_no_eviction hs
  constructor
  · intro h
    have hsilent : (r.untrimmed shred).2 = none := by
      have hnil := h [] trivial ⟨hs, trivial⟩
      rw [batches_cons, hpush] at hnil
      cases ho : (r.untrimmed shred).2 with
      | none => rfl
      | some batch => simp [ho, batches] at hnil
    have hr' : (r.push shred).1.sets.size ≤ (r.push shred).1.maxSets := by
      rw [push_maxSets]
      exact push_size r shred
    have hheld : (r.buffer shred.key).payload shred.index = shred.payload := by
      have hprobe := h [probe shred.key shred.index] (probe_neverEvicts hr ..)
        ⟨hs, probe_neverEvicts hr' ..⟩
      rw [batches_cons, probe_batches hr', probe_batches hr, hpush, hsilent, untrimmed_buffer,
        if_pos rfl, hsilent] at hprobe
      simp only [Option.toList_none, List.nil_append, Option.isSome_none, Bool.false_eq_true,
        ↓reduceIte, List.cons.injEq, DeshredBatch.mk.injEq, true_and, and_true] at hprobe
      exact held_of_probe hprobe.symm
    refine ⟨hheld, ?_⟩
    intro hc
    rw [untrimmed_output, bytes_add_of_held hheld] at hsilent
    by_contra hb
    rw [if_pos ⟨hc, hb⟩] at hsilent
    cases hsilent
  · intro h after hn hn'
    obtain ⟨hsilent, halike⟩ := redundant_step h
    rw [batches_cons, hpush, hsilent]
    have hn'' := hn'.2
    rw [hpush] at hn''
    exact congrArg List.reduceOption (alike_batches halike hn'' hn)

/-! ## Redundant by history -/

theorem buffer_after {r : ShredReassembler} {k : SetKey} (hk : r.sets[k]? = none)
    {shreds : List ParsedDataShred} (hn : r.NeverEvicts shreds)
    (hp : ∀ s ∈ shreds, s.payload ≠ []) (index : UInt32) :
    ((runs push r shreds).1.buffer k).payload index =
      (lastPayload (pending k shreds) index).getD [] := by
  rw [runs_push hn, buffer, buffered_after hk hp, FecSetBuffer.payload, buffered_getD, indexMap,
    getElem?_insertAll]
  rfl

/-- With payloads, a copy is redundant exactly if it is unflagged and, among the
shreds of its key since the key's last batch, the last one with its index had
its payload. -/
theorem redundant_iff_pending {r : ShredReassembler} {shred : ParsedDataShred}
    (hk : r.sets[shred.key]? = none) {shreds : List ParsedDataShred} (hn : r.NeverEvicts shreds)
    (hp : ∀ s ∈ shreds, s.payload ≠ []) (hs : shred.payload ≠ []) :
    (runs push r shreds).1.Redundant shred ↔ shred.dataComplete = false ∧
      lastPayload (pending shred.key shreds) shred.index = some shred.payload := by
  have hbuf := buffer_after hk hn hp shred.index
  have hheld : ((runs push r shreds).1.buffer shred.key).payload shred.index = shred.payload ↔
      lastPayload (pending shred.key shreds) shred.index = some shred.payload := by
    rw [hbuf]
    cases lastPayload (pending shred.key shreds) shred.index with
    | none => simp [hs.symm]
    | some payload => simp
  constructor
  · intro h
    refine ⟨?_, hheld.mp h.held⟩
    by_contra hc
    have hnil := FecSetBuffer.bytes_eq_nil_iff.mp (h.silent (by simpa using hc)) shred.index
    exact hs (h.held.symm.trans hnil)
  · rintro ⟨hc, hlast⟩
    exact ⟨hheld.mpr hlast, by simp [hc]⟩

end ShredReassembler
end FeedMux.Shred
