import FeedMux.Shred.Reassembly

/-!
# Whole FEC sets in any order

An `FecSet` is what a sender splits a batch into: distinct indices, one set
key, and the data-complete flag on the highest index only. Pushed in any order
into a reassembler that holds nothing for its key, it comes back whole exactly
when the flagged shred is pushed last.
-/

namespace FeedMux.Shred
open FeedMux.Library Std

structure FecSet where
  slot : UInt64
  fecSetIndex : UInt32
  shreds : List ParsedDataShred
  nonempty : shreds ≠ []
  sameKey : ∀ s ∈ shreds, s.slot = slot ∧ s.fecSetIndex = fecSetIndex
  distinct : (shreds.map ParsedDataShred.index).Nodup
  carries : ∀ s ∈ shreds, s.payload ≠ []
  flagged : ∀ s ∈ shreds, s.dataComplete ↔ ∀ t ∈ shreds, t.index ≤ s.index

namespace FecSet

variable (F : FecSet)

def key : SetKey := (F.slot, F.fecSetIndex)

/-- The shreds in ascending index order. -/
def inOrder : List ParsedDataShred := sortByKey ParsedDataShred.index F.shreds

/-- All payloads in ascending index order. -/
def bytes : Bytes := F.inOrder.flatMap ParsedDataShred.payload

/-- Exactly one batch is emitted, with all the bytes, and nothing stays behind. -/
def Restored (r : ShredReassembler) (order : List ParsedDataShred) : Prop :=
  (runs ShredReassembler.push r order).2.reduceOption = [⟨F.slot, F.fecSetIndex, F.bytes⟩] ∧
    (runs ShredReassembler.push r order).1.sets[F.key]? = none

variable {F}

theorem inOrder_perm : F.inOrder.Perm F.shreds := sortByKey_perm _ _

theorem index_injOn {s t : ParsedDataShred} (hs : s ∈ F.shreds) (ht : t ∈ F.shreds)
    (h : s.index = t.index) : s = t :=
  List.inj_on_of_nodup_map F.distinct hs ht h

theorem key_of_mem {s : ParsedDataShred} (h : s ∈ F.shreds) : s.key = F.key := by
  obtain ⟨hslot, hfec⟩ := F.sameKey s h
  rw [ParsedDataShred.key, key, hslot, hfec]

theorem inOrder_sorted :
    (F.inOrder.map fun s => (s.index, s.payload)).Pairwise KeyLt := by
  rw [List.pairwise_map]
  exact sortByKey_sorted F.distinct

/-- In whatever order the shreds come, their index map lists them in index order. -/
theorem assemble_perm {order : List ParsedDataShred} (h : order.Perm F.shreds) :
    assemble order = F.bytes := by
  have hp : (F.inOrder.map fun s => (s.index, s.payload)).Perm
      (order.map fun s => (s.index, s.payload)) := (inOrder_perm.trans h.symm).map _
  rw [← valuesInOrder_indexMap]
  rw [valuesInOrder, indexMap, entries_insertAll_sorted hp inOrder_sorted, List.map_map]
  rfl

theorem exists_flagged (F : FecSet) : ∃ s ∈ F.shreds, s.dataComplete := by
  cases h : F.shreds.argmax fun s => s.index.toNat with
  | none => exact absurd (List.argmax_eq_none.mp h) F.nonempty
  | some s =>
    have hs := List.argmax_mem h
    refine ⟨s, hs, (F.flagged s hs).mpr fun t ht => UInt32.le_iff_toNat_le.mpr ?_⟩
    exact List.le_of_mem_argmax (f := fun s => s.index.toNat) ht h

theorem flagged_unique {s t : ParsedDataShred} (hs : s ∈ F.shreds) (ht : t ∈ F.shreds)
    (h : s.dataComplete) (h' : t.dataComplete) : s = t :=
  index_injOn hs ht <| UInt32.le_antisymm
    ((F.flagged t ht).mp h' s hs) ((F.flagged s hs).mp h t ht)

/-- Any order splits at the flagged shred; the others carry no flag. -/
theorem split_at_flagged {order : List ParsedDataShred} (h : order.Perm F.shreds) :
    ∃ pre f post, order = pre ++ f :: post ∧ f.dataComplete ∧
      (∀ s ∈ pre, s.dataComplete = false) ∧ ∀ s ∈ post, s.dataComplete = false := by
  obtain ⟨f, hf, hc⟩ := F.exists_flagged
  obtain ⟨pre, post, rfl⟩ := List.append_of_mem (h.mem_iff.mpr hf)
  have hd : (pre ++ f :: post).Nodup := h.nodup_iff.mpr F.distinct.of_map
  have hother : ∀ s ∈ pre ++ post, s.dataComplete = false := by
    intro s hs
    have hne : s ≠ f := by
      rintro rfl
      exact (List.nodup_middle.mp hd).notMem hs
    have hmem : s ∈ F.shreds := by
      refine h.mem_iff.mp ?_
      simp only [List.mem_append, List.mem_cons] at hs ⊢
      tauto
    by_contra hs'
    exact hne (flagged_unique hmem hf (by simpa using hs') hc)
  exact ⟨pre, f, post, rfl, hc, fun s hs => hother s (List.mem_append_left _ hs),
    fun s hs => hother s (List.mem_append_right _ hs)⟩

end FecSet

/-! ## Runs without the flag -/

theorem pending_unflagged {k : SetKey} (before : List ParsedDataShred)
    {shreds : List ParsedDataShred} (hk : ∀ s ∈ shreds, s.key = k)
    (hu : ∀ s ∈ shreds, s.dataComplete = false) :
    pending k (before ++ shreds) = pending k before ++ shreds := by
  induction shreds using List.reverseRecOn with
  | nil => simp
  | append_singleton shreds s ih =>
    have ih := ih (fun t ht => hk t (List.mem_append_left _ ht))
      fun t ht => hu t (List.mem_append_left _ ht)
    rw [← List.append_assoc, pending_concat, if_pos (hk s (by simp)), hu s (by simp), ih]
    simp

theorem no_batch (r : ShredReassembler) {shreds : List ParsedDataShred}
    (hu : ∀ s ∈ shreds, s.dataComplete = false) :
    (runs ShredReassembler.untrimmed r shreds).2.reduceOption = [] := by
  induction shreds generalizing r with
  | nil => rfl
  | cons s shreds ih =>
    have hs : (r.untrimmed s).2 = none := by
      simp [ShredReassembler.untrimmed, hu s (by simp)]
    rw [runs_cons, hs]
    exact ih _ fun t ht => hu t (List.mem_cons_of_mem _ ht)

namespace FecSet
variable {F : FecSet} {r : ShredReassembler} {pre post : List ParsedDataShred}
  {f : ParsedDataShred}

/-- What a run over the whole set emits, and what it leaves behind. -/
theorem run_split (hp : (pre ++ f :: post).Perm F.shreds) (hf : f.dataComplete)
    (hpre : ∀ s ∈ pre, s.dataComplete = false) (hpost : ∀ s ∈ post, s.dataComplete = false)
    (hr : r.sets[F.key]? = none) (hn : r.NeverEvicts (pre ++ f :: post)) :
    (runs ShredReassembler.push r (pre ++ f :: post)).2.reduceOption =
        [⟨F.slot, F.fecSetIndex, assemble (pre ++ [f])⟩] ∧
      (runs ShredReassembler.push r (pre ++ f :: post)).1.sets[F.key]? = buffered post := by
  have hmem : ∀ s ∈ pre ++ f :: post, s ∈ F.shreds := fun s => hp.mem_iff.mp
  have hkey : ∀ s ∈ pre ++ f :: post, s.key = F.key := fun s hs => key_of_mem (hmem s hs)
  have hfmem : f ∈ F.shreds := hmem f (by simp)
  have hfkey : f.key = F.key := key_of_mem hfmem
  have hcarries : ∀ s ∈ pre ++ f :: post, s.payload ≠ [] := fun s hs => F.carries s (hmem s hs)
  have hpending : pending F.key pre = pre :=
    pending_unflagged [] (fun s hs => hkey s (by simp [hs])) hpre
  rw [ShredReassembler.runs_push hn]
  constructor
  · have hpast : ∀ s ∈ pre ++ [f], s.payload ≠ [] := fun s hs => hcarries s (by
      simp only [List.mem_append, List.mem_cons, List.not_mem_nil, or_false] at hs ⊢
      tauto)
    have hbuf : (runs ShredReassembler.untrimmed r pre).1.sets[f.key]? = buffered pre := by
      rw [hfkey, ShredReassembler.buffered_after hr fun s hs => hcarries s (by simp [hs]), hpending]
    have hb := ShredReassembler.untrimmed_batch hbuf hpast
    obtain ⟨hslot, hfec⟩ := F.sameKey f hfmem
    rw [runs_append, runs_cons, hb, List.reduceOption_append, no_batch r hpre, batchAfter,
      if_pos hf, List.reduceOption_cons_of_some, no_batch _ hpost, hslot, hfec, List.nil_append]
  · rw [ShredReassembler.buffered_after hr hcarries, List.append_cons, pending_unflagged _
      (fun s hs => hkey s (by simp [hs])) hpost, pending_concat, if_pos hfkey, if_pos hf,
      List.nil_append]

/-- **Order of delivery.** An FEC set is restored exactly by the orders that
deliver its data-complete shred last. -/
theorem restored_iff_completed_last (F : FecSet) (r : ShredReassembler)
    (order : List ParsedDataShred) (hp : order.Perm F.shreds) (hr : r.sets[F.key]? = none)
    (hn : r.NeverEvicts order) :
    F.Restored r order ↔ ∃ s, order.getLast? = some s ∧ s.dataComplete := by
  obtain ⟨pre, f, post, rfl, hf, hpre, hpost⟩ := split_at_flagged hp
  obtain ⟨hbatch, hleft⟩ := run_split hp hf hpre hpost hr hn
  rw [Restored, hbatch, hleft]
  cases post with
  | nil =>
    rw [assemble_perm hp]
    simp [buffered, hf]
  | cons s post =>
    constructor
    · rintro ⟨_, h⟩
      simp [buffered] at h
    · rintro ⟨t, ht, hc⟩
      have hmem : t ∈ s :: post := by
        rw [List.getLast?_append_cons, List.getLast?_cons_cons] at ht
        exact List.mem_of_getLast? ht
      rw [hpost t hmem] at hc
      cases hc

/-- The two shreds of the source's own test. -/
def abcdef : FecSet where
  slot := 1
  fecSetIndex := 9
  shreds := [⟨1, 0, 9, false, false, [97, 98, 99]⟩, ⟨1, 1, 9, true, false, [100, 101, 102]⟩]
  nonempty := by decide
  sameKey := by decide
  distinct := by decide
  carries := by decide
  flagged := by decide

theorem abcdef_restored_in_order : abcdef.Restored (.new 8) abcdef.shreds :=
  (restored_iff_completed_last abcdef (.new 8) abcdef.shreds (.refl _) rfl (by decide)).mpr
    ⟨_, rfl, rfl⟩

/-- With the flagged shred first, the batch is `def` alone and `abc` stays buffered. -/
theorem abcdef_reversed_not_restored :
    abcdef.shreds.reverse.Perm abcdef.shreds ∧
      (ShredReassembler.new 8).sets[abcdef.key]? = none ∧
      (ShredReassembler.new 8).NeverEvicts abcdef.shreds.reverse ∧
      ¬ abcdef.Restored (.new 8) abcdef.shreds.reverse := by
  refine ⟨by decide, rfl, by decide, ?_⟩
  unfold Restored
  decide

end FecSet
end FeedMux.Shred
