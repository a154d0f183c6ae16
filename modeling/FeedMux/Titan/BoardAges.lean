import FeedMux.Library.Since
import FeedMux.Titan.Board

/-!
# Ages on the size board (`src/titan_quote.rs`)

A document re-ages the pins of quoted sizes when it is built, and gives the
pins of the other hunt sizes age 0 and fresh time 0. `ages_honest_iff`: in every
state of the board the ages of a document are those its fresh times tell exactly
when every rung has been quoted.
-/

namespace FeedMux.Titan
open FeedMux.Library Std

/-- What happens to the board: its methods, and a published row. -/
inductive BoardOp where
  | clear
  | initHuntSizes (sizes : List UInt64)
  | markUnsubscribed (sizeLamports : UInt64)
  | record (row : TitanHop1Row)

def TitanSizeBoard.apply (board : TitanSizeBoard) : BoardOp → TitanSizeBoard
  | .clear => board.clear
  | .initHuntSizes sizes => board.initHuntSizes sizes
  | .markUnsubscribed sizeLamports => board.markUnsubscribed sizeLamports
  | .record row => board.record row

/-- The board after these operations. Every session begins with a `clear`. -/
def boardAfter (ops : List BoardOp) : TitanSizeBoard := ops.foldl TitanSizeBoard.apply {}

def BoardOp.Quotes (size : UInt64) : BoardOp → Prop
  | .record row => row.sizeLamports = size
  | _ => False

/-- A row for the size was published since the session began. -/
def Quoted (ops : List BoardOp) (size : UInt64) : Prop :=
  Since (BoardOp.Quotes size) (· = .clear) ops

/-- The ages of a document are honest, given the sizes quoted in the session. -/
structure HonestAges (quoted : UInt64 → Prop) (doc : TitanSizeBoardDoc) : Prop where
  ages : ∀ pin ∈ doc.pins,
    pin.hop1AgeMs.toNat = doc.updatedMs.toNat - pin.hop1FreshMs.toNat
  notFresher : ∀ rung ∈ doc.pins, ¬ quoted rung.sizeLamports →
    ∀ pin ∈ doc.pins, quoted pin.sizeLamports → ¬ rung.hop1AgeMs < pin.hop1AgeMs

/-! ## The pins of a run -/

theorem boardAfter_concat (ops : List BoardOp) (op : BoardOp) :
    boardAfter (ops ++ [op]) = (boardAfter ops).apply op := by
  simp [boardAfter]

theorem boardAfter_filed (ops : List BoardOp) : (boardAfter ops).Filed := by
  induction ops using List.reverseRecOn with
  | nil =>
    intro size pin h
    simp [boardAfter] at h
  | append_singleton ops op ih =>
    rw [boardAfter_concat]
    cases op with
    | clear =>
      intro size pin h
      simp [TitanSizeBoard.apply, TitanSizeBoard.clear] at h
    | initHuntSizes sizes => exact ih
    | markUnsubscribed sizeLamports => exact ih
    | record row =>
      intro size pin h
      simp only [TitanSizeBoard.apply, TitanSizeBoard.record, ExtTreeMap.getElem?_insert] at h
      split at h
      · rename_i hs
        obtain rfl := Option.some.inj h
        exact compare_eq_iff_eq.mp hs
      · exact ih size pin h

/-- A size has a pin exactly when it was quoted in the session. -/
theorem pin_iff_quoted (ops : List BoardOp) (size : UInt64) :
    (boardAfter ops).pins[size]? ≠ none ↔ Quoted ops size := by
  refine foldl_since (F := fun board : TitanSizeBoard => board.pins[size]? ≠ none) ?_ ?_ ?_
    (by simp) ops
  · intro board op hp
    cases op with
    | record row =>
      obtain rfl : row.sizeLamports = size := hp
      simp [TitanSizeBoard.apply, TitanSizeBoard.record]
    | clear | initHuntSizes _ | markUnsubscribed _ => exact absurd hp id
  · rintro board _ - rfl
    simp [TitanSizeBoard.apply, TitanSizeBoard.clear]
  · intro board op hp hq
    cases op with
    | clear => exact absurd rfl hq
    | initHuntSizes sizes => rfl
    | markUnsubscribed sizeLamports => rfl
    | record row =>
      have hne : ¬ row.sizeLamports = size := hp
      simp [TitanSizeBoard.apply, TitanSizeBoard.record, ExtTreeMap.getElem?_insert, hne]

/-- A session clears the board, sets its ladder, marks rungs and publishes rows. -/
theorem boardAfter_session (earlier : List BoardOp) (ladder marked : List UInt64)
    (rows : List TitanHop1Row) :
    boardAfter (earlier ++ [.clear, .initHuntSizes ladder] ++
        marked.map .markUnsubscribed ++ rows.map .record) =
      .ofHistory ladder marked rows := by
  have hmarked : boardAfter (earlier ++ [.clear, .initHuntSizes ladder] ++
      marked.map .markUnsubscribed) =
      { huntSizes := ladder, unsubscribed := insertAll ∅ (marked.map fun size => (size, ())) } := by
    induction marked using List.reverseRecOn with
    | nil =>
      rw [boardAfter, List.map_nil, List.append_nil, List.foldl_append]
      rfl
    | append_singleton marked size ih =>
      rw [List.map_append, List.map_singleton, ← List.append_assoc, boardAfter_concat, ih,
        List.map_append, List.map_singleton, insertAll_concat]
      rfl
  rw [boardAfter] at hmarked ⊢
  rw [List.foldl_append, hmarked, List.foldl_map]
  rfl

/-! ## Ages -/

theorem aged_age (now : UInt64) (pin : SizeBoardPin) :
    (pin.aged now).hop1AgeMs.toNat = now.toNat - pin.hop1FreshMs.toNat := by
  unfold SizeBoardPin.aged
  simp only
  split
  · rename_i h
    exact UInt64.toNat_sub_of_le _ _ h
  · rename_i h
    have hlt : now.toNat < pin.hop1FreshMs.toNat :=
      Nat.not_le.mp fun hle => h (UInt64.le_iff_toNat_le.mpr hle)
    show 0 = _
    omega

section
variable {ops : List BoardOp} (order : IterationOrder) (now : UInt64) (pair base mid : String)

/-- A pin is stored and re-aged, or stands in for a rung without a quote. -/
theorem mem_boardAfter_doc {pin : SizeBoardPin}
    (h : pin ∈ (buildSizeBoardDocWithPair (boardAfter ops) order now pair base mid).pins) :
    (Quoted ops pin.sizeLamports ∧
        pin.hop1AgeMs.toNat = now.toNat - pin.hop1FreshMs.toNat) ∨
      (¬ Quoted ops pin.sizeLamports ∧ pin.sizeLamports ∈ (boardAfter ops).huntSizes ∧
        pin.hop1AgeMs = 0 ∧ pin.hop1FreshMs = 0) := by
  rcases mem_doc.mp h with ⟨size, filed, hs, rfl⟩ | ⟨size, hm, hn, rfl⟩
  · have hsize : (filed.aged now).sizeLamports = size := boardAfter_filed ops size filed hs
    refine .inl ⟨?_, aged_age now filed⟩
    rw [hsize, ← pin_iff_quoted, hs]
    simp
  · refine .inr ⟨?_, hm, rfl, rfl⟩
    show ¬ Quoted ops size
    rw [← pin_iff_quoted, hn]
    simp

/-- An unquoted rung is reported with age 0 and fresh time 0. -/
theorem unquoted_age {size : UInt64} (hm : size ∈ (boardAfter ops).huntSizes)
    (hq : ¬ Quoted ops size) :
    ∃ pin ∈ (buildSizeBoardDocWithPair (boardAfter ops) order now pair base mid).pins,
      pin.sizeLamports = size ∧ pin.hop1AgeMs = 0 ∧ pin.hop1FreshMs = 0 := by
  have hn : (boardAfter ops).pins[size]? = none := by
    by_contra hn
    exact hq ((pin_iff_quoted ops size).mp hn)
  exact ⟨_, mem_doc.mpr (.inr ⟨size, hm, hn, rfl⟩), rfl, rfl, rfl⟩

end

/-- A document of the epoch itself has no age above 0. -/
theorem epoch_honest (ops : List BoardOp) (order : IterationOrder) (pair base mid : String) :
    HonestAges (Quoted ops)
      (buildSizeBoardDocWithPair (boardAfter ops) order 0 pair base mid) := by
  have hzero : ∀ pin ∈ (buildSizeBoardDocWithPair (boardAfter ops) order 0 pair base mid).pins,
      pin.hop1AgeMs.toNat = 0 := by
    intro pin hp
    rcases mem_boardAfter_doc _ _ _ _ _ hp with ⟨-, hage⟩ | ⟨-, -, hage, -⟩
    · exact hage.trans (Nat.zero_sub _)
    · rw [hage]
      rfl
  constructor
  · intro pin hp
    rw [hzero pin hp]
    exact (Nat.zero_sub _).symm
  · intro rung hr _ pin hp _ hlt
    have hpin := hzero pin hp
    have hlt' := UInt64.lt_iff_toNat_lt.mp hlt
    omega

/-- **Ages.** They are honest exactly when every rung of the ladder has been
quoted in the session, or the document is dated to the epoch itself. -/
theorem ages_honest_iff (ops : List BoardOp) (order : IterationOrder) (now : UInt64)
    (pair base mid : String) :
    HonestAges (Quoted ops)
        (buildSizeBoardDocWithPair (boardAfter ops) order now pair base mid) ↔
      (∀ size ∈ (boardAfter ops).huntSizes, Quoted ops size) ∨ now = 0 := by
  constructor
  · intro h
    by_cases hq : ∀ size ∈ (boardAfter ops).huntSizes, Quoted ops size
    · exact .inl hq
    · push Not at hq
      obtain ⟨size, hm, hq⟩ := hq
      obtain ⟨pin, hp, -, hage, hfresh⟩ := unquoted_age order now pair base mid hm hq
      have hzero := h.ages pin hp
      rw [hage, hfresh] at hzero
      exact .inr (UInt64.toNat_inj.mp hzero.symm)
  · rintro (hq | rfl)
    · constructor
      · intro pin hp
        rcases mem_boardAfter_doc _ _ _ _ _ hp with ⟨-, hage⟩ | ⟨hn, hm, -⟩
        · exact hage
        · exact absurd (hq _ hm) hn
      · intro rung hr hn
        rcases mem_boardAfter_doc _ _ _ _ _ hr with ⟨hy, -⟩ | ⟨-, hm, -⟩
        · exact absurd hy hn
        · exact absurd (hq _ hm) hn
    · exact epoch_honest ops order pair base mid

/-- A session of two rungs, of which one is quoted. -/
def halfQuoted : List BoardOp :=
  [.clear, .initHuntSizes [5, 7],
    .record
      { schema := "mux.titan.hop1.v1"
        pair := "SOL-USDC"
        base := "SOL"
        mid := "USDC"
        sizeLamports := 5
        tsMs := 900
        provider := "provider"
        routeInAmount := 5
        routeOutAmount := 1
        slippageBps := 50
        quoteId := none
        streamId := 1
        streamSeq := 1
        hop1 := ⟨"venue", "", "", "", 5, 1, none⟩ }]

/-- The other rung is reported with age 0, and its fresh time is the epoch. -/
theorem ages_dishonest :
    ¬ HonestAges (Quoted halfQuoted)
      (buildSizeBoardDocWithPair (boardAfter halfQuoted) ⟨id, fun _ => .refl _⟩ 1000
        "SOL-USDC" "SOL" "USDC") := by
  intro h
  have hq : ¬ Quoted halfQuoted 7 := by
    rw [← pin_iff_quoted]
    simp [halfQuoted, boardAfter, TitanSizeBoard.apply, TitanSizeBoard.clear,
      TitanSizeBoard.initHuntSizes, TitanSizeBoard.record]
  have hm : (7 : UInt64) ∈ (boardAfter halfQuoted).huntSizes := by decide
  obtain ⟨pin, hp, -, hage, hfresh⟩ := unquoted_age ⟨id, fun _ => .refl _⟩ 1000
    "SOL-USDC" "SOL" "USDC" hm hq
  have hzero := h.ages pin hp
  rw [hage, hfresh] at hzero
  exact absurd hzero (by decide)

end FeedMux.Titan
