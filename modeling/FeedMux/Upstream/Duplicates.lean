import FeedMux.Shred.Duplicates
import FeedMux.Upstream.TritonShred

/-!
# Duplicate datagrams

Nothing in the loop or the reassembler recognises a duplicate. A copy that is
redundant changes nothing but the frame counters (`duplicate_datagram`); any
other copy is told by some continuation (`copies`).
-/

namespace FeedMux.Upstream
open FeedMux.Library FeedMux.Shred

theorem recordVaultHits {stats stats' : ShredStats} (h : stats.vaultHits = stats'.vaultHits)
    (hits : List VaultHit) (ts : UInt64) :
    (hits.foldl (fun stats _ => stats.recordVaultHit ts) stats).vaultHits =
      (hits.foldl (fun stats _ => stats.recordVaultHit ts) stats').vaultHits := by
  induction hits generalizing stats stats' with
  | nil => exact h
  | cons hit hits ih =>
    refine ih ?_
    show stats.vaultHits + 1 = stats'.vaultHits + 1
    rw [h]

/-- A datagram with the same batch has the same output and counts the same hits. -/
theorem udpHandle_batch {cfg : UdpConfig} {st st' : UdpState} {d : Datagram}
    {parsed : Option ParsedDataShred}
    (hpush : ∀ shred ∈ parsed, (st.reassembler.push shred).2 = (st'.reassembler.push shred).2)
    (hv : st.stats.vaultHits = st'.stats.vaultHits) :
    (udpHandle cfg st d parsed).2 = (udpHandle cfg st' d parsed).2 ∧
      (udpHandle cfg st d parsed).1.stats.vaultHits =
        (udpHandle cfg st' d parsed).1.stats.vaultHits := by
  cases parsed with
  | none => exact ⟨rfl, hv⟩
  | some shred =>
    have hbatch := hpush shred rfl
    unfold udpHandle
    simp only
    cases hp : st.reassembler.push shred with
    | mk reassembler batch =>
      cases hp' : st'.reassembler.push shred with
      | mk reassembler' batch' =>
        rw [hp, hp'] at hbatch
        subst hbatch
        cases batch with
        | none => exact ⟨rfl, hv⟩
        | some batch =>
          refine ⟨rfl, ?_⟩
          refine recordVaultHits ?_ (cfg.vaults.scanHits cfg.bs58 batch.bytes) d.nowMs
          exact hv

/-- Two loops with these datagrams to come. -/
structure SideBySide (cfg : UdpConfig) (ds : List Datagram) (st st' : UdpState) : Prop where
  alike : st.reassembler.Alike st'.reassembler
  vaultHits : st.stats.vaultHits = st'.stats.vaultHits
  neverEvicts : st.reassembler.NeverEvicts (delivered cfg ds)
  neverEvicts' : st'.reassembler.NeverEvicts (delivered cfg ds)

theorem delivered_cons (cfg : UdpConfig) (d : Datagram) (ds : List Datagram) :
    delivered cfg (d :: ds) = (shredOf cfg d).toList ++ delivered cfg ds := by
  unfold delivered
  cases h : shredOf cfg d <;> simp [h]

theorem sideBySide_step {cfg : UdpConfig} {d : Datagram} {ds : List Datagram} {st st' : UdpState}
    (h : SideBySide cfg (d :: ds) st st') :
    (udpStep cfg st d).2 = (udpStep cfg st' d).2 ∧
      SideBySide cfg ds (udpStep cfg st d).1 (udpStep cfg st' d).1 := by
  obtain ⟨halike, hv, hn, hn'⟩ := h
  rw [delivered_cons, ShredReassembler.neverEvicts_append] at hn hn'
  have hpush : ∀ shred ∈ shredOf cfg d,
      (st.reassembler.push shred).2 = (st'.reassembler.push shred).2 ∧
        (st.reassembler.push shred).1.Alike (st'.reassembler.push shred).1 := by
    intro shred hs
    rw [Option.mem_def] at hs
    rw [hs] at hn hn'
    rw [ShredReassembler.push_of_no_eviction hn.1.1, ShredReassembler.push_of_no_eviction hn'.1.1]
    exact ShredReassembler.alike_step halike shred
  have hbatch : ∀ shred ∈ shredOf cfg d,
      (st.reassembler.push shred).2 = (st'.reassembler.push shred).2 :=
    fun shred hs => (hpush shred hs).1
  obtain ⟨hout, hhits⟩ := udpHandle_batch hbatch hv
  refine ⟨hout, ?_, hhits, ?_, ?_⟩
  · rw [udpStep_reassembler, udpStep_reassembler]
    cases hs : shredOf cfg d with
    | none => exact halike
    | some shred => exact (hpush shred hs).2
  · rw [udpStep_reassembler]
    exact hn.2
  · rw [udpStep_reassembler]
    exact hn'.2

/-- What a datagram without a batch makes visible. -/
def quiet (cfg : UdpConfig) (d : Datagram) : UdpOutput :=
  ⟨none, cfg.fanout.recordShredFrame d.nowMs, []⟩

/-- A redundant datagram changes no other output of the loop and counts no hit. -/
theorem duplicate_datagram {cfg : UdpConfig} {r : ShredReassembler} {shred : ParsedDataShred}
    (h : r.Redundant shred) (stats : ShredStats) {d : Datagram} (hd : shredOf cfg d = some shred)
    {ds : List Datagram} (hn : r.NeverEvicts (delivered cfg (d :: ds)))
    (hn' : r.NeverEvicts (delivered cfg ds)) :
    let twice := runs (udpStep cfg) ⟨r, stats⟩ (d :: ds)
    let once := runs (udpStep cfg) ⟨r, stats⟩ ds
    twice.2 = quiet cfg d :: once.2 ∧ twice.1.stats.vaultHits = once.1.stats.vaultHits := by
  intro twice once
  rw [delivered_cons, hd] at hn
  obtain ⟨hsilent, halike⟩ := ShredReassembler.redundant_step h
  have hpush := ShredReassembler.push_of_no_eviction hn.1
  have hstep : udpStep cfg ⟨r, stats⟩ d =
      (⟨(r.untrimmed shred).1, stats.recordShred d.nowMs⟩, quiet cfg d) := by
    unfold udpStep udpHandle
    rw [hd]
    simp only
    rw [hpush]
    cases hu : r.untrimmed shred with
    | mk r' batch =>
      rw [hu] at hsilent
      subst hsilent
      rfl
  have hnext := hn.2
  rw [hpush] at hnext
  have hside : SideBySide cfg ds ⟨(r.untrimmed shred).1, stats.recordShred d.nowMs⟩ ⟨r, stats⟩ :=
    ⟨halike, rfl, hnext, hn'⟩
  have hstep' : ∀ d ds st st', SideBySide cfg (d :: ds) st st' →
      (udpStep cfg st d).2 = (udpStep cfg st' d).2 ∧
        SideBySide cfg ds (udpStep cfg st d).1 (udpStep cfg st' d).1 :=
    fun d ds st st' h => sideBySide_step h
  obtain ⟨hout, hend⟩ := runs_simulates hstep' hside
  refine ⟨?_, ?_⟩
  · show (runs (udpStep cfg) ⟨r, stats⟩ (d :: ds)).2 = _
    rw [runs_cons, hstep, hout]
  · show (runs (udpStep cfg) ⟨r, stats⟩ (d :: ds)).1.stats.vaultHits = _
    rw [runs_cons, hstep]
    exact hend.vaultHits

/-- **Copies.** After a run without eviction, a copy of one of its shreds leaves
the batches of every continuation unchanged exactly if it is redundant; then a
datagram with it counts and publishes no hit and changes no later output. -/
theorem copies (m : Nat) (before between : List ParsedDataShred) (shred : ParsedDataShred)
    (hn : (ShredReassembler.new m).NeverEvicts (before ++ shred :: between ++ [shred])) :
    let history := before ++ shred :: between
    let r := (runs ShredReassembler.push (.new m) history).1
    ((∀ after, (ShredReassembler.new m).NeverEvicts (history ++ after) →
        (ShredReassembler.new m).NeverEvicts (history ++ shred :: after) →
        (ShredReassembler.new m).batches (history ++ shred :: after) =
          (ShredReassembler.new m).batches (history ++ after)) ↔ r.Redundant shred) ∧
      (r.Redundant shred → ∀ (cfg : UdpConfig) (stats : ShredStats) (d : Datagram)
        (ds : List Datagram), shredOf cfg d = some shred →
        r.NeverEvicts (delivered cfg (d :: ds)) → r.NeverEvicts (delivered cfg ds) →
        let twice := runs (udpStep cfg) ⟨r, stats⟩ (d :: ds)
        let once := runs (udpStep cfg) ⟨r, stats⟩ ds
        twice.2 = quiet cfg d :: once.2 ∧
          twice.1.stats.vaultHits = once.1.stats.vaultHits) := by
  intro history r
  have hsize : r.sets.size ≤ r.maxSets := ShredReassembler.runs_size (Nat.zero_le _) history
  have hhistory : (ShredReassembler.new m).NeverEvicts history :=
    (ShredReassembler.neverEvicts_append.mp hn).1
  have hcopy : r.NeverEvicts [shred] := (ShredReassembler.neverEvicts_append.mp hn).2
  refine ⟨?_, fun h cfg stats d ds hd hn hn' => duplicate_datagram h stats hd hn hn'⟩
  rw [← ShredReassembler.harmless_iff_redundant hsize hcopy.1]
  refine forall_congr' fun after => ?_
  simp only [ShredReassembler.neverEvicts_append, hhistory, true_and,
    ShredReassembler.batches_append, List.append_cancel_left_eq]
  exact Iff.rfl

/-! A copy while its set is open, and the copy of a shred that completed its set. -/

def openShred : ParsedDataShred := ⟨1, 0, 9, false, false, [97]⟩

def closingShred : ParsedDataShred := ⟨1, 1, 9, true, false, [98]⟩

theorem copies_sample :
    (ShredReassembler.new 8).batches ([openShred] ++ openShred :: [closingShred]) =
      (ShredReassembler.new 8).batches ([openShred] ++ [closingShred]) :=
  (copies 8 [] [] openShred (by decide)).1.mpr (by decide) [closingShred] (by decide) (by decide)

theorem copies_twice : ¬ ∀ (m : Nat) (before between after : List ParsedDataShred)
    (shred : ParsedDataShred),
    (ShredReassembler.new m).NeverEvicts (before ++ shred :: between ++ after) →
    (ShredReassembler.new m).NeverEvicts (before ++ shred :: between ++ shred :: after) →
    (ShredReassembler.new m).batches (before ++ shred :: between ++ shred :: after) =
      (ShredReassembler.new m).batches (before ++ shred :: between ++ after) := by
  intro h
  exact absurd (h 8 [openShred] [] [] closingShred (by decide) (by decide)) (by decide)

end FeedMux.Upstream
