import FeedMux.Library.KeyValue
import FeedMux.Library.OrderedMap

/-!
# A key-value store whose entries expire

Commands are executed at times. An entry with a time to live can be read until
its deadline and is gone afterwards. On a key that never gets one, time makes
no difference (`readAt_persistent`); on a key that is only ever written with
one, a read finds the last write if that is recent enough (`readAt_leased`).
-/

namespace FeedMux.Library.KeyValue

/-- A value and the last instant at which it can be read. -/
structure Kept (δ : Type*) where
  value : Value δ
  deadline : Option Nat := none
  deriving DecidableEq, Repr

abbrev TimedStore (κ δ : Type*) := κ → Option (Kept δ)

variable {κ δ : Type*}

def Kept.AliveAt (now : Nat) (e : Kept δ) : Prop := ∀ d ∈ e.deadline, now ≤ d

instance (now : Nat) (e : Kept δ) : Decidable (e.AliveAt now) := by
  unfold Kept.AliveAt
  infer_instance

/-- What is still there. -/
def alive (now : Nat) : Option (Kept δ) → Option (Kept δ)
  | some e => if e.AliveAt now then some e else none
  | none => none

/-- A read at an instant. -/
def readAt (now : Nat) (st : TimedStore κ δ) (k : κ) : Option (Value δ) :=
  (alive now (st k)).map Kept.value

/-- A second is this many units of time. -/
def ticksPerSecond : Nat := 1000

/-- What the command makes of the entry that it finds at that instant. -/
def Cmd.effectAt (now : Nat) : Cmd κ δ → Option (Kept δ) → Option (Kept δ)
  | .set _ v, _ => some ⟨v, none⟩
  | .setEx _ v ttlSecs, _ => some ⟨v, some (now + ttlSecs * ticksPerSecond)⟩
  | .incr _ n, none => some ⟨.int n, none⟩
  | .incr _ n, some ⟨.int m, deadline⟩ => some ⟨.int (m + n), deadline⟩
  | .incr _ _, some ⟨.doc d, deadline⟩ => some ⟨.doc d, deadline⟩
  | .del _, _ => none

/-! ## One command on an entry without expiry -/

/-- The entry never expires. -/
def Kept.Persistent (e : Kept δ) : Prop := e.deadline = none

theorem alive_persistent {e : Option (Kept δ)} (h : ∀ x ∈ e, x.Persistent) (now : Nat) :
    alive now e = e := by
  cases e with
  | none => rfl
  | some x => simp [alive, Kept.AliveAt, show x.deadline = none from h x rfl]

theorem effectAt_persistent {c : Cmd κ δ} (hc : ∀ v ttl, c ≠ .setEx c.key v ttl)
    {e : Option (Kept δ)} (he : ∀ x ∈ e, x.Persistent) (now : Nat) :
    ∀ x ∈ c.effectAt now e, x.Persistent := by
  intro x hx
  cases c with
  | set k v =>
    obtain rfl := Option.some.inj hx
    rfl
  | setEx k v ttl => exact absurd rfl (hc v ttl)
  | incr k n =>
    cases e with
    | none =>
      obtain rfl := Option.some.inj hx
      rfl
    | some y =>
      have hy := he y rfl
      obtain ⟨v, deadline⟩ := y
      cases v <;> (obtain rfl := Option.some.inj hx; exact hy)
  | del k => cases hx

/-- A timed entry that holds what the untimed one holds. -/
def SameValue (e : Option (Kept δ)) (e' : Option (Entry δ)) : Prop :=
  e.map Kept.value = e'.map Entry.value

theorem effectAt_sameValue (now : Nat) (c : Cmd κ δ) {e : Option (Kept δ)}
    {e' : Option (Entry δ)} (h : SameValue e e') :
    SameValue (c.effectAt now e) (c.effect e') := by
  cases c with
  | set k v => rfl
  | setEx k v ttl => rfl
  | del k => rfl
  | incr k n =>
    cases e with
    | none =>
      cases e' with
      | none => rfl
      | some y => cases h
    | some x =>
      cases e' with
      | none => cases h
      | some y =>
        obtain ⟨v, deadline⟩ := x
        obtain ⟨w, ttl⟩ := y
        obtain rfl : v = w := Option.some.inj h
        cases v <;> rfl

/-! ## Execution -/

variable [DecidableEq κ]

def Cmd.execAt (now : Nat) (st : TimedStore κ δ) (c : Cmd κ δ) : TimedStore κ δ :=
  Function.update st c.key (c.effectAt now (alive now (st c.key)))

/-- Commands with the times at which they are executed. -/
abbrev TimedCmds (κ δ : Type*) := List (Nat × Cmd κ δ)

def execTimed (st : TimedStore κ δ) (cmds : TimedCmds κ δ) : TimedStore κ δ :=
  cmds.foldl (fun st e => e.2.execAt e.1 st) st

@[simp] theorem execTimed_nil (st : TimedStore κ δ) : execTimed st [] = st := rfl

theorem execTimed_concat (st : TimedStore κ δ) (cmds : TimedCmds κ δ) (e : Nat × Cmd κ δ) :
    execTimed st (cmds ++ [e]) = e.2.execAt e.1 (execTimed st cmds) := by
  simp [execTimed]

theorem Cmd.execAt_frame {c : Cmd κ δ} {k : κ} (h : c.key ≠ k) (now : Nat)
    (st : TimedStore κ δ) : c.execAt now st k = st k :=
  Function.update_of_ne (Ne.symm h) _ _

theorem Cmd.execAt_own (now : Nat) (c : Cmd κ δ) (st : TimedStore κ δ) :
    c.execAt now st c.key = c.effectAt now (alive now (st c.key)) :=
  Function.update_self ..

/-! ## Keys without expiry -/

/-- **Persistence.** A key that no command gives a time to live reads at any
time as if time did not pass. -/
theorem readAt_persistent {k : κ} {cmds : TimedCmds κ δ}
    (hc : ∀ e ∈ cmds, ∀ v ttl, e.2 ≠ .setEx k v ttl) {st : TimedStore κ δ} {st' : Store κ δ}
    (hp : ∀ x ∈ st k, x.Persistent) (hv : SameValue (st k) (st' k)) (now : Nat) :
    readAt now (execTimed st cmds) k = (exec st' (cmds.map Prod.snd) k).map Entry.value := by
  have hrun : (∀ x ∈ execTimed st cmds k, x.Persistent) ∧
      SameValue (execTimed st cmds k) (exec st' (cmds.map Prod.snd) k) := by
    induction cmds using List.reverseRecOn with
    | nil => exact ⟨hp, hv⟩
    | append_singleton cmds e ih =>
      obtain ⟨ihp, ihv⟩ := ih fun e' he' => hc e' (List.mem_append_left _ he')
      rw [execTimed_concat, List.map_append, exec_append]
      by_cases hk : e.2.key = k
      · subst hk
        have hlast := hc e (by simp)
        rw [Cmd.execAt_own, alive_persistent ihp]
        refine ⟨effectAt_persistent hlast ihp _, ?_⟩
        simp only [List.map_cons, List.map_nil, exec_cons, exec_nil, Cmd.exec_own]
        exact effectAt_sameValue _ _ ihv
      · rw [Cmd.execAt_frame hk]
        simp only [List.map_cons, List.map_nil, exec_cons, exec_nil, Cmd.exec_frame hk]
        exact ⟨ihp, ihv⟩
  rw [readAt, alive_persistent hrun.1]
  exact hrun.2

theorem execTimed_append (st : TimedStore κ δ) (cmds more : TimedCmds κ δ) :
    execTimed st (cmds ++ more) = execTimed (execTimed st cmds) more := List.foldl_append ..

/-- Once it is overwritten, neither what the key held nor its deadline matters. -/
theorem readAt_overwritten {k : κ} {cmds : TimedCmds κ δ}
    (hc : ∀ e ∈ cmds, ∀ v ttl, e.2 ≠ .setEx k v ttl) (ho : ∃ e ∈ cmds, e.2.Overwrites k)
    (st : TimedStore κ δ) (st' : Store κ δ) (now : Nat) :
    readAt now (execTimed st cmds) k = (exec st' (cmds.map Prod.snd) k).map Entry.value := by
  obtain ⟨⟨t, c⟩, he, ho⟩ := ho
  obtain ⟨pre, post, rfl⟩ := List.append_of_mem he
  rw [List.append_cons, execTimed_append, List.map_append, exec_append]
  have hset : ∀ v ttl, c ≠ .setEx k v ttl := hc (t, c) he
  have hafter : (∀ x ∈ execTimed st (pre ++ [(t, c)]) k, x.Persistent) ∧
      SameValue (execTimed st (pre ++ [(t, c)]) k)
        (exec st' ((pre ++ [(t, c)]).map Prod.snd) k) := by
    rw [execTimed_concat, List.map_append, exec_append]
    cases c with
    | incr k' n => exact ho.elim
    | setEx k' v ttl => exact absurd (show k' = k from ho ▸ rfl) (fun h => hset v ttl (h ▸ rfl))
    | set k' v =>
      obtain rfl : k' = k := ho
      refine ⟨?_, ?_⟩ <;> simp [Cmd.execAt, Cmd.exec, Cmd.key, Cmd.effectAt, Cmd.effect,
        Kept.Persistent, SameValue]
    | del k' =>
      obtain rfl : k' = k := ho
      refine ⟨?_, ?_⟩ <;> simp [Cmd.execAt, Cmd.exec, Cmd.key, Cmd.effectAt, Cmd.effect,
        SameValue]
  refine readAt_persistent (fun e he => hc e ?_) hafter.1 hafter.2 now
  simp [he]

/-! ## Keys with expiry -/

/-- The last command on a key, with its time. -/
def lastCmd (k : κ) (cmds : TimedCmds κ δ) : Option (Nat × Cmd κ δ) :=
  lastWrite (cmds.map fun e => (e.2.key, e)) k

theorem lastCmd_concat (k : κ) (cmds : TimedCmds κ δ) (e : Nat × Cmd κ δ) :
    lastCmd k (cmds ++ [e]) = if e.2.key = k then some e else lastCmd k cmds := by
  unfold lastCmd
  rw [List.map_append]
  exact lastWrite_concat ..

theorem lastCmd_append (k : κ) (cmds more : TimedCmds κ δ) :
    lastCmd k (cmds ++ more) = (lastCmd k more).or (lastCmd k cmds) := by
  induction more using List.reverseRecOn with
  | nil => simp [lastCmd, lastWrite]
  | append_singleton more e ih =>
    rw [← List.append_assoc, lastCmd_concat, lastCmd_concat]
    by_cases hk : e.2.key = k
    · simp [hk]
    · simp [hk, ih]

theorem lastCmd_eq_none {k : κ} {cmds : TimedCmds κ δ} :
    lastCmd k cmds = none ↔ ∀ e ∈ cmds, e.2.key ≠ k := by
  rw [lastCmd, ← Option.not_isSome_iff_eq_none, isSome_lastWrite]
  simp

/-- Apart from its time it is the last of the commands on the key. -/
theorem lastCmd_snd (k : κ) (cmds : TimedCmds κ δ) :
    (lastCmd k cmds).map Prod.snd =
      ((cmds.map Prod.snd).filter fun c => c.key = k).getLast? := by
  induction cmds using List.reverseRecOn with
  | nil => rfl
  | append_singleton cmds e ih =>
    rw [lastCmd_concat, List.map_append, List.filter_append]
    by_cases hk : e.2.key = k
    · simp [hk]
    · simp [hk, ih]

theorem mem_of_lastCmd {k : κ} {cmds : TimedCmds κ δ} {e : Nat × Cmd κ δ}
    (h : lastCmd k cmds = some e) : e ∈ cmds ∧ e.2.key = k := by
  obtain ⟨e', he, heq⟩ := List.mem_map.mp (mem_of_lastWrite h)
  obtain ⟨hk, rfl⟩ := Prod.mk.inj heq
  exact ⟨he, hk⟩

/-- The last command on a key is the latest. -/
theorem lastCmd_latest {k : κ} {cmds : TimedCmds κ δ}
    (hs : (cmds.map Prod.fst).Pairwise (· ≤ ·)) {e last : Nat × Cmd κ δ}
    (hl : lastCmd k cmds = some last) (he : e ∈ cmds) (hk : e.2.key = k) : e.1 ≤ last.1 := by
  induction cmds using List.reverseRecOn with
  | nil => cases he
  | append_singleton cmds e' ih =>
    rw [lastCmd_concat] at hl
    rw [List.map_append, List.pairwise_append] at hs
    obtain ⟨hbefore, -, hlast⟩ := hs
    by_cases hk' : e'.2.key = k
    · rw [if_pos hk'] at hl
      obtain rfl := Option.some.inj hl
      rcases List.mem_append.mp he with he | he
      · exact hlast _ (List.mem_map_of_mem he) _ (by simp)
      · rw [List.mem_singleton.mp he]
    · rw [if_neg hk'] at hl
      rcases List.mem_append.mp he with he | he
      · exact ih hbefore hl he
      · rw [List.mem_singleton.mp he] at hk
        exact absurd hk hk'

/-- The entry that the last command on a key leaves, if that overwrites it. -/
theorem execTimed_last {k : κ} {cmds : TimedCmds κ δ}
    (hc : ∀ e ∈ cmds, e.2.key = k → e.2.Overwrites k) (st : TimedStore κ δ) :
    execTimed st cmds k =
      match lastCmd k cmds with
      | some e => e.2.effectAt e.1 none
      | none => st k := by
  induction cmds using List.reverseRecOn with
  | nil => rfl
  | append_singleton cmds e ih =>
    rw [execTimed_concat, lastCmd_concat]
    by_cases hk : e.2.key = k
    · have ho := hc e (by simp) hk
      obtain ⟨t, c⟩ := e
      simp only at hk ho ⊢
      rw [if_pos hk, ← hk, Cmd.execAt_own]
      cases c with
      | incr k' n => exact ho.elim
      | set k' v => rfl
      | setEx k' v ttl => rfl
      | del k' => rfl
    · rw [if_neg hk, Cmd.execAt_frame hk, ih fun e' he' => hc e' (List.mem_append_left _ he')]

/-- **Leases.** On a key that is only overwritten with a time to live or deleted,
a read finds the value of the last command, if that wrote one and is no older
than its time to live. If there was none, it finds what was there before. -/
theorem readAt_leased {k : κ} {cmds : TimedCmds κ δ}
    (hc : ∀ e ∈ cmds, e.2.key = k → (∃ v ttl, e.2 = .setEx k v ttl) ∨ e.2 = .del k)
    (st : TimedStore κ δ) (now : Nat) (v : Value δ) :
    readAt now (execTimed st cmds) k = some v ↔
      (∃ t ttl, lastCmd k cmds = some (t, .setEx k v ttl) ∧
          now ≤ t + ttl * ticksPerSecond) ∨
        lastCmd k cmds = none ∧ readAt now st k = some v := by
  have ho : ∀ e ∈ cmds, e.2.key = k → e.2.Overwrites k := by
    intro e he hk
    rcases hc e he hk with ⟨v, ttl, h⟩ | h <;> rw [h] <;> rfl
  rw [readAt, execTimed_last ho]
  cases hl : lastCmd k cmds with
  | none => simp [readAt]
  | some e =>
    obtain ⟨t, c⟩ := e
    obtain ⟨hm, hk⟩ := mem_of_lastCmd hl
    rcases hc (t, c) hm hk with ⟨w, ttl, rfl⟩ | rfl
    · by_cases hlive : now ≤ t + ttl * ticksPerSecond
      · simp [Cmd.effectAt, alive, Kept.AliveAt, hlive]
      · simp only [Cmd.effectAt, alive, Kept.AliveAt, Option.mem_def, Option.some.injEq,
          forall_eq', hlive, ↓reduceIte, Option.map_none, reduceCtorEq, Prod.mk.injEq,
          Cmd.setEx.injEq, true_and, false_and, or_false, false_iff, not_exists, not_and]
        rintro t' ttl' ⟨rfl, -, rfl⟩
        exact hlive
    · simp [Cmd.effectAt, alive]

/-- Under a lease, a read finds its value while the time to live runs. -/
theorem readAt_lease {k : κ} {cmds : TimedCmds κ δ}
    (hc : ∀ e ∈ cmds, e.2.key = k → (∃ v ttl, e.2 = .setEx k v ttl) ∨ e.2 = .del k)
    {t ttl : Nat} {w : Value δ} (hl : lastCmd k cmds = some (t, .setEx k w ttl))
    (st : TimedStore κ δ) (now : Nat) (v : Value δ) :
    readAt now (execTimed st cmds) k = some v ↔ v = w ∧ now ≤ t + ttl * ticksPerSecond := by
  rw [readAt_leased hc, hl]
  simp only [reduceCtorEq, false_and, or_false, Option.some.injEq, Prod.mk.injEq,
    Cmd.setEx.injEq, true_and]
  constructor
  · rintro ⟨t', ttl', ⟨rfl, rfl, rfl⟩, hlive⟩
    exact ⟨rfl, hlive⟩
  · rintro ⟨rfl, hlive⟩
    exact ⟨t, ttl, ⟨rfl, rfl, rfl⟩, hlive⟩

/-- **Plain keys.** On a key that is only set, a read finds what was set last. -/
theorem readAt_set {k : κ} {cmds : TimedCmds κ δ}
    (hc : ∀ e ∈ cmds, e.2.key = k → ∃ v, e.2 = .set k v) (st : TimedStore κ δ) (now : Nat)
    (v : Value δ) :
    readAt now (execTimed st cmds) k = some v ↔
      (∃ t, lastCmd k cmds = some (t, .set k v)) ∨
        lastCmd k cmds = none ∧ readAt now st k = some v := by
  have ho : ∀ e ∈ cmds, e.2.key = k → e.2.Overwrites k := by
    intro e he hk
    obtain ⟨v, h⟩ := hc e he hk
    rw [h]
    rfl
  rw [readAt, execTimed_last ho]
  cases hl : lastCmd k cmds with
  | none => simp [readAt]
  | some e =>
    obtain ⟨t, c⟩ := e
    obtain ⟨hm, hk⟩ := mem_of_lastCmd hl
    obtain ⟨w, rfl⟩ := hc (t, c) hm hk
    simp [Cmd.effectAt, alive, Kept.AliveAt]

/-- The last command on a key, known apart from its time, was a lease. -/
theorem lastCmd_setEx_iff {ν : Type*} {k : κ} {cmds : TimedCmds κ δ} {written : Option ν}
    {stored : ν → Value δ} {ttlSecs : Nat}
    (h : (lastCmd k cmds).map Prod.snd = written.map fun w => .setEx k (stored w) ttlSecs)
    (now : Nat) (v : Value δ) :
    (∃ t ttl, lastCmd k cmds = some (t, .setEx k v ttl) ∧ now ≤ t + ttl * ticksPerSecond) ↔
      ∃ w t, written = some w ∧ lastCmd k cmds = some (t, .setEx k (stored w) ttlSecs) ∧
        v = stored w ∧ now ≤ t + ttlSecs * ticksPerSecond := by
  constructor
  · rintro ⟨t, ttl, hl, hlive⟩
    rw [hl, Option.map_some] at h
    obtain ⟨w, hw, hcmd⟩ := Option.map_eq_some_iff.mp h.symm
    obtain ⟨-, rfl, rfl⟩ := Cmd.setEx.inj hcmd
    exact ⟨w, t, hw, hl, rfl, hlive⟩
  · rintro ⟨w, t, -, hl, rfl, hlive⟩
    exact ⟨t, ttlSecs, hl, hlive⟩

end FeedMux.Library.KeyValue
