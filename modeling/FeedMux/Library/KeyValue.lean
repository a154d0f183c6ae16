import Mathlib

/-!
# A key-value store with counters

Commands overwrite an entry, delete it, or add to a counter. `exec_frame` says
that commands on other keys leave an entry alone, and `exec_counter` that
commands which never overwrite a counter leave it at its start value plus all
its increments. `succeed` says whether all commands succeed.
-/

namespace FeedMux.Library.KeyValue

/-- A decimal number, on which increments work, or any other text. -/
inductive Value (δ : Type*) where
  | int (n : Int)
  | doc (d : δ)
  deriving DecidableEq, Repr

structure Entry (δ : Type*) where
  value : Value δ
  ttlSecs : Option Nat := none
  deriving DecidableEq, Repr

inductive Cmd (κ δ : Type*) where
  | set (key : κ) (value : Value δ)
  | setEx (key : κ) (value : Value δ) (ttlSecs : Nat)
  | incr (key : κ) (amount : Int)
  | del (key : κ)
  deriving DecidableEq, Repr

abbrev Store (κ δ : Type*) := κ → Option (Entry δ)

variable {κ δ : Type*}

def Cmd.key : Cmd κ δ → κ
  | .set k _ => k
  | .setEx k _ _ => k
  | .incr k _ => k
  | .del k => k

def counter (st : Store κ δ) (k : κ) : Option Int :=
  match st k with
  | some ⟨.int n, _⟩ => some n
  | _ => none

theorem counter_eq_some {st : Store κ δ} {k : κ} {n : Int} :
    counter st k = some n ↔ ∃ ttl, st k = some ⟨.int n, ttl⟩ := by
  unfold counter
  split <;> simp_all

/-- What the command makes of its key's entry. An increment creates a missing
counter and keeps the expiry of a present one; on a document it fails and
changes nothing. -/
def Cmd.effect : Cmd κ δ → Option (Entry δ) → Option (Entry δ)
  | .set _ v, _ => some ⟨v, none⟩
  | .setEx _ v ttl, _ => some ⟨v, some ttl⟩
  | .incr _ n, none => some ⟨.int n, none⟩
  | .incr _ n, some ⟨.int m, ttl⟩ => some ⟨.int (m + n), ttl⟩
  | .incr _ _, some ⟨.doc d, ttl⟩ => some ⟨.doc d, ttl⟩
  | .del _, _ => none

variable [DecidableEq κ]

def Cmd.exec (st : Store κ δ) (c : Cmd κ δ) : Store κ δ :=
  Function.update st c.key (c.effect (st c.key))

def exec (st : Store κ δ) (cmds : List (Cmd κ δ)) : Store κ δ := cmds.foldl Cmd.exec st

@[simp] theorem exec_nil (st : Store κ δ) : exec st [] = st := rfl

@[simp] theorem exec_cons (st : Store κ δ) (c : Cmd κ δ) (cs : List (Cmd κ δ)) :
    exec st (c :: cs) = exec (c.exec st) cs := rfl

theorem exec_append (st : Store κ δ) (cs ds : List (Cmd κ δ)) :
    exec st (cs ++ ds) = exec (exec st cs) ds := List.foldl_append ..

/-! ## Other keys -/

theorem Cmd.exec_frame {c : Cmd κ δ} {k : κ} (h : c.key ≠ k) (st : Store κ δ) :
    c.exec st k = st k :=
  Function.update_of_ne (Ne.symm h) _ _

theorem Cmd.exec_own (c : Cmd κ δ) (st : Store κ δ) :
    c.exec st c.key = c.effect (st c.key) :=
  Function.update_self ..

/-- **Frame rule.** -/
theorem exec_frame {cs : List (Cmd κ δ)} {k : κ} (h : ∀ c ∈ cs, c.key ≠ k) (st : Store κ δ) :
    exec st cs k = st k := by
  induction cs generalizing st with
  | nil => rfl
  | cons c cs ih =>
    rw [exec_cons, ih fun d hd => h d (List.mem_cons_of_mem _ hd),
      Cmd.exec_frame (h c List.mem_cons_self)]

/-- Commands on some of the keys do to them what they do among others. -/
theorem exec_filter_keys {p : κ → Bool} {k : κ} (hk : p k) (cs : List (Cmd κ δ))
    {st st' : Store κ δ} (h : st k = st' k) :
    exec st (cs.filter fun c => p c.key) k = exec st' cs k := by
  induction cs generalizing st st' with
  | nil => exact h
  | cons c cs ih =>
    rw [List.filter_cons, exec_cons]
    by_cases hp : p c.key
    · rw [if_pos hp, exec_cons]
      apply ih
      by_cases hck : c.key = k
      · subst hck
        rw [Cmd.exec_own, Cmd.exec_own, h]
      · rw [Cmd.exec_frame hck, Cmd.exec_frame hck, h]
    · rw [if_neg hp]
      apply ih
      have hck : c.key ≠ k := by
        rintro rfl
        exact hp hk
      rw [Cmd.exec_frame hck, h]

/-- An entry depends on its own old value only. -/
theorem exec_congr {k : κ} {st st' : Store κ δ} (h : st k = st' k) (cs : List (Cmd κ δ)) :
    exec st cs k = exec st' cs k := by
  have hall : (cs.filter fun c => (fun _ => true) c.key) = cs := List.filter_true cs
  rw [← exec_filter_keys (p := fun _ => true) rfl cs h, hall]

/-- **Assignment rule.** If every command on the key sets it to one value, and
there is one, the key holds that value. -/
theorem exec_set {cs : List (Cmd κ δ)} {k : κ} {v : Value δ}
    (h : ∀ c ∈ cs, c.key = k → c = .set k v) (hm : .set k v ∈ cs) (st : Store κ δ) :
    exec st cs k = some ⟨v, none⟩ := by
  induction cs using List.reverseRecOn with
  | nil => cases hm
  | append_singleton cs c ih =>
    rw [exec_append, exec_cons, exec_nil]
    by_cases hk : c.key = k
    · rw [h c (by simp) hk]
      exact Cmd.exec_own (.set k v) _
    · rw [Cmd.exec_frame hk]
      refine ih (fun d hd => h d (List.mem_append_left _ hd)) ?_
      rcases List.mem_append.mp hm with hm | hm
      · exact hm
      · rw [List.mem_singleton] at hm
        exact absurd (congrArg Cmd.key hm).symm hk

/-! ## Counters -/

/-- The command may replace the entry of this key. -/
def Cmd.Overwrites (k : κ) : Cmd κ δ → Prop
  | .incr _ _ => False
  | c => c.key = k

instance (k : κ) : (c : Cmd κ δ) → Decidable (c.Overwrites k)
  | .incr _ _ => isFalse id
  | .set k' _ | .setEx k' _ _ | .del k' => inferInstanceAs (Decidable (k' = k))

theorem Cmd.exec_overwrites {c : Cmd κ δ} {k : κ} (h : c.Overwrites k) (st st' : Store κ δ) :
    c.exec st k = c.exec st' k := by
  have hk : c.key = k := by
    cases c with
    | incr k' n => exact h.elim
    | _ => exact h
  subst hk
  rw [Cmd.exec_own, Cmd.exec_own]
  cases c with
  | incr k' n => exact h.elim
  | _ => rfl

/-- **Forgetting rule.** An overwritten entry tells nothing of what was there before. -/
theorem exec_overwritten {cs : List (Cmd κ δ)} {k : κ} (h : ∃ c ∈ cs, c.Overwrites k)
    (st st' : Store κ δ) : exec st cs k = exec st' cs k := by
  induction cs generalizing st st' with
  | nil => simp at h
  | cons c cs ih =>
    rw [exec_cons, exec_cons]
    by_cases hc : c.Overwrites k
    · exact exec_congr (Cmd.exec_overwrites hc st st') cs
    · apply ih
      obtain ⟨c', hc', ho⟩ := h
      rcases List.mem_cons.mp hc' with rfl | hc'
      · exact absurd ho hc
      · exact ⟨c', hc', ho⟩

/-- What the command adds to the counter of this key. -/
def Cmd.amount (k : κ) : Cmd κ δ → Int
  | .incr k' n => if k' = k then n else 0
  | _ => 0

/-- What the commands add to the counter of this key. -/
def increments (k : κ) (cs : List (Cmd κ δ)) : Int := (cs.map (Cmd.amount k)).sum

@[simp] theorem increments_nil (k : κ) : increments k ([] : List (Cmd κ δ)) = 0 := rfl

@[simp] theorem increments_cons (k : κ) (c : Cmd κ δ) (cs : List (Cmd κ δ)) :
    increments k (c :: cs) = c.amount k + increments k cs := by
  simp [increments]

theorem Cmd.exec_counter {c : Cmd κ δ} {k : κ} (h : ¬ c.Overwrites k) {st : Store κ δ} {n : Int}
    (hn : counter st k = some n) : counter (c.exec st) k = some (n + c.amount k) := by
  obtain ⟨ttl, he⟩ := counter_eq_some.mp hn
  refine counter_eq_some.mpr ⟨ttl, ?_⟩
  by_cases hk : c.key = k
  · subst hk
    rw [Cmd.exec_own, he]
    cases c with
    | incr k' m => simp [Cmd.effect, Cmd.amount, Cmd.key]
    | _ => exact absurd rfl h
  · have ha : c.amount k = 0 := by
      cases c with
      | incr k' m => exact if_neg hk
      | _ => rfl
    rw [Cmd.exec_frame hk, he, ha, Int.add_zero]

theorem counter_other (c : Cmd κ δ) {k : κ} (h : c.key ≠ k) (st : Store κ δ) :
    counter (c.exec st) k = counter st k := by
  unfold counter
  rw [Cmd.exec_frame h]

theorem counter_set_ne {k k' : κ} (h : k' ≠ k) (v : Value δ) (st : Store κ δ) :
    counter (Cmd.exec st (.set k' v)) k = counter st k := counter_other (.set k' v) h st

theorem counter_setEx_ne {k k' : κ} (h : k' ≠ k) (v : Value δ) (ttlSecs : Nat)
    (st : Store κ δ) : counter (Cmd.exec st (.setEx k' v ttlSecs)) k = counter st k :=
  counter_other (.setEx k' v ttlSecs) h st

theorem counter_del_ne {k k' : κ} (h : k' ≠ k) (st : Store κ δ) :
    counter (Cmd.exec st (.del k')) k = counter st k := counter_other (.del k') h st

theorem counter_incr_ne {k k' : κ} (h : k' ≠ k) (n : Int) (st : Store κ δ) :
    counter (Cmd.exec st (.incr k' n)) k = counter st k := counter_other (.incr k' n) h st

theorem counter_set (k : κ) (n : Int) (st : Store κ δ) :
    counter (Cmd.exec st (.set k (.int n))) k = some n :=
  counter_eq_some.mpr ⟨none, Cmd.exec_own (.set k (.int n)) st⟩

theorem counter_incr {k : κ} {m : Int} (n : Int) {st : Store κ δ} (h : counter st k = some m) :
    counter (Cmd.exec st (.incr k n)) k = some (m + n) := by
  have hn : ¬ (Cmd.incr k n : Cmd κ δ).Overwrites k := id
  simpa [Cmd.amount] using Cmd.exec_counter hn h

/-- **Counter rule.** -/
theorem exec_counter {cs : List (Cmd κ δ)} {k : κ} (h : ∀ c ∈ cs, ¬ c.Overwrites k)
    {st : Store κ δ} {n : Int} (hn : counter st k = some n) :
    counter (exec st cs) k = some (n + increments k cs) := by
  induction cs generalizing st n with
  | nil => simpa using hn
  | cons c cs ih =>
    have hc := Cmd.exec_counter (h c List.mem_cons_self) hn
    rw [exec_cons, ih (fun d hd => h d (List.mem_cons_of_mem _ hd)) hc, increments_cons,
      Int.add_assoc]

/-! ## Commands that succeed -/

/-- An increment needs a number, or no entry, and a result of 64 bits. -/
def incrSucceeds (n : Int) : Option (Entry δ) → Bool
  | none => -(2 ^ 63) ≤ n && n < 2 ^ 63
  | some ⟨.int m, _⟩ => -(2 ^ 63) ≤ m + n && m + n < 2 ^ 63
  | some ⟨.doc _, _⟩ => false

def Cmd.succeeds (st : Store κ δ) : Cmd κ δ → Bool
  | .incr k n => incrSucceeds n (st k)
  | .set _ _ | .setEx _ _ _ | .del _ => true

/-- None of the commands fails. -/
def succeed : Store κ δ → List (Cmd κ δ) → Bool
  | _, [] => true
  | st, c :: cs => c.succeeds st && succeed (c.exec st) cs

theorem succeed_cons (st : Store κ δ) (c : Cmd κ δ) (cs : List (Cmd κ δ)) :
    succeed st (c :: cs) ↔ c.succeeds st ∧ succeed (c.exec st) cs := by
  simp [succeed]

theorem succeed_append (st : Store κ δ) (cs ds : List (Cmd κ δ)) :
    succeed st (cs ++ ds) ↔ succeed st cs ∧ succeed (exec st cs) ds := by
  induction cs generalizing st with
  | nil => simp [succeed]
  | cons c cs ih => rw [List.cons_append, succeed_cons, ih, succeed_cons, exec_cons, and_assoc]

omit [DecidableEq κ] in
theorem Cmd.succeeds_congr {c : Cmd κ δ} {st st' : Store κ δ} (h : st c.key = st' c.key) :
    c.succeeds st = c.succeeds st' := by
  cases c with
  | incr k n => exact congrArg (incrSucceeds n) h
  | _ => rfl

omit [DecidableEq κ] in
/-- The result of an increment that succeeds. -/
theorem Cmd.succeeds_result {k : κ} {n m : Int} {st : Store κ δ}
    (h : (Cmd.incr k n : Cmd κ δ).succeeds st) (hm : counter st k = some m) : m + n < 2 ^ 63 := by
  obtain ⟨ttl, he⟩ := counter_eq_some.mp hm
  simp only [Cmd.succeeds, he, incrSucceeds, Bool.and_eq_true, decide_eq_true_eq] at h
  exact h.2

/-- Commands on some of the keys succeed on their own if they do among others. -/
theorem succeed_filter {p : κ → Bool} {cs : List (Cmd κ δ)} {st st' : Store κ δ}
    (h : succeed st cs) (hst : ∀ k, p k → st k = st' k) :
    succeed st' (cs.filter fun c => p c.key) := by
  induction cs generalizing st st' with
  | nil => rfl
  | cons c cs ih =>
    obtain ⟨hc, hcs⟩ := (succeed_cons ..).mp h
    have hnext : ∀ st', (∀ k, p k → c.exec st k = st' k) →
        succeed st' (cs.filter fun c => p c.key) := fun _ hst' => ih hcs hst'
    rw [List.filter_cons]
    by_cases hp : p c.key
    · rw [if_pos hp, succeed_cons]
      refine ⟨Cmd.succeeds_congr (hst c.key hp) ▸ hc, hnext _ ?_⟩
      intro k hk
      by_cases hck : c.key = k
      · subst hck
        rw [Cmd.exec_own, Cmd.exec_own, hst c.key hp]
      · rw [Cmd.exec_frame hck, Cmd.exec_frame hck, hst k hk]
    · rw [if_neg hp]
      refine hnext st' ?_
      intro k hk
      have hck : c.key ≠ k := by
        rintro rfl
        exact hp hk
      rw [Cmd.exec_frame hck, hst k hk]

end FeedMux.Library.KeyValue
