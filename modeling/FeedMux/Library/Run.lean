import Mathlib

/-!
# Runs of step functions

A step function takes a state and an input to the next state and an output.
`runs` feeds it a list of inputs. `runs_history` is the rule the developments
use: a relation between the history so far and the state, kept by one step,
holds after every run; `runs_simulates` is the rule for two machines side by
side. `collect` gathers what the steps of a run find.
`runExcept` is the same run for a step that may fail, and `runActions` runs
actions that are not always enabled.
-/

namespace FeedMux.Library

variable {σ ι ο ε β : Type*}

/-- Feed the inputs one by one, keeping the outputs in order. -/
def runs (step : σ → ι → σ × ο) : σ → List ι → σ × List ο
  | s, [] => (s, [])
  | s, i :: is =>
    let r := step s i
    let t := runs step r.1 is
    (t.1, r.2 :: t.2)

@[simp] theorem runs_nil (step : σ → ι → σ × ο) (s : σ) : runs step s [] = (s, []) := rfl

@[simp] theorem runs_cons (step : σ → ι → σ × ο) (s : σ) (i : ι) (is : List ι) :
    runs step s (i :: is) =
      ((runs step (step s i).1 is).1, (step s i).2 :: (runs step (step s i).1 is).2) := rfl

theorem runs_append (step : σ → ι → σ × ο) (s : σ) (is js : List ι) :
    runs step s (is ++ js) =
      ((runs step (runs step s is).1 js).1,
        (runs step s is).2 ++ (runs step (runs step s is).1 js).2) := by
  induction is generalizing s with
  | nil => rfl
  | cons i is ih => simp [ih]

theorem runs_concat (step : σ → ι → σ × ο) (s : σ) (is : List ι) (i : ι) :
    runs step s (is ++ [i]) =
      ((step (runs step s is).1 i).1, (runs step s is).2 ++ [(step (runs step s is).1 i).2]) := by
  simp [runs_append]

@[simp] theorem runs_length (step : σ → ι → σ × ο) (s : σ) (is : List ι) :
    (runs step s is).2.length = is.length := by
  induction is generalizing s with
  | nil => rfl
  | cons i is ih => simp [ih]

/-- **History rule.** A relation between the inputs, the outputs and the state
that holds at the start and is kept by every step holds after every run. -/
theorem runs_history {step : σ → ι → σ × ο} {R : List ι → List ο → σ → Prop} {s₀ : σ}
    (start : R [] [] s₀)
    (next : ∀ is os s i, R is os s → R (is ++ [i]) (os ++ [(step s i).2]) (step s i).1)
    (is : List ι) : R is (runs step s₀ is).2 (runs step s₀ is).1 := by
  induction is using List.reverseRecOn with
  | nil => exact start
  | append_singleton is i ih =>
    rw [runs_concat]
    exact next is _ _ i ih

/-- **Simulation rule.** Two machines whose states stay related, with the inputs
still to come, and whose steps then have the same output. -/
theorem runs_simulates {σ' : Type*} {step : σ → ι → σ × ο} {step' : σ' → ι → σ' × ο}
    {R : List ι → σ → σ' → Prop}
    (next : ∀ i is s s', R (i :: is) s s' →
      (step s i).2 = (step' s' i).2 ∧ R is (step s i).1 (step' s' i).1)
    {is : List ι} {s : σ} {s' : σ'} (h : R is s s') :
    (runs step s is).2 = (runs step' s' is).2 ∧ R [] (runs step s is).1 (runs step' s' is).1 := by
  induction is generalizing s s' with
  | nil => exact ⟨rfl, h⟩
  | cons i is ih =>
    obtain ⟨hout, hnext⟩ := next i is s s' h
    obtain ⟨houts, hend⟩ := ih hnext
    rw [runs_cons, runs_cons, hout, houts]
    exact ⟨rfl, hend⟩

/-- The output at any position is the step's output in the state reached before it. -/
theorem runs_output (step : σ → ι → σ × ο) (s : σ) (pre post : List ι) (i : ι) :
    (runs step s (pre ++ i :: post)).2[pre.length]? =
      some (step (runs step s pre).1 i).2 := by
  rw [runs_append, List.getElem?_append_right (by simp)]
  simp

/-- Every output is that of some step. -/
theorem mem_runs {step : σ → ι → σ × ο} {s : σ} {is : List ι} {o : ο}
    (h : o ∈ (runs step s is).2) : ∃ t, ∃ i ∈ is, o = (step t i).2 := by
  induction is generalizing s with
  | nil => cases h
  | cons i is ih =>
    rcases List.mem_cons.mp h with rfl | h
    · exact ⟨s, i, List.mem_cons_self, rfl⟩
    · obtain ⟨t, j, hj, ho⟩ := ih h
      exact ⟨t, j, List.mem_cons_of_mem _ hj, ho⟩

/-- The place in a list of an element that a partial map keeps. -/
theorem filterMap_split {f : ι → Option β} {l : List ι} {pre post : List β} {b : β}
    (h : l.filterMap f = pre ++ b :: post) :
    ∃ before i after, l = before ++ i :: after ∧ before.filterMap f = pre ∧ f i = some b ∧
      after.filterMap f = post := by
  obtain ⟨before, rest, rfl, hbefore, hrest⟩ := List.filterMap_eq_append_iff.mp h
  obtain ⟨skipped, i, after, rfl, hskipped, hi, hafter⟩ := List.filterMap_eq_cons_iff.mp hrest
  refine ⟨before ++ skipped, i, after, by rw [List.append_assoc], ?_, hi, hafter⟩
  rw [List.filterMap_append, hbefore, List.filterMap_eq_nil_iff.mpr hskipped, List.append_nil]

theorem filterMap_at {f : ι → Option β} {l : List ι} {k : Nat} {b : β}
    (h : (l.filterMap f)[k]? = some b) :
    ∃ before i after, l = before ++ i :: after ∧ (before.filterMap f).length = k ∧
      f i = some b := by
  obtain ⟨hlt, rfl⟩ := List.getElem?_eq_some_iff.mp h
  have hcut : l.filterMap f = (l.filterMap f).take k ++
      (l.filterMap f)[k] :: (l.filterMap f).drop (k + 1) := by
    rw [← List.drop_eq_getElem_cons hlt, List.take_append_drop]
  obtain ⟨before, i, after, hl, hbefore, hi, -⟩ := filterMap_split hcut
  exact ⟨before, i, after, hl, by rw [hbefore, List.length_take_of_le hlt.le], hi⟩

/-- What `find` finds at the steps of a run, in order. -/
def collect (step : σ → ι → σ × ο) (find : σ → ι → Option β) : σ → List ι → List β
  | _, [] => []
  | s, i :: is => (find s i).toList ++ collect step find (step s i).1 is

theorem collect_append (step : σ → ι → σ × ο) (find : σ → ι → Option β) (s : σ)
    (is js : List ι) :
    collect step find s (is ++ js) =
      collect step find s is ++ collect step find (runs step s is).1 js := by
  induction is generalizing s with
  | nil => rfl
  | cons i is ih => simp [collect, ih]

theorem collect_concat (step : σ → ι → σ × ο) (find : σ → ι → Option β) (s : σ)
    (is : List ι) (i : ι) :
    collect step find s (is ++ [i]) =
      collect step find s is ++ (find (runs step s is).1 i).toList := by
  simp [collect_append, collect]

/-- Everything found was found by a step. -/
theorem collect_split {step : σ → ι → σ × ο} {find : σ → ι → Option β} {s : σ} {is : List ι}
    {before after : List β} {b : β} (h : collect step find s is = before ++ b :: after) :
    ∃ pre i post, is = pre ++ i :: post ∧ collect step find s pre = before ∧
      find (runs step s pre).1 i = some b := by
  induction is generalizing s before with
  | nil => cases before <;> cases h
  | cons i is ih =>
    cases hf : find s i with
    | none =>
      rw [collect, hf] at h
      obtain ⟨pre, j, post, rfl, hpre, hj⟩ := ih h
      refine ⟨i :: pre, j, post, rfl, ?_, hj⟩
      rw [collect, hf]
      exact hpre
    | some first =>
      rw [collect, hf] at h
      cases before with
      | nil =>
        obtain ⟨rfl, -⟩ := List.cons.inj h
        exact ⟨[], i, is, rfl, rfl, hf⟩
      | cons found before =>
        obtain ⟨rfl, hrest⟩ := List.cons.inj h
        obtain ⟨pre, j, post, rfl, hpre, hj⟩ := ih hrest
        refine ⟨i :: pre, j, post, rfl, ?_, hj⟩
        rw [collect, hf, hpre]
        rfl

/-- Feed the inputs one by one until a step fails. -/
def runExcept (step : σ → ι → Except ε (σ × ο)) : σ → List ι → Except ε (σ × List ο)
  | s, [] => .ok (s, [])
  | s, i :: is => do
    let r ← step s i
    let t ← runExcept step r.1 is
    return (t.1, r.2 :: t.2)

/-- A step that never fails runs like the total step it equals. -/
theorem runExcept_eq_runs {step : σ → ι → Except ε (σ × ο)} {next : σ → ι → σ × ο}
    (h : ∀ s i, step s i = .ok (next s i)) (s : σ) (is : List ι) :
    runExcept step s is = .ok (runs next s is) := by
  induction is generalizing s with
  | nil => rfl
  | cons i is ih => simp [runExcept, h, ih]; rfl

/-- Apply the actions one by one, as long as each is enabled. -/
def runActions (step : σ → ι → Option σ) : σ → List ι → Option σ
  | s, [] => some s
  | s, i :: is => (step s i).bind fun t => runActions step t is

/-- **Invariant rule.** What every action keeps holds of every state a run reaches. -/
theorem runActions_invariant {step : σ → ι → Option σ} {I : σ → Prop}
    (keep : ∀ s i t, step s i = some t → I s → I t) {s t : σ} {is : List ι}
    (h : runActions step s is = some t) (hs : I s) : I t := by
  induction is generalizing s with
  | nil =>
    obtain rfl := Option.some.inj h
    exact hs
  | cons i is ih =>
    obtain ⟨u, hu, ht⟩ := Option.bind_eq_some_iff.mp h
    exact ih ht (keep s i u hu hs)

/-- A prefix of two lists ends in the first or goes on in the second. -/
theorem part_of_append {part l₁ l₂ : List β} (h : part <+: l₁ ++ l₂) :
    part <+: l₁ ∨ ∃ more, more <+: l₂ ∧ part = l₁ ++ more := by
  obtain ⟨rest, hrest⟩ := h
  rcases List.append_eq_append_iff.mp hrest with ⟨more, rfl, -⟩ | ⟨more, rfl, rfl⟩
  · exact .inl (List.prefix_append ..)
  · exact .inr ⟨more, List.prefix_append .., rfl⟩

/-- A part of a list without the separator lies on one side of it. -/
theorem infix_around {part a b : List β} {sep : β} (h : part <:+: a ++ sep :: b)
    (hsep : sep ∉ part) : part <:+: a ∨ part <:+: b := by
  rcases List.infix_append_iff.mp h with ha | hb | ⟨left, right, rfl, hleft, hright⟩
  · exact .inl ha
  · rcases List.infix_cons_iff.mp hb with hstart | hb
    · rcases List.prefix_cons_iff.mp hstart with rfl | ⟨more, rfl, -⟩
      · exact .inl List.nil_infix
      · exact absurd List.mem_cons_self hsep
    · exact .inr hb
  · rcases List.prefix_cons_iff.mp hright with rfl | ⟨more, rfl, -⟩
    · rw [List.append_nil]
      exact .inl hleft.isInfix
    · exact absurd (List.mem_append_right _ List.mem_cons_self) hsep

/-- Before an element of a part of some blocks, the part has the blocks before its block. -/
theorem block_of_part {f : α → List β} {part : List β} {l : List α} (h : part <+: l.flatMap f)
    {b : β} (hb : b ∈ part) :
    ∃ pre a post, l = pre ++ a :: post ∧ b ∈ f a ∧ pre.flatMap f <+: part := by
  induction l generalizing part with
  | nil =>
    obtain rfl := List.prefix_nil.mp h
    cases hb
  | cons a l ih =>
    rw [List.flatMap_cons] at h
    have hfirst (hb : b ∈ f a) : ∃ pre a' post, a :: l = pre ++ a' :: post ∧ b ∈ f a' ∧
        pre.flatMap f <+: part := ⟨[], a, l, rfl, hb, List.nil_prefix⟩
    rcases part_of_append h with hpart | ⟨more, hmore, rfl⟩
    · exact hfirst (hpart.subset hb)
    · rcases List.mem_append.mp hb with hb | hb
      · exact hfirst hb
      · obtain ⟨pre, a', post, rfl, hb, hpre⟩ := ih hmore hb
        exact ⟨a :: pre, a', post, rfl, hb, (List.prefix_append_right_inj _).mpr hpre⟩

theorem getElem?_of_start {l l' : List β} (h : l <+: l') {i : Nat} {a : β}
    (hi : l[i]? = some a) : l'[i]? = some a := by
  obtain ⟨hlt, rfl⟩ := List.getElem?_eq_some_iff.mp hi
  exact List.prefix_iff_getElem?.mp h i hlt

end FeedMux.Library
