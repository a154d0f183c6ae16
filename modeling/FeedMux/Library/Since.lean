import Mathlib

/-!
# What has happened since

`Since P Q h` says that an event of the history `h` is a `P` and that no later
one is a `Q`. A flag that every `P` raises, every other `Q` lowers and nothing
else touches is up exactly then (`foldl_since`). `OnlyWhile R P Q h` says that
every `R` comes while that holds; it may raise the flag again (`since_or`).
-/

namespace FeedMux.Library

variable {α σ : Type*} {P Q R : α → Prop}

def Since (P Q : α → Prop) (h : List α) : Prop :=
  ∃ pre e post, h = pre ++ e :: post ∧ P e ∧ ∀ later ∈ post, ¬ Q later

theorem not_since_nil : ¬ Since P Q [] := by
  rintro ⟨pre, e, post, h, -⟩
  simp at h

theorem since_concat (h : List α) (e : α) :
    Since P Q (h ++ [e]) ↔ P e ∨ ¬ Q e ∧ Since P Q h := by
  constructor
  · rintro ⟨pre, e', post, hsplit, hp, hq⟩
    rcases List.eq_nil_or_concat post with rfl | ⟨post, last, rfl⟩
    · obtain ⟨-, he⟩ := List.append_inj' hsplit rfl
      rw [List.singleton_inj] at he
      exact .inl (he ▸ hp)
    · rw [List.concat_eq_append, ← List.cons_append, ← List.append_assoc] at hsplit
      obtain ⟨rfl, he⟩ := List.append_inj' hsplit rfl
      obtain rfl := List.singleton_inj.mp he
      refine .inr ⟨hq e (by simp), pre, e', post, rfl, hp, ?_⟩
      intro later hl
      exact hq later (by simp [hl])
  · rintro (hp | ⟨hq, pre, e', post, rfl, hp, hpost⟩)
    · exact ⟨h, e, [], rfl, hp, by simp⟩
    · refine ⟨pre, e', post ++ [e], by simp, hp, ?_⟩
      intro later hl
      rcases List.mem_append.mp hl with hl | hl
      · exact hpost later hl
      · rwa [List.mem_singleton.mp hl]

/-- Events that are no `P` can only end it. -/
theorem since_append {more : List α} (hm : ∀ e ∈ more, ¬ P e) (h : List α) :
    Since P Q (h ++ more) ↔ (∀ e ∈ more, ¬ Q e) ∧ Since P Q h := by
  induction more using List.reverseRecOn with
  | nil => simp
  | append_singleton more e ih =>
    have hp : ¬ P e := hm e (by simp)
    rw [← List.append_assoc, since_concat, ih fun e' he => hm e' (List.mem_append_left _ he)]
    simp only [hp, false_or, List.mem_append, List.mem_singleton, or_imp, forall_and, forall_eq]
    tauto

/-- **Flag rule.** -/
theorem foldl_since {step : σ → α → σ} {F : σ → Prop} {s : σ}
    (up : ∀ s e, P e → F (step s e)) (down : ∀ s e, ¬ P e → Q e → ¬ F (step s e))
    (keep : ∀ s e, ¬ P e → ¬ Q e → (F (step s e) ↔ F s)) (start : ¬ F s) (h : List α) :
    F (h.foldl step s) ↔ Since P Q h := by
  induction h using List.reverseRecOn with
  | nil => simp [start, not_since_nil]
  | append_singleton h e ih =>
    rw [List.foldl_append, List.foldl_cons, List.foldl_nil, since_concat]
    by_cases hp : P e
    · simp [up _ e hp, hp]
    · by_cases hq : Q e
      · simp [down _ e hp hq, hp, hq]
      · simp [keep _ e hp hq, hp, hq, ih]

/-! ## Events that come only while it holds -/

def OnlyWhile (R P Q : α → Prop) (h : List α) : Prop :=
  ∀ pre e post, h = pre ++ e :: post → R e → Since P Q pre

theorem onlyWhile_nil : OnlyWhile R P Q [] := by
  intro pre e post h
  simp at h

theorem OnlyWhile.restrict {h h' : List α} (hw : OnlyWhile R P Q h') (hp : h <+: h') :
    OnlyWhile R P Q h := by
  obtain ⟨more, rfl⟩ := hp
  rintro pre e post rfl hr
  exact hw pre e (post ++ more) (by simp) hr

theorem onlyWhile_concat {h : List α} {e : α} (hw : OnlyWhile R P Q h)
    (hr : R e → Since P Q h) : OnlyWhile R P Q (h ++ [e]) := by
  intro pre e' post hsplit he'
  rcases List.eq_nil_or_concat post with rfl | ⟨post, last, rfl⟩
  · obtain ⟨rfl, he⟩ := List.append_inj' hsplit rfl
    obtain rfl := List.singleton_inj.mp he
    exact hr he'
  · rw [List.concat_eq_append, ← List.cons_append, ← List.append_assoc] at hsplit
    obtain ⟨rfl, -⟩ := List.append_inj' hsplit rfl
    exact hw pre e' post rfl he'

theorem OnlyWhile.append_of_none {h more : List α} (hw : OnlyWhile R P Q h)
    (hm : ∀ e ∈ more, ¬ R e) : OnlyWhile R P Q (h ++ more) := by
  induction more using List.reverseRecOn with
  | nil => rwa [List.append_nil]
  | append_singleton more e ih =>
    rw [← List.append_assoc]
    refine onlyWhile_concat (ih fun e' he => hm e' (List.mem_append_left _ he)) ?_
    intro hr
    exact absurd hr (hm e (by simp))

theorem OnlyWhile.append_of_since {h more : List α} (hw : OnlyWhile R P Q h)
    (hs : Since P Q h) (hm : ∀ e ∈ more, ¬ P e ∧ ¬ Q e) : OnlyWhile R P Q (h ++ more) := by
  induction more using List.reverseRecOn with
  | nil => rwa [List.append_nil]
  | append_singleton more e ih =>
    have hmore : ∀ e' ∈ more, ¬ P e' ∧ ¬ Q e' := fun e' he => hm e' (List.mem_append_left _ he)
    rw [← List.append_assoc]
    refine onlyWhile_concat (ih hmore) ?_
    intro _
    exact (since_append (fun e' he => (hmore e' he).1) h).mpr ⟨fun e' he => (hmore e' he).2, hs⟩

/-- **Raising again.** What comes only while it holds does not change when it holds. -/
theorem since_or (hd : ∀ e, R e → ¬ Q e) {h : List α} (hw : OnlyWhile R P Q h) :
    Since (fun e => P e ∨ R e) Q h ↔ Since P Q h := by
  induction h using List.reverseRecOn with
  | nil => simp [not_since_nil]
  | append_singleton h e ih =>
    rw [since_concat, since_concat, ih (hw.restrict (List.prefix_append ..))]
    constructor
    · rintro ((hp | hr) | hs)
      · exact .inl hp
      · exact .inr ⟨hd e hr, hw h e [] rfl hr⟩
      · exact .inr hs
    · rintro (hp | hs)
      · exact .inl (.inl hp)
      · exact .inr hs

end FeedMux.Library
