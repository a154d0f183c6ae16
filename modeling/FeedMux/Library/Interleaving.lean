import FeedMux.Library.KeyValue

/-!
# Interleavings of tasks

`Interleaves` admits every schedule of several tasks that keeps each task's own
order. If no key is used by two tasks, all schedules of their commands leave
the same store (`exec_interleaving`).
-/

namespace FeedMux.Library

variable {τ α : Type*}

/-- The tasks one after another. -/
def oneByOne (order : List τ) (tasks : τ → List α) : List (τ × α) :=
  order.flatMap fun i => (tasks i).map fun a => (i, a)

theorem oneByOne_steps (order : List τ) (tasks : τ → List α) :
    (oneByOne order tasks).map Prod.snd = order.flatMap tasks := by
  induction order with
  | nil => rfl
  | cons i order ih =>
    unfold oneByOne at ih ⊢
    rw [List.flatMap_cons, List.map_append, ih, List.flatMap_cons, List.map_map]
    congr 1
    exact List.map_id _

variable [DecidableEq τ]

/-- A schedule of tagged steps that keeps every task's own order. -/
def Interleaves (tasks : τ → List α) (trace : List (τ × α)) : Prop :=
  ∀ i, (trace.filter fun e => e.1 = i).map Prod.snd = tasks i

namespace Interleaves
variable {tasks : τ → List α} {trace : List (τ × α)}

theorem mem (h : Interleaves tasks trace) {e : τ × α} (he : e ∈ trace) : e.2 ∈ tasks e.1 := by
  rw [← h e.1]
  refine List.mem_map_of_mem (List.mem_filter.mpr ⟨he, ?_⟩)
  simp

/-- Steps that only one task can take come in that task's order. -/
theorem filter_own (h : Interleaves tasks trace) {p : α → Bool} {i : τ}
    (hp : ∀ j, j ≠ i → ∀ a ∈ tasks j, p a = false) :
    (trace.map Prod.snd).filter p = (tasks i).filter p := by
  rw [← h i, List.filter_map, List.filter_map, List.filter_filter]
  congr 1
  apply List.filter_congr
  intro e he
  by_cases hi : e.1 = i
  · simp [hi]
  · have hf := hp e.1 hi e.2 (h.mem he)
    simp [hf]

end Interleaves

theorem oneByOne_own (order : List τ) (tasks : τ → List α) (hd : order.Nodup) (i : τ) :
    ((oneByOne order tasks).filter fun e => e.1 = i).map Prod.snd =
      if i ∈ order then tasks i else [] := by
  induction order with
  | nil => rfl
  | cons j order ih =>
    obtain ⟨hj, hd⟩ := List.nodup_cons.mp hd
    have ih := ih hd
    unfold oneByOne at ih ⊢
    rw [List.flatMap_cons, List.filter_append, List.map_append, ih, List.filter_map]
    by_cases hi : j = i
    · subst hi
      have hall : (tasks j).filter ((fun e : τ × α => decide (e.1 = j)) ∘ fun a => (j, a)) =
          tasks j := List.filter_eq_self.mpr fun _ _ => by simp
      rw [hall, List.map_map, if_neg hj, if_pos List.mem_cons_self, List.append_nil]
      exact List.map_id _
    · have hnone : (tasks j).filter ((fun e : τ × α => decide (e.1 = i)) ∘ fun a => (j, a)) =
          [] := List.filter_eq_nil_iff.mpr fun _ _ => by simp [hi]
      rw [hnone]
      simp [Ne.symm hi]

/-- Running the tasks one after another, in any order, is an interleaving. -/
theorem oneByOne_interleaves {order : List τ} (tasks : τ → List α) (hd : order.Nodup)
    (hall : ∀ i, i ∈ order) : Interleaves tasks (oneByOne order tasks) := by
  intro i
  rw [oneByOne_own order tasks hd, if_pos (hall i)]

namespace KeyValue
variable {κ δ : Type*} [DecidableEq κ]

/-- **Locality.** A key depends on its own entry and its own commands only. -/
theorem exec_filter {k : κ} {st st' : Store κ δ} (cs : List (Cmd κ δ)) (h : st k = st' k) :
    exec st cs k = exec st' (cs.filter fun c => c.key = k) k := by
  induction cs generalizing st st' with
  | nil => exact h
  | cons c cs ih =>
    rw [exec_cons, List.filter_cons]
    by_cases hk : c.key = k
    · subst hk
      simp only [decide_true, ↓reduceIte, exec_cons]
      apply ih
      rw [Cmd.exec_own, Cmd.exec_own, h]
    · simp only [hk, decide_false, Bool.false_eq_true, ↓reduceIte]
      apply ih
      rw [Cmd.exec_frame hk, h]

/-- **Non-interference.** If no key is used by two tasks, every schedule of the
tasks leaves the same store. -/
theorem exec_interleaving {tasks : τ → List (Cmd κ δ)} {trace trace' : List (τ × Cmd κ δ)}
    (hown : ∀ i j, i ≠ j → ∀ c ∈ tasks i, ∀ d ∈ tasks j, c.key ≠ d.key)
    (h : Interleaves tasks trace) (h' : Interleaves tasks trace') (st : Store κ δ) :
    exec st (trace.map Prod.snd) = exec st (trace'.map Prod.snd) := by
  funext k
  rw [exec_filter (trace.map Prod.snd) rfl, exec_filter (trace'.map Prod.snd) rfl]
  by_cases hk : ∃ i, ∃ c ∈ tasks i, c.key = k
  · obtain ⟨i, c, hc, rfl⟩ := hk
    have hother : ∀ j, j ≠ i → ∀ d ∈ tasks j, decide (d.key = c.key) = false := by
      intro j hj d hd
      simpa using hown j i hj d hd c hc
    rw [h.filter_own hother, h'.filter_own hother]
  · have hnone : ∀ t : List (τ × Cmd κ δ), Interleaves tasks t →
        (t.map Prod.snd).filter (fun c => c.key = k) = [] := by
      intro t ht
      rw [List.filter_eq_nil_iff]
      intro c hc
      obtain ⟨e, he, rfl⟩ := List.mem_map.mp hc
      simpa using fun hek => hk ⟨e.1, e.2, ht.mem he, hek⟩
    rw [hnone trace h, hnone trace' h']

end KeyValue
end FeedMux.Library
