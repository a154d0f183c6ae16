import Mathlib

/-!
# A broadcast channel with a bounded backlog

The log holds every event sent. A receiver gets the events sent after it
subscribed, in order; when more than the capacity is pending, the oldest are
skipped. A receiver that has drained the channel has received the last event
sent since it subscribed, whatever it skipped before (`Follows.saw_last`).
-/

namespace FeedMux.Library.Broadcast

variable {α : Type*}

/-- The next position to read, and the events received, with their positions. -/
structure Receiver (α : Type*) where
  joined : Nat
  cursor : Nat
  received : List (Nat × α)
  deriving DecidableEq, Repr

/-- A new receiver sees what is sent from now on. -/
def subscribe (log : List α) : Receiver α := ⟨log.length, log.length, []⟩

namespace Receiver

/-- One receive: a notice that events were skipped, or the next event. Nothing
happens on a drained channel. -/
def recv (capacity : Nat) (log : List α) (r : Receiver α) : Option (Receiver α) :=
  if r.cursor + capacity < log.length then some { r with cursor := log.length - capacity }
  else log[r.cursor]?.map fun e =>
    { r with cursor := r.cursor + 1, received := r.received ++ [(r.cursor, e)] }

/-- What a receive returns: the number of events it skipped, or the next event. -/
inductive Received (α : Type*) where
  | lagged (skipped : Nat)
  | event (e : α)
  deriving DecidableEq, Repr

def next (capacity : Nat) (log : List α) (r : Receiver α) : Option (Received α) :=
  if r.cursor + capacity < log.length then some (.lagged (log.length - capacity - r.cursor))
  else log[r.cursor]?.map .event

theorem recv_lagged {capacity : Nat} {log : List α} {r : Receiver α} {skipped : Nat}
    (h : r.next capacity log = some (.lagged skipped)) :
    r.recv capacity log = some { r with cursor := r.cursor + skipped } := by
  unfold next at h
  unfold recv
  split at h
  · rename_i hlag
    obtain rfl := Received.lagged.inj (Option.some.inj h)
    rw [if_pos hlag, show r.cursor + (log.length - capacity - r.cursor) =
      log.length - capacity by omega]
  · obtain ⟨_, _, he⟩ := Option.map_eq_some_iff.mp h
    cases he

theorem recv_event {capacity : Nat} {log : List α} {r : Receiver α} {e : α}
    (h : r.next capacity log = some (.event e)) :
    r.recv capacity log =
      some { r with cursor := r.cursor + 1, received := r.received ++ [(r.cursor, e)] } := by
  unfold next at h
  unfold recv
  split at h
  · cases h
  · rename_i hkept
    obtain ⟨_, he, heq⟩ := Option.map_eq_some_iff.mp h
    obtain rfl := Received.event.inj heq
    rw [if_neg hkept, he]
    rfl

theorem recv_joined {capacity : Nat} {log : List α} {r r' : Receiver α}
    (h : r.recv capacity log = some r') : r'.joined = r.joined := by
  unfold recv at h
  split at h
  · obtain rfl := Option.some.inj h
    rfl
  · obtain ⟨_, _, rfl⟩ := Option.map_eq_some_iff.mp h
    rfl

def Drained (log : List α) (r : Receiver α) : Prop := r.cursor = log.length

/-- The position was passed over by a lag. -/
def Skipped (r : Receiver α) (i : Nat) : Prop :=
  r.joined ≤ i ∧ i < r.cursor ∧ i ∉ r.received.map Prod.fst

/-- The events sent since the receiver joined, up to where it reads next. -/
def passed (log : List α) (r : Receiver α) : List α := (log.take r.cursor).drop r.joined

/-- What holds of a receiver of this log. -/
structure Follows (capacity : Nat) (log : List α) (r : Receiver α) : Prop where
  joined_le : r.joined ≤ r.cursor
  cursor_le : r.cursor ≤ log.length
  inOrder : (r.received.map Prod.fst).Pairwise (· < ·)
  bounds : ∀ p ∈ r.received, r.joined ≤ p.1 ∧ p.1 < r.cursor
  genuine : ∀ p ∈ r.received, log[p.1]? = some p.2
  behind : r.cursor = r.joined ∨ (∃ p ∈ r.received, p.1 + 1 = r.cursor) ∨
    r.cursor + capacity ≤ log.length

theorem subscribe_follows (capacity : Nat) (log : List α) :
    Follows capacity log (subscribe log) :=
  ⟨le_refl _, le_refl _, .nil, by simp [subscribe], by simp [subscribe], .inl rfl⟩

namespace Follows
variable {capacity : Nat} {log : List α} {r r' : Receiver α}

/-- Sending leaves every receiver as it is. -/
theorem send (h : Follows capacity log r) (e : α) : Follows capacity (log ++ [e]) r where
  joined_le := h.joined_le
  cursor_le := by
    have := h.cursor_le
    simp only [List.length_append]
    omega
  inOrder := h.inOrder
  bounds := h.bounds
  genuine p hp := by
    have hlt := (List.getElem?_eq_some_iff.mp (h.genuine p hp)).1
    rw [List.getElem?_append_left hlt]
    exact h.genuine p hp
  behind := by
    rcases h.behind with hb | hb | hb
    · exact .inl hb
    · exact .inr (.inl hb)
    · refine .inr (.inr ?_)
      simp only [List.length_append]
      omega

theorem recv (h : Follows capacity log r) (hr : r.recv capacity log = some r') :
    Follows capacity log r' := by
  unfold Receiver.recv at hr
  split at hr
  · obtain rfl := Option.some.inj hr
    have hj := h.joined_le
    refine ⟨by simp only; omega, by simp only; omega, h.inOrder, ?_, h.genuine,
      .inr (.inr (by simp only; omega))⟩
    intro p hp
    obtain ⟨hjoined, hcursor⟩ := h.bounds p hp
    exact ⟨hjoined, by simp only; omega⟩
  · obtain ⟨e, he, rfl⟩ := Option.map_eq_some_iff.mp hr
    have hlt := (List.getElem?_eq_some_iff.mp he).1
    have hj := h.joined_le
    refine ⟨by simp only; omega, hlt, ?_, ?_, ?_, .inr (.inl ⟨(r.cursor, e), by simp, rfl⟩)⟩
    · rw [List.map_append, List.pairwise_append]
      refine ⟨h.inOrder, by simp, ?_⟩
      intro i hi j hj
      obtain ⟨p, hp, rfl⟩ := List.mem_map.mp hi
      simp only [List.map_cons, List.map_nil, List.mem_singleton] at hj
      rw [hj]
      exact (h.bounds p hp).2
    · intro p hp
      rcases List.mem_append.mp hp with hp | hp
      · have := h.bounds p hp
        exact ⟨this.1, by simp only; omega⟩
      · rw [List.mem_singleton.mp hp]
        exact ⟨hj, Nat.lt_succ_self _⟩
    · intro p hp
      rcases List.mem_append.mp hp with hp | hp
      · exact h.genuine p hp
      · rw [List.mem_singleton.mp hp]
        exact he

/-- **Drained receivers.** The last event sent since joining was received. -/
theorem saw_last (h : Follows capacity log r) (hc : 0 < capacity) (hd : r.Drained log)
    (hj : r.joined < log.length) : ∃ e, log.getLast? = some e ∧ ∃ i, (i, e) ∈ r.received := by
  unfold Drained at hd
  rcases h.behind with hb | ⟨⟨i, e⟩, hp, hb⟩ | hb
  · omega
  · refine ⟨e, ?_, i, hp⟩
    have he := h.genuine _ hp
    simp only at hb he
    rw [List.getLast?_eq_getElem?, show log.length - 1 = i by omega]
    exact he
  · omega

/-- A received event was sent after the receiver joined. -/
theorem mem_drop (h : Follows capacity log r) {i : Nat} {e : α} (hp : (i, e) ∈ r.received) :
    e ∈ log.drop r.joined := by
  have hb := (h.bounds _ hp).1
  have he := h.genuine _ hp
  simp only at hb he
  refine List.mem_of_getElem? (i := i - r.joined) ?_
  rw [List.getElem?_drop, Nat.add_sub_cancel' hb]
  exact he

/-! ### What was received as a part of the log -/

theorem filterMap_range' (log : List α) (start count : Nat) :
    (List.range' start count).filterMap (fun i => log[i]?) = (log.drop start).take count := by
  induction count generalizing start with
  | zero => simp
  | succ count ih =>
    rw [List.range'_succ, List.filterMap_cons, ih]
    by_cases hlt : start < log.length
    · rw [List.getElem?_eq_getElem hlt, List.drop_eq_getElem_cons hlt, List.take_succ_cons]
    · simp [List.getElem?_eq_none (Nat.le_of_not_lt hlt),
        List.drop_eq_nil_of_le (Nat.le_of_not_lt hlt),
        List.drop_eq_nil_of_le (Nat.le_succ_of_le (Nat.le_of_not_lt hlt))]

theorem passed_eq (log : List α) (r : Receiver α) : r.passed log =
    (List.range' r.joined (r.cursor - r.joined)).filterMap fun i => log[i]? := by
  rw [filterMap_range', passed, List.drop_take]

/-- What is sent later makes no difference. -/
theorem passed_of_prefix (h : Follows capacity log r) {more : List α} (hp : log <+: more) :
    r.passed more = r.passed log := by
  obtain ⟨rest, rfl⟩ := hp
  rw [passed, passed, List.take_append_of_le_length h.cursor_le]

theorem length_passed (h : Follows capacity log r) :
    (r.passed log).length = r.cursor - r.joined := by
  rw [passed, List.length_drop, List.length_take, Nat.min_eq_left h.cursor_le]

theorem received_eq (h : Follows capacity log r) :
    r.received.map Prod.snd = (r.received.map Prod.fst).filterMap fun i => log[i]? := by
  rw [List.filterMap_map, ← List.filterMap_eq_map]
  refine List.filterMap_congr fun p hp => ?_
  exact (h.genuine p hp).symm

theorem positions_sorted (start count : Nat) : (List.range' start count).Pairwise (· < ·) :=
  List.pairwise_lt_range'

/-- **Order.** The events received are some of those passed, in their order and
each at most once. -/
theorem received_sublist (h : Follows capacity log r) :
    (r.received.map Prod.snd).Sublist (r.passed log) := by
  rw [h.received_eq, passed_eq]
  refine List.Sublist.filterMap _ (List.sublist_of_subperm_of_pairwise ?_ h.inOrder
    (positions_sorted ..))
  refine List.subperm_of_subset h.inOrder.nodup fun i hi => ?_
  obtain ⟨p, hp, rfl⟩ := List.mem_map.mp hi
  have hb := h.bounds p hp
  rw [List.mem_range'_1]
  omega

/-- **Completeness.** A receiver that skipped nothing received all that it passed. -/
theorem received_all (h : Follows capacity log r) (hs : ∀ i, ¬ r.Skipped i) :
    r.received.map Prod.snd = r.passed log := by
  rw [h.received_eq, passed_eq]
  congr 1
  refine h.inOrder.eq_of_mem_iff (positions_sorted ..) fun i => ?_
  rw [List.mem_range'_1]
  constructor
  · intro hi
    obtain ⟨p, hp, rfl⟩ := List.mem_map.mp hi
    have hb := h.bounds p hp
    omega
  · intro hi
    by_contra hno
    exact hs i ⟨hi.1, by omega, hno⟩

end Follows
end Receiver
end FeedMux.Library.Broadcast
