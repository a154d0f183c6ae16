import FeedMux.Library.Broadcast
import FeedMux.Library.Run

/-!
# Local relays (`src/triton_local.rs`, `src/titan_local.rs`)

Both relays are a connection flag and a broadcast channel, written by one
upstream task. Each store and each send is a step of its own, interleaved with
the steps of a client. Whatever the client does, the log followed by the sends
still to come is the upstream task's sequence of events (`sends_kept`).
-/

namespace FeedMux
open FeedMux.Library FeedMux.Library.Broadcast

inductive LocalEvent (μ : Type) where
  | message (message : μ)
  | upstreamConnected (up : Bool)
  deriving DecidableEq, Repr

structure LocalRelay (μ : Type) where
  upstreamConnected : Bool := false
  log : List (LocalEvent μ) := []
  deriving DecidableEq, Repr

/-- A step of the upstream task on the relay. -/
inductive RelayStep (μ : Type) where
  | store (up : Bool)
  | send (event : LocalEvent μ)
  deriving DecidableEq, Repr

variable {μ κ α : Type}

namespace RelayStep

def apply (relay : LocalRelay μ) : RelayStep μ → LocalRelay μ
  | .store up => { relay with upstreamConnected := up }
  | .send event => { relay with log := relay.log ++ [event] }

def event? : RelayStep μ → Option (LocalEvent μ)
  | .store _ => none
  | .send event => some event

end RelayStep

def sends (steps : List (RelayStep μ)) : List (LocalEvent μ) := steps.filterMap RelayStep.event?

@[simp] theorem sends_nil : sends ([] : List (RelayStep μ)) = [] := rfl

@[simp] theorem sends_store (up : Bool) (steps : List (RelayStep μ)) :
    sends (.store up :: steps) = sends steps := rfl

@[simp] theorem sends_send (event : LocalEvent μ) (steps : List (RelayStep μ)) :
    sends (.send event :: steps) = event :: sends steps := rfl

@[simp] theorem sends_append (steps steps' : List (RelayStep μ)) :
    sends (steps ++ steps') = sends steps ++ sends steps' := List.filterMap_append

theorem mem_sends {event : LocalEvent μ} {steps : List (RelayStep μ)} :
    event ∈ sends steps ↔ .send event ∈ steps := by
  rw [sends, List.mem_filterMap]
  constructor
  · rintro ⟨relayStep, hm, he⟩
    cases relayStep with
    | store up => cases he
    | send event' =>
      obtain rfl := Option.some.inj he
      exact hm
  · exact fun h => ⟨_, h, rfl⟩

namespace LocalRelay

def publish (message : μ) : List (RelayStep μ) := [.send (.message message)]

def setUpstreamConnected (up : Bool) : List (RelayStep μ) :=
  [.store up, .send (.upstreamConnected up)]

end LocalRelay

/-- A relay, what its upstream task still has to do, and a client. -/
structure RelaySystem (μ κ : Type) where
  relay : LocalRelay μ
  upstream : List (RelayStep μ)
  client : κ
  deriving DecidableEq

inductive RelayAction (α : Type) where
  | upstream
  | client (action : α)
  deriving DecidableEq, Repr

namespace RelaySystem

def start (client : κ) (upstream : List (RelayStep μ)) : RelaySystem μ κ := ⟨{}, upstream, client⟩

/-- One step of either side. A client step reads the relay and changes the client. -/
def step (clientStep : LocalRelay μ → κ → α → Option κ) (s : RelaySystem μ κ) :
    RelayAction α → Option (RelaySystem μ κ)
  | .upstream =>
    match s.upstream with
    | [] => none
    | relayStep :: rest => some { s with relay := relayStep.apply s.relay, upstream := rest }
  | .client action =>
    (clientStep s.relay s.client action).map fun client => { s with client }

variable {clientStep : LocalRelay μ → κ → α → Option κ} {s t : RelaySystem μ κ}

theorem step_cases {a : RelayAction α} (h : s.step clientStep a = some t) :
    (∃ relayStep rest, s.upstream = relayStep :: rest ∧
      t = { s with relay := relayStep.apply s.relay, upstream := rest }) ∨
      ∃ action client, clientStep s.relay s.client action = some client ∧
        t = { s with client } := by
  cases a with
  | upstream =>
    cases hup : s.upstream with
    | nil => simp [step, hup] at h
    | cons relayStep rest =>
      simp only [step, hup, Option.some.injEq] at h
      exact .inl ⟨relayStep, rest, rfl, h.symm⟩
  | client action =>
    obtain ⟨client, hc, rfl⟩ := Option.map_eq_some_iff.mp h
    exact .inr ⟨action, client, hc, rfl⟩

theorem sends_kept {actions : List (RelayAction α)}
    (h : runActions (step clientStep) s actions = some t) :
    t.relay.log ++ sends t.upstream = s.relay.log ++ sends s.upstream := by
  refine runActions_invariant (I := fun t =>
    t.relay.log ++ sends t.upstream = s.relay.log ++ sends s.upstream) ?_ h rfl
  intro u a v hstep hu
  rcases step_cases hstep with ⟨relayStep, rest, hup, rfl⟩ | ⟨_, _, _, rfl⟩
  · rw [← hu, hup]
    cases relayStep <;> simp [RelayStep.apply]
  · exact hu

end RelaySystem

/-- A receiver follows the channel through a step of the upstream task. -/
theorem RelayStep.follows {capacity : Nat} {relay : LocalRelay μ}
    {r : Receiver (LocalEvent μ)} (h : r.Follows capacity relay.log) (relayStep : RelayStep μ) :
    r.Follows capacity (relayStep.apply relay).log := by
  cases relayStep with
  | store up => exact h
  | send event => exact h.send event

end FeedMux
