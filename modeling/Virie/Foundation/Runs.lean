import Mathlib

/-! # Runs of a system

A system starts in one of its initial states and processes events one after the
other. A run may be restricted to steps that meet a condition on the event and
the state before it; what holds at the start and is kept by every step holds in
every state reached. -/

namespace Foundation

/-- Initial states, and the state an event leads to. -/
structure System (ε σ : Type) where
  start : σ → Prop
  step : ε → σ → σ

namespace System

variable {ε σ : Type} {S : System ε σ} {allowed other : ε → σ → Prop} {state : σ}

/-- The states reached by runs whose steps all meet a condition. -/
inductive Reaches (S : System ε σ) (allowed : ε → σ → Prop) : σ → Prop
  | start {state : σ} (initial : S.start state) : Reaches S allowed state
  | step {state : σ} (before : Reaches S allowed state) (event : ε) (meets : allowed event state) :
      Reaches S allowed (S.step event state)

/-- The states reached by any run. -/
def Reachable (S : System ε σ) (state : σ) : Prop := S.Reaches (fun _ _ => True) state

theorem Reaches.reachable (reached : S.Reaches allowed state) : S.Reachable state := by
  induction reached with
  | start initial => exact .start initial
  | step _ event _ ih => exact .step ih event trivial

/-- A property of the initial states that the steps from reached states keep. -/
theorem Reaches.invariant {invariant : σ → Prop} (reached : S.Reaches allowed state)
    (initial : ∀ state, S.start state → invariant state)
    (keeps : ∀ event state, S.Reaches allowed state → allowed event state → invariant state →
      invariant (S.step event state)) :
    invariant state := by
  induction reached with
  | start first => exact initial _ first
  | step before event meets ih => exact keeps event _ before meets ih

theorem Reachable.invariant {invariant : σ → Prop} (reached : S.Reachable state)
    (initial : ∀ state, S.start state → invariant state)
    (keeps : ∀ event state, invariant state → invariant (S.step event state)) :
    invariant state :=
  Reaches.invariant reached initial fun event state _ _ holds => keeps event state holds

/-- The state after events in turn. -/
def after (S : System ε σ) (state : σ) (events : List ε) : σ :=
  events.foldl (fun state event => S.step event state) state

theorem Reachable.after (reached : S.Reachable state) (events : List ε) :
    S.Reachable (S.after state events) := by
  induction events generalizing state with
  | nil => exact reached
  | cons event rest ih => exact ih (.step reached event trivial)

/-- Every step of a sequence of events meets a condition. -/
def Meets (S : System ε σ) (allowed : ε → σ → Prop) : σ → List ε → Prop
  | _, [] => True
  | state, event :: rest => allowed event state ∧ S.Meets allowed (S.step event state) rest

/-- Events that always meet a condition meet it one after the other. -/
theorem meets_of_forall {events : List ε} (all : ∀ event ∈ events, ∀ state, allowed event state) :
    S.Meets allowed state events := by
  induction events generalizing state with
  | nil => trivial
  | cons event rest ih =>
    exact ⟨all event (.head _) state, ih fun other member => all other (.tail _ member)⟩

theorem Reaches.after (reached : S.Reaches allowed state) {events : List ε}
    (meets : S.Meets allowed state events) : S.Reaches allowed (S.after state events) := by
  induction events generalizing state with
  | nil => exact reached
  | cons event rest ih => exact ih (.step reached event meets.1) meets.2

theorem meets_append {first second : List ε} :
    S.Meets allowed state (first ++ second) ↔
      S.Meets allowed state first ∧ S.Meets allowed (S.after state first) second := by
  induction first generalizing state with
  | nil => exact ⟨fun meets => ⟨trivial, meets⟩, fun meets => meets.2⟩
  | cons event rest ih =>
    rw [List.cons_append, Meets, Meets, ih, and_assoc]
    rfl

theorem after_append (S : System ε σ) (state : σ) (first second : List ε) :
    S.after state (first ++ second) = S.after (S.after state first) second :=
  List.foldl_append

end System
end Foundation
