/-
Refinement between two services that take the same calls.  When one step gives
related answers and keeps the states related, so does a whole run.
-/
import Mathlib.Data.List.Forall2

namespace Simulation

universe u v w x y

variable {S : Type u} {S' : Type v} {C : Type w} {A : Type x} {A' : Type y}

/-- The answers of a run, in the order of the calls, and where it ends. -/
def answers (step : S → C → A × S) : S → List C → List A × S
  | state, [] => ([], state)
  | state, call :: rest =>
      ((step state call).1 :: (answers step (step state call).2 rest).1,
        (answers step (step state call).2 rest).2)

/-- In related states the calls that satisfy `Allowed` are answered alike and
lead to related states. -/
structure Refines (step : S → C → A × S) (step' : S' → C → A' × S')
    (Related : S → S' → Prop) (Alike : A → A' → Prop) (Allowed : C → Prop) :
    Prop where
  answer : ∀ {state state' call}, Related state state' → Allowed call →
    Alike (step state call).1 (step' state' call).1
  next : ∀ {state state' call}, Related state state' → Allowed call →
    Related (step state call).2 (step' state' call).2

variable {step : S → C → A × S} {step' : S' → C → A' × S'}
  {Related : S → S' → Prop} {Alike : A → A' → Prop} {Allowed : C → Prop}

/-- The run lemma. -/
theorem Refines.answers (hrefines : Refines step step' Related Alike Allowed)
    {calls : List C} (hallowed : ∀ call ∈ calls, Allowed call) {state : S}
    {state' : S'} (hstart : Related state state') :
    List.Forall₂ Alike (Simulation.answers step state calls).1
        (Simulation.answers step' state' calls).1 ∧
      Related (Simulation.answers step state calls).2
        (Simulation.answers step' state' calls).2 := by
  induction calls generalizing state state' with
  | nil => exact ⟨List.Forall₂.nil, hstart⟩
  | cons call rest ih =>
      have hcall := hallowed call List.mem_cons_self
      obtain ⟨hlater, hlast⟩ := ih
        (fun other hother => hallowed other (List.mem_cons_of_mem call hother))
        (hrefines.next hstart hcall)
      exact ⟨List.Forall₂.cons (hrefines.answer hstart hcall) hlater, hlast⟩

end Simulation
