/-
Weakest preconditions of computations that use a state and may stop early.
`wp m s stop post` says that `m`, started in `s`, ends with a value and a state
that satisfy `post`, or stops with an exception and a state that satisfy `stop`.
-/
import Mathlib.Logic.Basic

namespace WeakestPre

universe u

variable {S E A B : Type u}

def wp (m : ExceptT E (StateM S) A) (s : S) (stop : E → S → Prop)
    (post : A → S → Prop) : Prop :=
  match m s with
  | (.ok a, after) => post a after
  | (.error e, after) => stop e after

variable {s after : S} {stop : E → S → Prop}

theorem wp_of_ok {m : ExceptT E (StateM S) A} {a : A} {post : A → S → Prop}
    (hm : m s = (.ok a, after)) : wp m s stop post ↔ post a after := by
  rw [wp, hm]

theorem wp_of_error {m : ExceptT E (StateM S) A} {e : E} {post : A → S → Prop}
    (hm : m s = (.error e, after)) : wp m s stop post ↔ stop e after := by
  rw [wp, hm]

@[simp]
theorem wp_pure (a : A) (post : A → S → Prop) :
    wp (pure a : ExceptT E (StateM S) A) s stop post ↔ post a s :=
  Iff.rfl

@[simp]
theorem wp_throw (e : E) (post : A → S → Prop) :
    wp (throw e : ExceptT E (StateM S) A) s stop post ↔ stop e s :=
  Iff.rfl

@[simp]
theorem wp_bind (m : ExceptT E (StateM S) A) (f : A → ExceptT E (StateM S) B)
    (post : B → S → Prop) :
    wp (m >>= f) s stop post ↔
      wp m s stop fun a middle => wp (f a) middle stop post := by
  cases hm : m s with
  | mk result middle =>
      have hrun : (m >>= f) s = ExceptT.bindCont f result middle := by
        simp only [bind, ExceptT.bind, ExceptT.mk, StateT.bind, hm]
      cases result with
      | ok a =>
          rw [wp_of_ok hm, wp, hrun]
          rfl
      | error e =>
          rw [wp_of_error hm, wp, hrun]
          rfl

end WeakestPre
