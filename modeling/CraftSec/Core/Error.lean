/-
The error type of the workspace and the three ways a call ends.  Rust's
`Result` distinguishes a value from an error; indexing, `unwrap` and checked
arithmetic add the panic, which no caller of these crates catches.
-/
import Mathlib.Data.List.Basic

namespace CraftSec

universe u v

/-- `CraftSecError` with the data each variant carries. -/
inductive CraftSecError where
  | invalidThreshold (t n : UInt32)
  | invalidShare (message : String)
  | invalidCommitment (message : String)
  | invalidSignature (message : String)
  | insufficientShares («have» need : ℕ)
  | attestationFailed (message : String)
  | programError (message : String)
  | programFrozen (programCid : String)
  | serializationError (message : String)
deriving Repr, DecidableEq

/-- The text of an error. -/
def CraftSecError.display : CraftSecError → String
  | .invalidThreshold t n => s!"invalid threshold: t={t}, n={n}"
  | .invalidShare message => s!"invalid share: {message}"
  | .invalidCommitment message => s!"invalid commitment: {message}"
  | .invalidSignature message => s!"invalid signature: {message}"
  | .insufficientShares held need =>
      s!"insufficient shares: have {held}, need {need}"
  | .attestationFailed message => s!"attestation failed: {message}"
  | .programError message => s!"program error: {message}"
  | .programFrozen programCid => s!"program frozen: {programCid}"
  | .serializationError message => s!"serialization error: {message}"

/-- How a call fails to return a value. -/
inductive Abort where
  | err (error : CraftSecError)
  | panic
deriving Repr, DecidableEq

/-- The outcome of a call returning `Result<α>` that may also panic. -/
abbrev Outcome (α : Type u) := Except Abort α

/-- `Err(error)`. -/
def Outcome.err {α : Type u} (error : CraftSecError) : Outcome α :=
  .error (.err error)

/-- A failed index, `unwrap` or checked operation. -/
def Outcome.panic {α : Type u} : Outcome α :=
  .error .panic

/-- Slice indexing `xs[i]`. -/
def index {α : Type u} (xs : List α) (i : ℕ) : Outcome α :=
  match xs[i]? with
  | some x => .ok x
  | none => Outcome.panic

/-- `Option::unwrap`. -/
def unwrap {α : Type u} : Option α → Outcome α
  | some x => .ok x
  | none => Outcome.panic

/-- `usize` subtraction.  Below zero the checked build panics, and the callers
here would loop over `usize::MAX` elements in an unchecked one. -/
def usizeSub (a b : ℕ) : Outcome ℕ :=
  if b ≤ a then .ok (a - b) else Outcome.panic

theorem index_eq_ok_of_getElem? {α : Type u} {xs : List α} {i : ℕ} {x : α}
    (hx : xs[i]? = some x) : index xs i = .ok x := by
  rw [index, hx]

theorem usizeSub_eq_ok {a b : ℕ} (hle : b ≤ a) :
    usizeSub a b = .ok (a - b) := by
  rw [usizeSub, if_pos hle]

@[simp]
theorem ok_bind {α : Type u} {β : Type u} (x : α) (f : α → Outcome β) :
    ((.ok x : Outcome α) >>= f) = f x := rfl

theorem unwrap_some {α : Type u} (x : α) : unwrap (some x) = .ok x := rfl

/-- A check that returns an error unless `p` passes exactly when `p` holds. -/
theorem ite_eq_ok_iff {p : Prop} [Decidable p] (error : CraftSecError) :
    (if p then .ok ⟨⟩ else Outcome.err error : Outcome Unit) = .ok ⟨⟩ ↔
      p := by
  by_cases hp : p
  · simp [hp]
  · simp [hp, Outcome.err]

/-- A list of calls that all succeed succeeds with the list of their values. -/
theorem mapM_eq_ok {α : Type u} {β : Type v} (xs : List α) (f : α → Outcome β)
    (g : α → β) (hok : ∀ x ∈ xs, f x = .ok (g x)) :
    xs.mapM f = .ok (xs.map g) := by
  induction xs with
  | nil => rfl
  | cons x xs ih =>
      have hhead := hok x List.mem_cons_self
      have htail := ih fun y hy => hok y (List.mem_cons_of_mem x hy)
      rw [List.mapM_cons, hhead, htail]
      rfl

/-- What a computation that ends with a value went through. -/
theorem exists_of_bind_eq_ok {α : Type u} {β : Type u} {m : Outcome α}
    {f : α → Outcome β} {b : β} (hok : m >>= f = .ok b) :
    ∃ a, m = .ok a ∧ f a = .ok b := by
  cases m with
  | error abort => cases hok
  | ok a => exact ⟨a, rfl, hok⟩

/-- What a call that is made for every element succeeded with. -/
theorem exists_of_mapM_eq_ok {α : Type u} {β : Type v} {f : α → Outcome β}
    {xs : List α} {ys : List β} (hok : xs.mapM f = .ok ys) :
    ∀ x ∈ xs, ∃ y, f x = .ok y := by
  induction xs generalizing ys with
  | nil => simp
  | cons x xs ih =>
      rw [List.mapM_cons] at hok
      cases hhead : f x with
      | error abort =>
          rw [hhead] at hok
          cases hok
      | ok y =>
          rw [hhead, ok_bind] at hok
          cases htail : xs.mapM f with
          | error abort =>
              rw [htail] at hok
              cases hok
          | ok later => exact List.forall_mem_cons.mpr ⟨⟨y, hhead⟩, ih htail⟩

/-- A loop of checks passes when every check does. -/
theorem forM_eq_ok {α : Type u} (xs : List α) (f : α → Outcome Unit)
    (hok : ∀ x ∈ xs, f x = .ok ⟨⟩) : forM xs f = .ok ⟨⟩ := by
  induction xs with
  | nil => rfl
  | cons x xs ih =>
      have htail := ih fun y hy => hok y (List.mem_cons_of_mem x hy)
      rw [List.forM_cons, hok x List.mem_cons_self]
      exact htail

end CraftSec
