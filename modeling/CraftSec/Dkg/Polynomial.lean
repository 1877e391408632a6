/-
Polynomials over the scalar field and how they are drawn from a byte source.
-/
import CraftSec.Core.Types
import CraftSec.Lib.Interpolation

namespace CraftSec

/-- Coefficients `a_0, a_1, …` of a sharing polynomial. -/
structure Polynomial where
  coefficients : List Scalar
deriving DecidableEq

/-- `for _ in 0..count { coefficients.push(random_scalar(rng)) }`. -/
def drawScalars : ℕ → Rng → List Scalar × Rng
  | 0, rng => ([], rng)
  | count + 1, rng =>
      let (scalar, rng) := randomScalar rng
      let (rest, rng) := drawScalars count rng
      (scalar :: rest, rng)

/-- `Polynomial::random`. -/
def Polynomial.random (degree : ℕ) (constant : Scalar) (rng : Rng) :
    Polynomial × Rng :=
  let (scalars, rng) := drawScalars degree rng
  (⟨constant :: scalars⟩, rng)

/-- `Polynomial::random_full`. -/
def Polynomial.randomFull (degree : ℕ) (rng : Rng) : Polynomial × Rng :=
  let (constant, rng) := randomScalar rng
  Polynomial.random degree constant rng

/-- `Polynomial::evaluate`. -/
def Polynomial.evaluate (poly : Polynomial) (x : Scalar) : Scalar :=
  Interpolation.powerLoop (fun coeff xPower => coeff * xPower) x
    poly.coefficients

theorem Polynomial.evaluate_eq (poly : Polynomial) (x : Scalar) :
    poly.evaluate x =
      (Interpolation.ofCoeffs poly.coefficients).eval x :=
  Interpolation.powerLoop_eq_eval x poly.coefficients

@[simp]
theorem drawScalars_length (count : ℕ) (rng : Rng) :
    (drawScalars count rng).1.length = count := by
  induction count generalizing rng with
  | zero => rfl
  | succ count ih => simp [drawScalars, ih]

@[simp]
theorem Polynomial.random_length (degree : ℕ) (constant : Scalar) (rng : Rng) :
    (Polynomial.random degree constant rng).1.coefficients.length =
      degree + 1 := by
  simp [Polynomial.random]

@[simp]
theorem Polynomial.randomFull_length (degree : ℕ) (rng : Rng) :
    (Polynomial.randomFull degree rng).1.coefficients.length = degree + 1 := by
  simp [Polynomial.randomFull]

/-- The scalar a generator yields after `skipped` earlier scalars. -/
def scalarAt (rng : Rng) (skipped : ℕ) : Scalar :=
  (randomScalar fun i => rng (i + 64 * skipped)).1

theorem drawScalars_eq (count : ℕ) (rng : Rng) :
    drawScalars count rng =
      (List.ofFn fun k : Fin count => scalarAt rng k,
        fun i => rng (i + 64 * count)) := by
  induction count generalizing rng with
  | zero => simp [drawScalars]
  | succ count ih =>
      rw [drawScalars, List.ofFn_succ]
      simp only [ih, randomScalar, fillBytes, scalarAt]
      refine Prod.ext ?_ ?_
      · simp only [Fin.val_zero, Nat.mul_zero, Nat.add_zero, Fin.val_succ,
          List.cons.injEq, true_and]
        rfl
      · rfl

end CraftSec
