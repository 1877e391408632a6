/-
Feldman verifiable secret sharing and the simulated key-generation ceremony.
Dealing and share verification are written once, because key rotation runs the
same two loops over zero-constant polynomials.
-/
import CraftSec.Dkg.Polynomial

namespace CraftSec

variable {P : Type} [EdwardsGroup P]

/-- A participant's contribution to the ceremony. -/
structure DkgContribution (P : Type) where
  index : ParticipantIndex
  commitments : List P
  shares : List (ParticipantIndex × Scalar)

/-- The points `a_k * G`. -/
def Polynomial.commitments (poly : Polynomial) : List P :=
  poly.coefficients.map basepointMul

/-- What participant `i` broadcasts and hands out for its polynomial. -/
def DkgContribution.ofPolynomial (n i : ℕ) (poly : Polynomial) :
    DkgContribution P where
  index := UInt32.ofNat i
  commitments := poly.commitments
  shares := (List.range' 1 n).map fun j =>
    (UInt32.ofNat j, poly.evaluate (j : Scalar))

/-- The dealing loop of `run_dkg` and `rotate_shares`.  They differ in how a
polynomial of degree `t - 1` is drawn and in an assertion on its
commitments. -/
def dealContributions (draw : ℕ → Rng → Polynomial × Rng)
    (assertion : List P → Outcome Unit) (t n : ℕ) :
    List ℕ → Rng → Outcome (List (DkgContribution P) × Rng)
  | [], rng => .ok ([], rng)
  | i :: rest, rng => do
      let degree ← usizeSub t 1
      let (poly, rng) := draw degree rng
      assertion poly.commitments
      let (contributions, rng) ← dealContributions draw assertion t n rest rng
      return (DkgContribution.ofPolynomial n i poly :: contributions, rng)

/-- The commitment polynomial evaluated at `x`: `sum(C_k * x^k)`. -/
def evaluateCommitments (commitments : List P) (x : Scalar) : P :=
  Interpolation.powerLoop (fun commitment xPower => pointMul commitment xPower)
    x commitments

/-- `verify_share`. -/
def verifyShare [DecidableEq P] (index : ParticipantIndex) (share : Scalar)
    (commitments : List P) : Outcome Unit :=
  if basepointMul share = evaluateCommitments commitments index.toScalar then
    .ok ⟨⟩
  else
    Outcome.err
      (.invalidShare s!"share verification failed for participant {index}")

/-- Every receiver verifies the share of every dealer. -/
def verifyContributions [DecidableEq P] (n : ℕ)
    (contributions : List (DkgContribution P)) : Outcome Unit :=
  forM (List.range' 1 n) fun receiverIdx =>
    forM contributions fun contribution => do
      let share ← index contribution.shares (receiverIdx - 1)
      verifyShare (UInt32.ofNat receiverIdx) share.2 contribution.commitments

/-- The sum of all shares dealt to participant `i`. -/
def sumShares (contributions : List (DkgContribution P)) (i : ℕ) :
    Outcome Scalar := do
  let received ← contributions.mapM fun contribution =>
    index contribution.shares (i - 1)
  return (received.map Prod.snd).sum

/-- Step 3 of `run_dkg`: each participant sums the shares it received. -/
def combineContributions (n : ℕ) (contributions : List (DkgContribution P)) :
    Outcome (List (KeyShare P)) := do
  let constants ← contributions.mapM fun contribution =>
    index contribution.commitments 0
  let groupPublicKey : P := constants.sum
  (List.range' 1 n).mapM fun i => do
    let secret ← sumShares contributions i
    let verificationShares := (List.range' 1 n).map fun j =>
      (UInt32.ofNat j,
        (contributions.map fun contribution =>
          evaluateCommitments contribution.commitments (j : Scalar)).sum)
    return ⟨UInt32.ofNat i, secret, groupPublicKey, verificationShares⟩

/-- `run_dkg`. -/
def runDkg [DecidableEq P] (config : ThresholdConfig) (rng : Rng) :
    Outcome (List (KeyShare P) × Rng) := do
  let t := config.threshold.toNat
  let n := config.total.toNat
  let (contributions, rng) ←
    dealContributions Polynomial.randomFull (fun _ => .ok ⟨⟩) t n
      (List.range' 1 n) rng
  verifyContributions n contributions
  let keyShares ← combineContributions n contributions
  return (keyShares, rng)

theorem evaluateCommitments_commitments (poly : Polynomial) (x : Scalar) :
    evaluateCommitments (poly.commitments (P := P)) x =
      basepointMul (poly.evaluate x) :=
  Interpolation.powerLoop_map basepointMul basepointMul_zero basepointMul_add
    _ pointMul_basepointMul x poly.coefficients

/-- A receiver accepts a share of a well-formed commitment vector exactly when
it is the polynomial's value. -/
theorem verifyShare_commitments_eq_ok_iff [DecidableEq P]
    (index : ParticipantIndex) (share : Scalar) (poly : Polynomial) :
    verifyShare index share (poly.commitments (P := P)) = .ok ⟨⟩ ↔
      share = poly.evaluate index.toScalar := by
  rw [verifyShare, evaluateCommitments_commitments, ite_eq_ok_iff]
  exact basepointMul_injective.eq_iff

/-- The polynomials the dealing loop draws, one after the other. -/
def drawPolynomials (draw : Rng → Polynomial × Rng) :
    ℕ → Rng → List Polynomial × Rng
  | 0, rng => ([], rng)
  | count + 1, rng =>
      let (poly, rng) := draw rng
      let (rest, rng) := drawPolynomials draw count rng
      (poly :: rest, rng)

@[simp]
theorem drawPolynomials_length (draw : Rng → Polynomial × Rng) (count : ℕ)
    (rng : Rng) : (drawPolynomials draw count rng).1.length = count := by
  induction count generalizing rng with
  | zero => rfl
  | succ count ih => simp [drawPolynomials, ih]

/-- Every drawn polynomial came out of `draw`. -/
theorem exists_draw_of_mem_drawPolynomials (draw : Rng → Polynomial × Rng)
    (count : ℕ) (rng : Rng) {poly : Polynomial}
    (hpoly : poly ∈ (drawPolynomials draw count rng).1) :
    ∃ rng', poly = (draw rng').1 := by
  induction count generalizing rng with
  | zero => simp [drawPolynomials] at hpoly
  | succ count ih =>
      simp only [drawPolynomials, List.mem_cons] at hpoly
      rcases hpoly with rfl | hpoly
      · exact ⟨rng, rfl⟩
      · exact ih (draw rng).2 hpoly

/-- With a positive threshold and passing assertions the loop deals one
contribution for each polynomial drawn. -/
theorem dealContributions_eq_ok (draw : ℕ → Rng → Polynomial × Rng)
    (assertion : List P → Outcome Unit) {t : ℕ} (ht : 1 ≤ t) (n : ℕ)
    (hassert : ∀ rng,
      assertion (draw (t - 1) rng).1.commitments = .ok ⟨⟩)
    (indices : List ℕ) (rng : Rng) :
    dealContributions draw assertion t n indices rng =
      .ok (List.zipWith (DkgContribution.ofPolynomial n) indices
          (drawPolynomials (draw (t - 1)) indices.length rng).1,
        (drawPolynomials (draw (t - 1)) indices.length rng).2) := by
  induction indices generalizing rng with
  | nil => rfl
  | cons i rest ih =>
      rw [dealContributions, usizeSub_eq_ok ht]
      simp only [bind, Except.bind, hassert, ih]
      rfl

end CraftSec
