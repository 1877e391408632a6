/-
The coefficients that a byte source stands for.  Every choice of coefficients
for key generation and for a rotation is drawn from some byte source, so
statements about coefficients are statements about runs.
-/
import CraftSec.Dkg.Lifecycle

open scoped Polynomial

namespace CraftSec

open Interpolation (ofCoeffs)

/-- The byte source whose scalars are the listed ones. -/
def rngOfScalars (scalars : ℕ → Scalar) : Rng := fun i =>
  (leBytes 64 (scalars (i / 64)).val).getD (i % 64) 0

theorem scalarAt_rngOfScalars (scalars : ℕ → Scalar) (k : ℕ) :
    scalarAt (rngOfScalars scalars) k = scalars k := by
  have hbytes : (Vector.ofFn fun i : Fin 64 =>
      rngOfScalars scalars (i + 64 * k)).toList =
      leBytes 64 (scalars k).val := by
    rw [Vector.toList_ofFn]
    apply List.ext_getElem
    · simp
    · intro i hi hi'
      have hlt : i < 64 := by simpa using hi
      have hdiv : (i + 64 * k) / 64 = k := by omega
      have hmod : (i + 64 * k) % 64 = i := by omega
      rw [List.getElem_ofFn, rngOfScalars, hdiv, hmod,
        List.getD_eq_getElem?_getD, List.getElem?_eq_getElem hi']
      rfl
  have hfits : (scalars k).val < 256 ^ 64 := by
    apply lt_trans (ZMod.val_lt _)
    norm_num [ell]
  change fromBytesModOrderWide _ = _
  rw [fromBytesModOrderWide]
  change ((leNat (Vector.ofFn fun i : Fin 64 =>
    rngOfScalars scalars (i + 64 * k)).toList : ℕ) : Scalar) = _
  rw [hbytes, leNat_leBytes, Nat.mod_eq_of_lt hfits, ZMod.natCast_zmod_val]

/-- Some byte source yields a given table of scalars, row after row. -/
theorem exists_rng_of_table {n stride : ℕ}
    (table : Fin n → Fin stride → Scalar) :
    ∃ rng, ∀ (i : Fin n) (k : Fin stride),
      scalarAt rng (k + stride * i) = table i k := by
  let scalars : ℕ → Scalar := fun position =>
    if hlt : position < n * stride then
      let cell := finProdFinEquiv.symm ⟨position, hlt⟩
      table cell.1 cell.2
    else 0
  refine ⟨rngOfScalars scalars, fun i k => ?_⟩
  have hlt : (k + stride * i : ℕ) < n * stride :=
    (finProdFinEquiv (i, k)).isLt
  have hcell : finProdFinEquiv.symm ⟨k + stride * i, hlt⟩ = (i, k) :=
    finProdFinEquiv.symm_apply_apply (i, k)
  rw [scalarAt_rngOfScalars]
  simp only [scalars, hlt, dif_pos, hcell]

theorem scalarAt_shift (rng : Rng) (skipped k : ℕ) :
    scalarAt (fun i => rng (i + 64 * skipped)) k =
      scalarAt rng (k + skipped) := by
  have hshift : ∀ i, i + 64 * k + 64 * skipped = i + 64 * (k + skipped) := by
    intro i
    omega
  simp only [scalarAt, hshift]

/-- A draw that reads a fixed number of scalars reads one row of the table
each time. -/
theorem drawPolynomials_eq (draw : Rng → Polynomial × Rng) (stride : ℕ)
    (build : (ℕ → Scalar) → Polynomial)
    (hdraw : ∀ rng, draw rng =
      (build (scalarAt rng), fun i => rng (i + 64 * stride)))
    (n : ℕ) (rng : Rng) :
    (drawPolynomials draw n rng).1 =
      List.ofFn fun i : Fin n =>
        build fun k => scalarAt rng (k + stride * i) := by
  induction n generalizing rng with
  | zero => rfl
  | succ n ih =>
      have hrow : ∀ k i : ℕ,
          k + stride * i + stride = k + stride * (i + 1) := by
        intro k i
        rw [Nat.mul_succ, Nat.add_assoc]
      simp only [drawPolynomials, hdraw, ih, scalarAt_shift, hrow]
      rw [List.ofFn_succ]
      simp

theorem randomFull_eq {t : ℕ} (ht : 1 ≤ t) (rng : Rng) :
    Polynomial.randomFull (t - 1) rng =
      (⟨List.ofFn fun k : Fin t => scalarAt rng k⟩,
        fun i => rng (i + 64 * t)) := by
  obtain ⟨degree, rfl⟩ := Nat.exists_eq_add_of_le' ht
  have hdraw := drawScalars_eq (degree + 1) rng
  rw [drawScalars] at hdraw
  rw [Nat.add_sub_cancel]
  simp only [Polynomial.randomFull, Polynomial.random]
  rw [Prod.mk.injEq] at hdraw ⊢
  exact ⟨congrArg Polynomial.mk hdraw.1, hdraw.2⟩

theorem random_zero_eq (degree : ℕ) (rng : Rng) :
    Polynomial.random degree 0 rng =
      (⟨0 :: List.ofFn fun k : Fin degree => scalarAt rng k⟩,
        fun i => rng (i + 64 * degree)) := by
  rw [Polynomial.random, drawScalars_eq]

/-- The polynomials with the given coefficients, one row per dealer. -/
def dkgPolys {n t : ℕ} (coins : Fin n → Fin t → Scalar) : List Polynomial :=
  List.ofFn fun i => ⟨List.ofFn (coins i)⟩

/-- The polynomials with constant term zero and the given higher
coefficients. -/
def zeroPolys {n degree : ℕ} (coins : Fin n → Fin degree → Scalar) :
    List Polynomial :=
  List.ofFn fun i => ⟨0 :: List.ofFn (coins i)⟩

/-- Any coefficients can be the ones `run_dkg` draws. -/
theorem exists_rng_dkgPolynomials {config : ThresholdConfig}
    (ht : 1 ≤ config.threshold.toNat)
    (coins : Fin config.total.toNat → Fin config.threshold.toNat → Scalar) :
    ∃ rng, (dkgPolynomials config rng).1 = dkgPolys coins := by
  obtain ⟨rng, hrng⟩ := exists_rng_of_table coins
  refine ⟨rng, ?_⟩
  rw [dkgPolynomials, drawPolynomials_eq _ config.threshold.toNat
    (fun scalars => ⟨List.ofFn fun k : Fin config.threshold.toNat =>
      scalars k⟩) (randomFull_eq ht)]
  simp only [hrng]
  rfl

/-- Any higher coefficients can be the ones `rotate_shares` draws. -/
theorem exists_rng_rotationPolynomials {n : ℕ} (newConfig : ThresholdConfig)
    (coins : Fin n → Fin (newConfig.threshold.toNat - 1) → Scalar) :
    ∃ rng, (rotationPolynomials n newConfig rng).1 = zeroPolys coins := by
  obtain ⟨rng, hrng⟩ := exists_rng_of_table coins
  refine ⟨rng, ?_⟩
  rw [rotationPolynomials, drawPolynomials_eq _
    (newConfig.threshold.toNat - 1)
    (fun scalars => ⟨0 :: List.ofFn fun k :
      Fin (newConfig.threshold.toNat - 1) => scalars k⟩)
    (random_zero_eq (newConfig.threshold.toNat - 1))]
  simp only [hrng]
  rfl

theorem combined_dkgPolys {n t : ℕ} (coins : Fin n → Fin t → Scalar) :
    combined (dkgPolys coins) = ∑ i, ofCoeffs (List.ofFn (coins i)) := by
  rw [combined, dkgPolys, List.map_ofFn, List.sum_ofFn]
  rfl

theorem combined_zeroPolys {n degree : ℕ}
    (coins : Fin n → Fin degree → Scalar) :
    combined (zeroPolys coins) =
      ∑ i, ofCoeffs (0 :: List.ofFn (coins i)) := by
  rw [combined, zeroPolys, List.map_ofFn, List.sum_ofFn]
  rfl

end CraftSec
