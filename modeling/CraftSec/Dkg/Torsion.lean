/-
Commitments outside the basepoint's subgroup.  The curve has eight times as
many points as the subgroup; which sets of accepting receivers keep the first
commitment inside is a question about the powers of their indices modulo eight.
-/
import CraftSec.Lib.Congruence
import CraftSec.Core.Reference
import CraftSec.Dkg.Sharing
import Mathlib.GroupTheory.SpecificGroups.Cyclic

namespace CraftSec

/-- The group of Curve25519: cyclic, of order eight times `ell`. -/
class Curve25519Group (P : Type) [EdwardsGroup P] : Prop where
  isAddCyclic : IsAddCyclic P
  card_eq : Nat.card P = 8 * ell

theorem coprime_eight_ell : Nat.Coprime 8 ell := by
  norm_num [ell]

instance : Curve25519Group ReferencePoint where
  isAddCyclic := by
    apply isAddCyclic_of_addOrderOf_eq_card (1, 1)
    change @addOrderOf (ZMod ell × ZMod 8) _ (1, 1) = _
    rw [Prod.addOrderOf, ZMod.addOrderOf_one, ZMod.addOrderOf_one,
      Nat.card_prod, Nat.card_zmod, Nat.card_zmod]
    exact coprime_eight_ell.symm.lcm_eq_mul
  card_eq := by
    rw [Nat.card_prod, Nat.card_zmod, Nat.card_zmod, mul_comm]

section Curve

variable {P : Type} [EdwardsGroup P] [Curve25519Group P]

theorem finite_point : Finite P := by
  apply Nat.finite_of_card_ne_zero
  rw [Curve25519Group.card_eq (P := P)]
  exact mul_ne_zero (by decide) ell_prime.ne_zero

/-- Multiplying by `ell` leaves only the small-order part of a point. -/
theorem eight_nsmul_ell_nsmul (point : P) : 8 • ell • point = 0 := by
  rw [← mul_nsmul', ← Curve25519Group.card_eq (P := P)]
  exact card_nsmul_eq_zero'

/-- The basepoint's subgroup is what `ell` kills. -/
theorem mem_zmultiples_basepoint_iff_nsmul {point : P} :
    point ∈ AddSubgroup.zmultiples (EdwardsGroup.basepoint : P) ↔
      ell • point = 0 := by
  have hfinite : Finite P := finite_point
  have hcyclic : IsAddCyclic P := Curve25519Group.isAddCyclic
  have hsame : AddSubgroup.zmultiples (EdwardsGroup.basepoint : P) =
      (nsmulAddMonoidHom ell : P →+ P).ker := by
    apply AddSubgroup.eq_of_le_of_card_ge
    · rw [AddSubgroup.zmultiples_le, AddMonoidHom.mem_ker]
      exact ell_nsmul_basepoint
    · rw [IsAddCyclic.card_nsmulAddMonoidHom_ker, Nat.card_zmultiples,
        EdwardsGroup.addOrderOf_basepoint, Curve25519Group.card_eq,
        Nat.gcd_eq_right (Nat.dvd_mul_left ell 8)]
  rw [hsame, AddMonoidHom.mem_ker]
  rfl

variable (P) in
theorem exists_addOrderOf_eq_eight : ∃ point : P, addOrderOf point = 8 := by
  have hcyclic : IsAddCyclic P := Curve25519Group.isAddCyclic
  obtain ⟨generator, hgenerator⟩ :=
    IsAddCyclic.exists_ofOrder_eq_natCard (α := P)
  rw [Curve25519Group.card_eq] at hgenerator
  refine ⟨ell • generator, ?_⟩
  rw [addOrderOf_nsmul_of_dvd ell_prime.ne_zero
    (hgenerator ▸ Nat.dvd_mul_left ell 8), hgenerator,
    Nat.mul_div_cancel _ ell_prime.pos]

/-- Multiples of a point of order eight meet the subgroup in zero only. -/
theorem zsmul_mem_zmultiples_basepoint_iff {point : P}
    (horder : addOrderOf point = 8) (scale : ℤ) :
    scale • point ∈ AddSubgroup.zmultiples (EdwardsGroup.basepoint : P) ↔
      (8 : ℤ) ∣ scale := by
  have hcoprime : IsCoprime (8 : ℤ) ell := by
    exact_mod_cast Nat.isCoprime_iff_coprime.mpr coprime_eight_ell
  rw [mem_zmultiples_basepoint_iff_nsmul, ← natCast_zsmul, ← mul_zsmul',
    ← addOrderOf_dvd_iff_zsmul_eq_zero, horder]
  exact ⟨hcoprime.dvd_of_dvd_mul_right, fun h => h.mul_right _⟩

end Curve

section Commitments

variable (P : Type) [EdwardsGroup P] [DecidableEq P]

/-- Whatever `m` points a dealer commits to, shares accepted at all of
`indices` leave its summand of the group key in the basepoint's subgroup. -/
def CommitsToSubgroup (m : ℕ) (indices : Finset ParticipantIndex) : Prop :=
  ∀ commitments : List P, commitments.length = m →
    (∀ i ∈ indices, ∃ share, verifyShare i share commitments = .ok ⟨⟩) →
    ∀ constant, commitments[0]? = some constant →
      constant ∈ AddSubgroup.zmultiples (EdwardsGroup.basepoint : P)

/-- The powers `x^0, .., x^(m-1)` of an index, as the integers that multiply
the commitments. -/
def powerRow (m : ℕ) (i : ParticipantIndex) (k : Fin m) : ℤ :=
  ((i.toScalar ^ (k : ℕ)).val : ℕ)

/-- The form that picks the constant term. -/
def constantForm (m : ℕ) (k : Fin m) : ℤ :=
  if (k : ℕ) = 0 then 1 else 0

/-- Some integer combination of the indices' powers is one at the constant
term and zero at the others, modulo eight. -/
def ConstantIsCombination (m : ℕ) (indices : Finset ParticipantIndex) : Prop :=
  Congruence.IsCombination 8 (powerRow m) indices (constantForm m)

variable {P}

omit [DecidableEq P] in
theorem evaluateCommitments_ofFn {m : ℕ} (commitment : Fin m → P)
    (i : ParticipantIndex) :
    evaluateCommitments (List.ofFn commitment) i.toScalar =
      ∑ k, powerRow m i k • commitment k := by
  rw [evaluateCommitments, Interpolation.powerLoop_ofFn]
  apply Finset.sum_congr rfl
  intro k _
  rw [powerRow, natCast_zsmul]
  rfl

theorem sum_constantForm {M : Type} [AddCommGroup M] {m : ℕ}
    (value : Fin (m + 1) → M) :
    ∑ k, constantForm (m + 1) k • value k = value 0 := by
  rw [Fin.sum_univ_succ]
  simp [constantForm]

variable [Curve25519Group P]

/-- A combination of the accepted equations shows that `ell` kills the first
commitment. -/
theorem commitsToSubgroup_of_constantIsCombination {m : ℕ}
    {indices : Finset ParticipantIndex}
    (hcombination : ConstantIsCombination m indices) :
    CommitsToSubgroup P m indices := by
  intro commitments hlength haccepted constant hconstant
  obtain ⟨commitment, rfl⟩ : ∃ commitment : Fin m → P,
      List.ofFn commitment = commitments := by
    subst hlength
    exact ⟨commitments.get, List.ofFn_get commitments⟩
  cases m with
  | zero => simp at hconstant
  | succ m =>
      have hrows : ∀ i ∈ indices,
          ∑ k, powerRow (m + 1) i k • ell • commitment k = 0 := by
        intro i hi
        obtain ⟨share, hshare⟩ := haccepted i hi
        rw [verifyShare, ite_eq_ok_iff, evaluateCommitments_ofFn] at hshare
        simp only [smul_comm _ ell]
        rw [← Finset.smul_sum, ← hshare]
        exact mem_zmultiples_basepoint_iff_nsmul.mp
          (mem_zmultiples_basepoint_iff.mpr ⟨share, rfl⟩)
      have hvanish := hcombination.sum_eq_zero
        (fun k => eight_nsmul_ell_nsmul (commitment k)) hrows
      rw [sum_constantForm] at hvanish
      rw [List.getElem?_ofFn, dif_pos (Nat.succ_pos m)] at hconstant
      cases hconstant
      exact mem_zmultiples_basepoint_iff_nsmul.mpr hvanish

/-- Without such a combination multiples of a point of order eight pass every
check with the share zero. -/
theorem constantIsCombination_of_commitsToSubgroup {m : ℕ}
    {indices : Finset ParticipantIndex}
    (hcommits : CommitsToSubgroup P m indices) :
    ConstantIsCombination m indices := by
  by_contra hnot
  obtain ⟨value, hrows, hconstant⟩ :=
    Congruence.exists_separating (by decide) hnot
  obtain ⟨torsion, horder⟩ := exists_addOrderOf_eq_eight P
  cases m with
  | zero => exact hconstant (by simp)
  | succ m =>
      have haccepted : ∀ i ∈ indices, ∃ share, verifyShare i share
          (List.ofFn fun k => value k • torsion) = .ok ⟨⟩ := by
        intro i hi
        refine ⟨0, ?_⟩
        rw [verifyShare, ite_eq_ok_iff, evaluateCommitments_ofFn,
          basepointMul_zero]
        simp only [← mul_zsmul]
        rw [← Finset.sum_smul, eq_comm, ← addOrderOf_dvd_iff_zsmul_eq_zero,
          horder]
        exact hrows i hi
      have hmem := hcommits _ List.length_ofFn haccepted (value 0 • torsion)
        (by rw [List.getElem?_ofFn, dif_pos (Nat.succ_pos m)]; rfl)
      rw [zsmul_mem_zmultiples_basepoint_iff horder] at hmem
      apply hconstant
      have hsum := sum_constantForm value
      simp only [smul_eq_mul] at hsum
      rwa [hsum]

end Commitments

section Indices

variable {m : ℕ} {indices : Finset ParticipantIndex}

/-- Powers below `ell` are not reduced. -/
theorem powerRow_eq_pow {i : ParticipantIndex}
    (hsmall : i.toNat ^ (m - 1) < ell) (k : Fin m) :
    powerRow m i k = (i.toNat : ℤ) ^ (k : ℕ) := by
  have hpow : i.toNat ^ (k : ℕ) < ell := by
    rcases Nat.eq_zero_or_pos i.toNat with hzero | hpos
    · rw [hzero]
      exact lt_of_le_of_lt (Nat.pow_le_pow_left (Nat.zero_le 1) _)
        (by rw [one_pow]; exact ell_prime.one_lt)
    · have hk : (k : ℕ) ≤ m - 1 := Nat.le_sub_one_of_lt k.isLt
      exact lt_of_le_of_lt (Nat.pow_le_pow_right hpos hk) hsmall
  rw [powerRow, ParticipantIndex.toScalar, ← Nat.cast_pow, ZMod.val_natCast,
    Nat.mod_eq_of_lt hpow, Nat.cast_pow]

/-- An index divisible by eight rules small-order commitments out alone, and
so does any index when there is one commitment. -/
theorem constantIsCombination_of_mem {i : ParticipantIndex} (hi : i ∈ indices)
    (hsmall : i.toNat ^ (m - 1) < ell) (height : m = 1 ∨ 8 ∣ i.toNat) :
    ConstantIsCombination m indices := by
  classical
  refine ⟨Pi.single i 1, fun k => ?_⟩
  simp only [Pi.single_apply, ite_mul, one_mul, zero_mul,
    Finset.sum_ite_eq', hi, if_true]
  rw [powerRow_eq_pow hsmall, constantForm]
  split
  next hk => simp [hk]
  next hk =>
    rcases height with hone | hdvd
    · have hlt := k.isLt
      omega
    · rw [sub_zero]
      exact dvd_pow (Int.natCast_dvd_natCast.mpr hdvd) hk

/-- A threshold whose powers are not reduced is a small number. -/
theorem lt_of_pow_lt_ell (hsmall : m ^ (m - 1) < ell) : m < 2 ^ 32 := by
  by_contra hlarge
  have hpow : (2 ^ 32) ^ 8 ≤ m ^ (m - 1) :=
    le_trans (Nat.pow_le_pow_left (Nat.le_of_not_lt hlarge) 8)
      (Nat.pow_le_pow_right (by omega) (by omega))
  have hell : ell < (2 ^ 32) ^ 8 := by norm_num [ell]
  omega

/-- Summing over the indices between one and `m` is summing over a range. -/
theorem sum_filter_index_eq_sum_range (hm : m < 2 ^ 32)
    (hrange : ∀ j < m, UInt32.ofNat (j + 1) ∈ indices) (value : ℕ → ℤ) :
    ∑ i ∈ indices with 1 ≤ i.toNat ∧ i.toNat ≤ m, value (i.toNat - 1) =
      ∑ j ∈ Finset.range m, value j := by
  apply Finset.sum_nbij' (fun i => i.toNat - 1) (fun j => UInt32.ofNat (j + 1))
  · intro i hi
    obtain ⟨hpos, hle⟩ := (Finset.mem_filter.mp hi).2
    rw [Finset.mem_range]
    omega
  · intro j hj
    rw [Finset.mem_range] at hj
    have hindex := toNat_ofNat_of_lt (i := j + 1) (by omega)
    rw [Finset.mem_filter]
    exact ⟨hrange j hj, by omega, by omega⟩
  · intro i hi
    obtain ⟨hpos, -⟩ := (Finset.mem_filter.mp hi).2
    rw [Nat.sub_add_cancel hpos, UInt32.ofNat_toNat]
  · intro j hj
    rw [Finset.mem_range] at hj
    rw [toNat_ofNat_of_lt (by omega), Nat.add_sub_cancel]
  · intro i _
    rfl

/-- The indices `1, .., m` interpolate at zero with integer weights. -/
theorem constantIsCombination_of_range
    (hrange : ∀ j < m, UInt32.ofNat (j + 1) ∈ indices)
    (hsmall : m ^ (m - 1) < ell) : ConstantIsCombination m indices := by
  obtain ⟨weight, hweight⟩ := Interpolation.exists_integer_zeroWeights m
  refine ⟨fun i => if 1 ≤ i.toNat ∧ i.toNat ≤ m then weight (i.toNat - 1)
    else 0, fun k => ?_⟩
  have hterm : ∀ i ∈ indices.filter fun i => 1 ≤ i.toNat ∧ i.toNat ≤ m,
      weight (i.toNat - 1) * powerRow m i k =
        weight (i.toNat - 1) * ((i.toNat - 1 + 1 : ℕ) : ℤ) ^ (k : ℕ) := by
    intro i hi
    obtain ⟨hpos, hle⟩ := (Finset.mem_filter.mp hi).2
    rw [powerRow_eq_pow
      (lt_of_le_of_lt (Nat.pow_le_pow_left hle (m - 1)) hsmall),
      Nat.sub_add_cancel hpos]
  simp only [ite_mul, zero_mul]
  rw [← Finset.sum_filter, Finset.sum_congr rfl hterm,
    sum_filter_index_eq_sum_range (lt_of_pow_lt_ell hsmall) hrange
      fun j => weight j * ((j + 1 : ℕ) : ℤ) ^ (k : ℕ),
    hweight k k.isLt, constantForm, sub_self]
  exact dvd_zero _

/-- With odd indices only, the constant and the linear term of a combination
have the same parity. -/
theorem not_constantIsCombination_of_odd (hm : 2 ≤ m)
    (hodd : ∀ i ∈ indices, i.toNat % 2 = 1) :
    ¬ ConstantIsCombination m indices := by
  rintro ⟨weight, hweight⟩
  have hconstant := hweight ⟨0, by omega⟩
  have hlinear := hweight ⟨1, by omega⟩
  have hzero : ∀ i : ParticipantIndex, powerRow m i ⟨0, by omega⟩ = 1 := by
    intro i
    simp [powerRow, ZMod.val_one]
  have hone : ∀ i : ParticipantIndex,
      powerRow m i ⟨1, by omega⟩ = i.toNat := by
    intro i
    simp only [powerRow, pow_one, ParticipantIndex.toScalar,
      ZMod.val_natCast, Nat.cast_inj]
    exact Nat.mod_eq_of_lt (lt_trans i.toNat_lt two_pow_32_lt_ell)
  have hparity : (2 : ℤ) ∣
      ∑ i ∈ indices, weight i * i.toNat - ∑ i ∈ indices, weight i * 1 := by
    rw [← Finset.sum_sub_distrib]
    apply Finset.dvd_sum
    intro i hi
    have hi' := hodd i hi
    rw [← mul_sub]
    apply Dvd.dvd.mul_left
    omega
  simp only [hzero, hone, constantForm] at hconstant hlinear
  norm_num at hconstant hlinear hparity
  omega

end Indices

variable {P : Type} [EdwardsGroup P] [DecidableEq P] [Curve25519Group P]

/-- Accepted shares rule out a small-order first commitment exactly when the
powers of the accepting indices combine to the constant term modulo eight: one
index divisible by eight or the indices `1, .., m` do so, odd ones never do. -/
theorem commitsToSubgroup_iff (m : ℕ) (indices : Finset ParticipantIndex) :
    (CommitsToSubgroup P m indices ↔ ConstantIsCombination m indices) ∧
    (∀ i ∈ indices, i.toNat ^ (m - 1) < ell → (m = 1 ∨ 8 ∣ i.toNat) →
      CommitsToSubgroup P m indices) ∧
    ((∀ j < m, UInt32.ofNat (j + 1) ∈ indices) → m ^ (m - 1) < ell →
      CommitsToSubgroup P m indices) ∧
    (2 ≤ m → (∀ i ∈ indices, i.toNat % 2 = 1) →
      ¬ CommitsToSubgroup P m indices) := by
  have hiff : CommitsToSubgroup P m indices ↔
      ConstantIsCombination m indices :=
    ⟨constantIsCombination_of_commitsToSubgroup,
      commitsToSubgroup_of_constantIsCombination⟩
  refine ⟨hiff, ?_, ?_, ?_⟩
  · intro i hi hsmall height
    exact hiff.mpr (constantIsCombination_of_mem hi hsmall height)
  · intro hrange hsmall
    exact hiff.mpr (constantIsCombination_of_range hrange hsmall)
  · intro hm hodd hcommits
    exact not_constantIsCombination_of_odd hm hodd (hiff.mp hcommits)

omit [EdwardsGroup P] [DecidableEq P] [Curve25519Group P] in
/-- Receivers one and eight suffice for two commitments. -/
theorem commitsToSubgroup_one_eight :
    CommitsToSubgroup ReferencePoint 2 {1, 8} :=
  (commitsToSubgroup_iff 2 {1, 8}).2.1 8 (by decide) (by decide +kernel)
    (.inr (by decide))

omit [EdwardsGroup P] [DecidableEq P] [Curve25519Group P] in
/-- Receivers one and three accept two commitments outside the subgroup. -/
theorem small_order_accepted :
    verifyShare 1 6 [((3, 4) : ReferencePoint), (3, 4)] = .ok ⟨⟩ ∧
    verifyShare 3 12 [((3, 4) : ReferencePoint), (3, 4)] = .ok ⟨⟩ ∧
    ((3, 4) : ReferencePoint) ∉
      AddSubgroup.zmultiples (EdwardsGroup.basepoint : ReferencePoint) ∧
    ¬ CommitsToSubgroup ReferencePoint 2 {1, 3} := by
  have hone : verifyShare 1 6 [((3, 4) : ReferencePoint), (3, 4)] =
      .ok ⟨⟩ := by
    decide +kernel
  have hthree : verifyShare 3 12 [((3, 4) : ReferencePoint), (3, 4)] =
      .ok ⟨⟩ := by
    decide +kernel
  have houtside : ((3, 4) : ReferencePoint) ∉
      AddSubgroup.zmultiples (EdwardsGroup.basepoint : ReferencePoint) := by
    intro hmem
    have hkilled := mem_zmultiples_basepoint_iff_nsmul.mp hmem
    revert hkilled
    decide +kernel
  refine ⟨hone, hthree, houtside, ?_⟩
  intro hcommits
  apply houtside
  apply hcommits [(3, 4), (3, 4)] rfl
  · intro i hi
    rw [Finset.mem_insert, Finset.mem_singleton] at hi
    rcases hi with rfl | rfl
    · exact ⟨6, hone⟩
    · exact ⟨12, hthree⟩
  · rfl

end CraftSec
