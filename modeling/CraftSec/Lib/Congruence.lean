/-
Systems of linear equations over an abelian group that a modulus kills.  A
linear form vanishes at every solution of a system exactly when it is a
combination of the system's rows modulo the modulus.
-/
import Mathlib.Algebra.Module.CharacterModule
import Mathlib.GroupTheory.OrderOfElement

namespace Congruence

universe u v w

variable {ι : Type u} {κ : Type v}

section Combinations

variable (modulus : ℕ) (rows : ι → κ → ℤ) (indices : Finset ι)

/-- The form `target` is an integer combination of the rows with an index in
`indices`, up to multiples of `modulus`. -/
def IsCombination (target : κ → ℤ) : Prop :=
  ∃ weight : ι → ℤ, ∀ k,
    (modulus : ℤ) ∣ ∑ i ∈ indices, weight i * rows i k - target k

/-- The combinations form a subgroup. -/
def combinations : AddSubgroup (κ → ℤ) where
  carrier := { target | IsCombination modulus rows indices target }
  zero_mem' := ⟨0, fun k => by simp⟩
  add_mem' := by
    rintro left right ⟨leftWeight, hleft⟩ ⟨rightWeight, hright⟩
    refine ⟨leftWeight + rightWeight, fun k => ?_⟩
    have hsum := dvd_add (hleft k) (hright k)
    simp only [Pi.add_apply, add_mul, Finset.sum_add_distrib]
    rwa [add_sub_add_comm]
  neg_mem' := by
    rintro target ⟨weight, hweight⟩
    refine ⟨-weight, fun k => ?_⟩
    have hneg := (dvd_neg).mpr (hweight k)
    simp only [Pi.neg_apply, neg_mul, Finset.sum_neg_distrib]
    rwa [sub_neg_eq_add, neg_add_eq_sub, ← neg_sub]

variable {modulus rows indices}

theorem row_mem_combinations {i : ι} (hi : i ∈ indices) :
    rows i ∈ combinations modulus rows indices := by
  classical
  refine ⟨Pi.single i 1, fun k => ?_⟩
  simp [Pi.single_apply, ite_mul, hi]

theorem nsmul_mem_combinations (form : κ → ℤ) :
    modulus • form ∈ combinations modulus rows indices :=
  ⟨0, fun k => by simp⟩

end Combinations

variable [Fintype κ] {modulus : ℕ} {rows : ι → κ → ℤ} {indices : Finset ι}
  {target : κ → ℤ}

/-- A combination vanishes wherever the rows do. -/
theorem IsCombination.sum_eq_zero {P : Type w} [AddCommGroup P]
    (hcombination : IsCombination modulus rows indices target) {point : κ → P}
    (hkilled : ∀ k, modulus • point k = 0)
    (hrows : ∀ i ∈ indices, ∑ k, rows i k • point k = 0) :
    ∑ k, target k • point k = 0 := by
  obtain ⟨weight, hweight⟩ := hcombination
  have hterm : ∀ k, target k • point k =
      (∑ i ∈ indices, weight i * rows i k) • point k := by
    intro k
    obtain ⟨quotient, hquotient⟩ := hweight k
    have hvanish : (∑ i ∈ indices, weight i * rows i k - target k) •
        point k = 0 := by
      rw [hquotient, mul_comm, mul_zsmul, natCast_zsmul, hkilled, zsmul_zero]
    rw [sub_zsmul, ← sub_eq_add_neg, sub_eq_zero] at hvanish
    exact hvanish.symm
  calc ∑ k, target k • point k
      = ∑ k, ∑ i ∈ indices, weight i • rows i k • point k := by
        apply Finset.sum_congr rfl
        intro k _
        rw [hterm, Finset.sum_smul]
        simp only [mul_zsmul]
    _ = ∑ i ∈ indices, weight i • ∑ k, rows i k • point k := by
        rw [Finset.sum_comm]
        simp only [Finset.smul_sum]
    _ = 0 := by
        apply Finset.sum_eq_zero
        intro i hi
        rw [hrows i hi, zsmul_zero]

/-- A character of the integer vectors that kills the multiples of the modulus
is a linear form with values in the fractions of the modulus. -/
theorem exists_form_of_character (hpos : 0 < modulus)
    (character : (κ → ℤ) →+ AddCircle (1 : ℚ))
    (hkilled : ∀ form, character (modulus • form) = 0) :
    ∃ value : κ → ℤ, ∀ form : κ → ℤ,
      character form = 0 ↔ (modulus : ℤ) ∣ ∑ k, form k * value k := by
  classical
  have hfraction : ∀ k, ∃ value : ℕ, character (Pi.single k 1) =
      value • (((1 : ℚ) / modulus : ℚ) : AddCircle (1 : ℚ)) := by
    intro k
    have hzero := hkilled (Pi.single k 1)
    rw [map_nsmul, AddCircle.nsmul_eq_zero_iff hpos] at hzero
    obtain ⟨value, -, hvalue⟩ := hzero
    refine ⟨value, ?_⟩
    rw [← hvalue, ← AddCircle.coe_nsmul, nsmul_eq_mul, mul_one, mul_one_div]
  choose value hvalue using hfraction
  refine ⟨fun k => value k, fun form => ?_⟩
  have hform : character form = (∑ k, form k * value k) •
      (((1 : ℚ) / modulus : ℚ) : AddCircle (1 : ℚ)) := by
    have hbasis : form = ∑ k, form k • (Pi.single k 1 : κ → ℤ) := by
      funext k
      simp [Finset.sum_apply, Pi.single_apply]
    calc character form
        = ∑ k, form k • character (Pi.single k 1) := by
          conv_lhs => rw [hbasis, map_sum]
          simp only [map_zsmul]
      _ = (∑ k, form k * value k) •
            (((1 : ℚ) / modulus : ℚ) : AddCircle (1 : ℚ)) := by
          rw [Finset.sum_smul]
          simp only [hvalue, mul_zsmul, natCast_zsmul]
  rw [hform, ← addOrderOf_dvd_iff_zsmul_eq_zero,
    AddCircle.addOrderOf_period_div hpos]

/-- Anything but a combination is separated from the rows by a vector of
integers. -/
theorem exists_separating (hpos : 0 < modulus)
    (hnot : ¬ IsCombination modulus rows indices target) :
    ∃ value : κ → ℤ,
      (∀ i ∈ indices, (modulus : ℤ) ∣ ∑ k, rows i k * value k) ∧
      ¬ (modulus : ℤ) ∣ ∑ k, target k * value k := by
  let quotient := QuotientAddGroup.mk' (combinations modulus rows indices)
  have hvanish : ∀ form, quotient form = 0 ↔
      form ∈ combinations modulus rows indices :=
    QuotientAddGroup.eq_zero_iff
  have hseparated : ∃ character :
      (κ → ℤ) ⧸ combinations modulus rows indices →+ AddCircle (1 : ℚ),
      character (quotient target) ≠ 0 :=
    CharacterModule.exists_character_apply_ne_zero_of_ne_zero
      (mt (hvanish target).mp hnot)
  obtain ⟨character, hcharacter⟩ := hseparated
  obtain ⟨value, hvalue⟩ := exists_form_of_character hpos
    (AddMonoidHom.comp character quotient) (by
      intro form
      rw [AddMonoidHom.comp_apply,
        (hvanish _).mpr (nsmul_mem_combinations form), map_zero])
  refine ⟨value, fun i hi => ?_, fun hdvd => hcharacter ?_⟩
  · rw [← hvalue, AddMonoidHom.comp_apply,
      (hvanish _).mpr (row_mem_combinations hi), map_zero]
  · exact (hvalue target).mpr hdvd

end Congruence
