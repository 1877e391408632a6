/-
Multiplication of the elements of an additive group by residues.  A residue
acts through its least representative, which is additive and multiplicative
only on the elements that the modulus kills; elements outside that subgroup
still have well-defined multiples.
-/
import Mathlib.Algebra.Field.ZMod
import Mathlib.Algebra.BigOperators.Group.List.Basic
import Mathlib.GroupTheory.OrderOfElement

namespace PrimeOrder

universe u v

variable {P : Type u} [AddCommGroup P] {q : ℕ}

/-- The multiple of an element by the least representative of a residue. -/
def mul (point : P) (scalar : ZMod q) : P := scalar.val • point

theorem mul_zero (point : P) : mul point (0 : ZMod q) = 0 := by
  simp [mul]

variable {point : P}

/-- On a killed element a multiple only depends on the residue class. -/
theorem natCast_mul (hkilled : q • point = 0) (n : ℕ) :
    mul point ((n : ℕ) : ZMod q) = n • point := by
  have hdvd : addOrderOf point ∣ q := addOrderOf_dvd_of_nsmul_eq_zero hkilled
  rw [mul, ZMod.val_natCast, nsmul_eq_nsmul_iff_modEq]
  exact (Nat.mod_modEq n q).of_dvd hdvd

variable [NeZero q]

theorem mul_add (hkilled : q • point = 0) (left right : ZMod q) :
    mul point (left + right) = mul point left + mul point right := by
  have hcast : left + right = ((left.val + right.val : ℕ) : ZMod q) := by
    simp
  rw [hcast, natCast_mul hkilled, add_nsmul, mul, mul]

theorem mul_mul (hkilled : q • point = 0) (left right : ZMod q) :
    mul (mul point left) right = mul point (left * right) := by
  have hcast : left * right = ((left.val * right.val : ℕ) : ZMod q) := by
    simp
  rw [hcast, natCast_mul hkilled, mul_nsmul, mul, mul]

/-- Summing residues and summing multiples of a killed element agree. -/
theorem mul_sum {A : Type v} (hkilled : q • point = 0) (xs : List A)
    (scalar : A → ZMod q) :
    mul point (xs.map scalar).sum =
      (xs.map fun x => mul point (scalar x)).sum := by
  induction xs with
  | nil => simp [mul_zero]
  | cons x rest ih =>
      simp only [List.map_cons, List.sum_cons, mul_add hkilled, ih]

/-- The subgroup of a killed element consists of its multiples by residues. -/
theorem mem_zmultiples_iff (hkilled : q • point = 0) {other : P} :
    other ∈ AddSubgroup.zmultiples point ↔
      ∃ scalar : ZMod q, mul point scalar = other := by
  constructor
  · intro hmem
    obtain ⟨k, rfl⟩ := AddSubgroup.mem_zmultiples_iff.mp hmem
    have hdvd : (addOrderOf point : ℤ) ∣ (((k : ZMod q).val : ℕ) : ℤ) - k := by
      have hcast : ((((k : ZMod q).val : ℕ) : ℤ) - k : ZMod q) = 0 := by simp
      have hq := (ZMod.intCast_zmod_eq_zero_iff_dvd _ q).mp
        (by exact_mod_cast hcast)
      exact (Int.natCast_dvd_natCast.mpr
        (addOrderOf_dvd_of_nsmul_eq_zero hkilled)).trans hq
    have hzero := addOrderOf_dvd_iff_zsmul_eq_zero.mp hdvd
    rw [sub_zsmul, ← sub_eq_add_neg, sub_eq_zero, natCast_zsmul] at hzero
    exact ⟨(k : ZMod q), hzero⟩
  · rintro ⟨scalar, rfl⟩
    exact AddSubgroup.nsmul_mem _ (AddSubgroup.mem_zmultiples point) _

/-- Distinct residues give distinct multiples of an element whose order is the
modulus. -/
theorem mul_injective (horder : addOrderOf point = q) :
    Function.Injective (mul point : ZMod q → P) := by
  intro left right heq
  have hmod : left.val ≡ right.val [MOD addOrderOf point] :=
    nsmul_eq_nsmul_iff_modEq.mp heq
  rw [horder] at hmod
  apply ZMod.val_injective q
  exact Nat.ModEq.eq_of_lt_of_lt hmod (ZMod.val_lt left) (ZMod.val_lt right)

end PrimeOrder
