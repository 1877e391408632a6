/-
Polynomials over a field as coefficient lists, their evaluation by a running
power, and interpolation at zero from a list of distinct nodes.
-/
import Mathlib.Algebra.Group.ForwardDiff
import Mathlib.Algebra.Polynomial.BigOperators
import Mathlib.Algebra.Polynomial.Degree.Lemmas
import Mathlib.LinearAlgebra.Lagrange

namespace Interpolation

open Polynomial

universe u v w

section PowerLoop

variable {F : Type u} [CommSemiring F] {A : Type v} {M : Type w}

/-- The accumulation loop shared by evaluation and by commitment checks: the
running result is paired with the running power of the node. -/
def powerLoop [Zero M] [Add M] (act : A → F → M) (node : F)
    (coefficients : List A) : M :=
  (coefficients.foldl
    (fun state coefficient =>
      (state.1 + act coefficient state.2, state.2 * node))
    ((0 : M), (1 : F))).1

/-- The sum the loop adds to its result when it starts at the power `power`. -/
def powerSum [Zero M] [Add M] (act : A → F → M) (node : F) : F → List A → M
  | _, [] => 0
  | power, coefficient :: rest =>
      act coefficient power + powerSum act node (power * node) rest

variable [AddCommMonoid M]

theorem foldl_eq_add_powerSum (act : A → F → M) (node : F) (result : M)
    (power : F) (coefficients : List A) :
    (coefficients.foldl
      (fun state coefficient =>
        (state.1 + act coefficient state.2, state.2 * node))
      (result, power)).1 = result + powerSum act node power coefficients := by
  induction coefficients generalizing result power with
  | nil => simp [powerSum]
  | cons coefficient rest ih =>
      rw [List.foldl_cons, ih, powerSum, add_assoc]

theorem powerLoop_eq_powerSum (act : A → F → M) (node : F)
    (coefficients : List A) :
    powerLoop act node coefficients = powerSum act node 1 coefficients := by
  rw [powerLoop, foldl_eq_add_powerSum, zero_add]

/-- The loop as a sum over the positions of the list. -/
theorem powerLoop_ofFn (act : A → F → M) (node : F) {size : ℕ}
    (coefficient : Fin size → A) :
    powerLoop act node (List.ofFn coefficient) =
      ∑ k : Fin size, act (coefficient k) (node ^ (k : ℕ)) := by
  have hshifted : ∀ power : F,
      powerSum act node power (List.ofFn coefficient) =
        ∑ k : Fin size, act (coefficient k) (power * node ^ (k : ℕ)) := by
    induction size with
    | zero => simp [powerSum]
    | succ size ih =>
        intro power
        rw [List.ofFn_succ, powerSum, ih, Fin.sum_univ_succ]
        simp only [Fin.val_zero, pow_zero, mul_one, Fin.val_succ, pow_succ',
          mul_assoc]
  rw [powerLoop_eq_powerSum, hshifted]
  simp only [one_mul]

/-- An additive map that carries products to actions carries the whole loop. -/
theorem powerLoop_map (hom : F → M) (hzero : hom 0 = 0)
    (hadd : ∀ left right, hom (left + right) = hom left + hom right)
    (act : M → F → M)
    (hact : ∀ coefficient power,
      act (hom coefficient) power = hom (coefficient * power))
    (node : F) (coefficients : List F) :
    powerLoop act node (coefficients.map hom) =
      hom (powerLoop (· * ·) node coefficients) := by
  rw [powerLoop_eq_powerSum, powerLoop_eq_powerSum]
  generalize (1 : F) = power
  induction coefficients generalizing power with
  | nil => exact hzero.symm
  | cons coefficient rest ih =>
      rw [List.map_cons, powerSum, powerSum, hact, ih, hadd]

end PowerLoop

section Coefficients

variable {F : Type u} [Field F]

/-- The polynomial with the listed coefficients, lowest degree first. -/
noncomputable def ofCoeffs : List F → F[X]
  | [] => 0
  | coefficient :: rest => C coefficient + X * ofCoeffs rest

/-- The running-power loop evaluates the listed polynomial. -/
theorem powerLoop_eq_eval (node : F) (coefficients : List F) :
    powerLoop (· * ·) node coefficients = (ofCoeffs coefficients).eval node := by
  rw [powerLoop_eq_powerSum]
  have hscaled : ∀ power : F, powerSum (· * ·) node power coefficients =
      power * (ofCoeffs coefficients).eval node := by
    induction coefficients with
    | nil => simp [powerSum, ofCoeffs]
    | cons coefficient rest ih =>
        intro power
        rw [powerSum, ih]
        simp only [ofCoeffs, eval_add, eval_C, eval_mul, eval_X]
        ring
  rw [hscaled, one_mul]

theorem coeff_ofCoeffs (coefficients : List F) (position : ℕ) :
    (ofCoeffs coefficients).coeff position = coefficients.getD position 0 := by
  induction coefficients generalizing position with
  | nil => simp [ofCoeffs]
  | cons coefficient rest ih =>
      cases position with
      | zero => simp [ofCoeffs]
      | succ position => simp [ofCoeffs, ih]

/-- A listed polynomial has fewer terms than coefficients. -/
theorem degree_ofCoeffs_lt (coefficients : List F) :
    (ofCoeffs coefficients).degree < coefficients.length := by
  rw [degree_lt_iff_coeff_zero]
  intro position hposition
  rw [coeff_ofCoeffs]
  simp [List.getD_eq_getElem?_getD, hposition]

@[simp]
theorem eval_zero_ofCoeffs_cons (coefficient : F) (rest : List F) :
    (ofCoeffs (coefficient :: rest)).eval 0 = coefficient := by
  simp [ofCoeffs]

/-- Adding coefficients position by position adds the polynomials. -/
theorem ofCoeffs_ofFn_add {size : ℕ} (left right : Fin size → F) :
    ofCoeffs (List.ofFn fun k => left k + right k) =
      ofCoeffs (List.ofFn left) + ofCoeffs (List.ofFn right) := by
  induction size with
  | zero => simp [ofCoeffs]
  | succ size ih =>
      rw [List.ofFn_succ, List.ofFn_succ, List.ofFn_succ, ofCoeffs, ofCoeffs,
        ofCoeffs, ih, C_add]
      ring

/-- A polynomial of small degree is the one listed by its own coefficients. -/
theorem ofCoeffs_ofFn_coeff {size : ℕ} {polynomial : F[X]}
    (hdegree : polynomial.degree < size) :
    ofCoeffs (List.ofFn fun k : Fin size => polynomial.coeff k) =
      polynomial := by
  ext position
  rw [coeff_ofCoeffs]
  by_cases hposition : position < size
  · simp [List.getD_eq_getElem?_getD, hposition]
  · have hvanish := (degree_lt_iff_coeff_zero polynomial size).mp hdegree
      position (Nat.le_of_not_lt hposition)
    simp [List.getD_eq_getElem?_getD, hposition, hvanish]

/-- The same for a polynomial without constant term, listed from its linear
coefficient on. -/
theorem ofCoeffs_zero_cons_coeff {size : ℕ} {polynomial : F[X]}
    (hdegree : polynomial.degree < (size + 1 : ℕ))
    (hzero : polynomial.coeff 0 = 0) :
    ofCoeffs (0 :: List.ofFn fun k : Fin size => polynomial.coeff (k + 1)) =
      polynomial := by
  have hlisted := ofCoeffs_ofFn_coeff hdegree
  rwa [List.ofFn_succ, Fin.val_zero, hzero] at hlisted

theorem ofCoeffs_ofFn_zero (size : ℕ) :
    ofCoeffs (List.ofFn fun _ : Fin size => (0 : F)) = 0 := by
  have hdegree : (0 : F[X]).degree < size := by
    rw [degree_zero]
    exact WithBot.bot_lt_coe size
  exact ofCoeffs_ofFn_coeff hdegree

/-- Polynomials of bounded degree are closed under finite sums. -/
theorem degree_sum_lt {bound : ℕ} (summands : List F[X])
    (hdegree : ∀ summand ∈ summands, summand.degree < bound) :
    summands.sum.degree < bound := by
  rw [← mem_degreeLT]
  apply list_sum_mem
  intro summand hsummand
  exact mem_degreeLT.mpr (hdegree summand hsummand)

end Coefficients

section Weights

variable {F : Type u} [Field F] {ι : Type v} [DecidableEq ι]

/-- The weight of node `i` in the interpolation at zero from `nodes`. -/
def zeroWeight (value : ι → F) (i : ι) (nodes : List ι) : F :=
  ((nodes.filter fun j => j ≠ i).map fun j =>
    value j / (value j - value i)).prod

/-- No weight vanishes at distinct nodes other than zero. -/
theorem zeroWeight_ne_zero (value : ι → F) {nodes : List ι} {i : ι}
    (hne : ∀ j ∈ nodes, value j ≠ 0)
    (hinj : ∀ j ∈ nodes, value j = value i → j = i) :
    zeroWeight value i nodes ≠ 0 := by
  apply List.prod_ne_zero
  intro hzero
  obtain ⟨j, hj, hfactor⟩ := List.mem_map.mp hzero
  obtain ⟨hmem, hij⟩ := List.mem_filter.mp hj
  rcases div_eq_zero_iff.mp hfactor with hnum | hden
  · exact hne j hmem hnum
  · have hsame := hinj j hmem (sub_eq_zero.mp hden)
    simp [hsame] at hij

theorem zeroWeight_eq_eval_basis (value : ι → F) {nodes : List ι}
    (hnodup : nodes.Nodup) (i : ι) :
    zeroWeight value i nodes =
      (Lagrange.basis nodes.toFinset value i).eval 0 := by
  have hfactor : ∀ j : ι,
      (Lagrange.basisDivisor (value i) (value j)).eval 0 =
        value j / (value j - value i) := by
    intro j
    rw [Lagrange.basisDivisor, eval_mul, eval_C, eval_sub, eval_X, eval_C,
      ← neg_sub (value j) (value i), inv_neg, zero_sub, neg_mul_neg, mul_comm,
      div_eq_mul_inv]
  have herase : nodes.toFinset.erase i =
      (nodes.filter fun j => j ≠ i).toFinset := by
    ext j
    simp [and_comm]
  rw [Lagrange.basis, eval_prod, herase,
    List.prod_toFinset _ (hnodup.filter _), zeroWeight]
  simp only [hfactor]

/-- Interpolation at zero: a polynomial with fewer terms than there are
distinct nodes is recovered from its values at the nodes. -/
theorem sum_zeroWeight_mul_eval (value : ι → F) {nodes : List ι}
    (hnodup : nodes.Nodup) (hinj : Set.InjOn value {i | i ∈ nodes})
    {polynomial : F[X]} (hdegree : polynomial.degree < nodes.length) :
    (nodes.map fun i =>
      zeroWeight value i nodes * polynomial.eval (value i)).sum =
      polynomial.eval 0 := by
  have hcard : nodes.toFinset.card = nodes.length :=
    List.toFinset_card_of_nodup hnodup
  have hinj' : Set.InjOn value (nodes.toFinset : Set ι) := by
    intro i hi j hj heq
    exact hinj (by simpa using hi) (by simpa using hj) heq
  have hinterpolate := Lagrange.eq_interpolate hinj' (by rwa [hcard])
  calc (nodes.map fun i =>
        zeroWeight value i nodes * polynomial.eval (value i)).sum
      = ∑ i ∈ nodes.toFinset,
          zeroWeight value i nodes * polynomial.eval (value i) := by
        rw [List.sum_toFinset _ hnodup]
    _ = (Lagrange.interpolate nodes.toFinset value
          fun i => polynomial.eval (value i)).eval 0 := by
        rw [Lagrange.interpolate_apply, eval_finsetSum]
        apply Finset.sum_congr rfl
        intro i _
        rw [eval_mul, eval_C, zeroWeight_eq_eval_basis value hnodup, mul_comm]
    _ = polynomial.eval 0 := by rw [← hinterpolate]

/-- The nodes `1, .., size` interpolate at zero with integer weights: the
alternating binomial coefficients of the highest difference that vanishes. -/
theorem exists_integer_zeroWeights (size : ℕ) :
    ∃ weight : ℕ → ℤ, ∀ k < size,
      ∑ j ∈ Finset.range size, weight j * ((j + 1 : ℕ) : ℤ) ^ k =
        if k = 0 then 1 else 0 := by
  let sign : ℤ := (-1) ^ size
  refine ⟨fun j => - sign * ((-1) ^ (size - (j + 1)) * size.choose (j + 1)),
    fun k hk => ?_⟩
  have hdifference := congrFun (fwdDiff_iter_pow_eq_zero_of_lt (R := ℤ) hk) 0
  rw [fwdDiff_iter_eq_sum_shift, Finset.sum_range_succ'] at hdifference
  simp only [zero_add, smul_eq_mul, nsmul_eq_mul, mul_one, Pi.zero_apply,
    Nat.sub_zero, Nat.choose_zero_right, Nat.cast_one] at hdifference
  have hsign : sign * sign = 1 := by
    rw [← mul_pow, neg_one_mul, neg_neg, one_pow]
  calc ∑ j ∈ Finset.range size, - sign *
        ((-1) ^ (size - (j + 1)) * size.choose (j + 1)) *
          ((j + 1 : ℕ) : ℤ) ^ k
      = - sign * ∑ j ∈ Finset.range size,
          (-1) ^ (size - (j + 1)) * size.choose (j + 1) *
            ((j + 1 : ℕ) : ℤ) ^ k := by
        rw [Finset.mul_sum]
        simp only [mul_assoc]
    _ = - sign * - (sign * ((0 : ℕ) : ℤ) ^ k) := by
        rw [eq_neg_of_add_eq_zero_left hdifference]
    _ = if k = 0 then 1 else 0 := by
        rw [neg_mul_neg, ← mul_assoc, hsign, one_mul, Nat.cast_zero,
          zero_pow_eq]

end Weights

section Exactness

variable {F : Type u} [Field F] {ι : Type v} [DecidableEq ι]

/-- With as many nodes as the degree, interpolation misses the value at zero
by the leading coefficient times the product of the nodes. -/
theorem sum_zeroWeight_mul_eval_of_degree_le (value : ι → F) {nodes : List ι}
    (hnodup : nodes.Nodup) (hinj : Set.InjOn value {i | i ∈ nodes})
    {polynomial : F[X]} (hdegree : polynomial.degree ≤ nodes.length) :
    (nodes.map fun i =>
      zeroWeight value i nodes * polynomial.eval (value i)).sum =
      polynomial.eval 0 -
        polynomial.coeff nodes.length * (nodes.map fun i => - value i).prod := by
  have hcard : nodes.toFinset.card = nodes.length :=
    List.toFinset_card_of_nodup hnodup
  let nodal := Lagrange.nodal nodes.toFinset value
  have hnodal : nodal.degree = nodes.length := by
    rw [← hcard]
    exact Lagrange.degree_nodal
  have hmonic : nodal.coeff nodes.length = 1 := by
    rw [← natDegree_eq_of_degree_eq_some hnodal]
    exact Lagrange.nodal_monic.coeff_natDegree
  -- subtracting the leading term at the nodes leaves the values unchanged
  let rest := polynomial - C (polynomial.coeff nodes.length) * nodal
  have hrest : rest.degree < nodes.length := by
    rw [degree_lt_iff_coeff_zero]
    intro position hposition
    rw [coeff_sub, coeff_C_mul]
    rcases Nat.eq_or_lt_of_le hposition with heq | hlt
    · rw [← heq, hmonic, mul_one, sub_self]
    · have hbeyond : ∀ other : F[X], other.degree ≤ nodes.length →
          other.coeff position = 0 := by
        intro other hother
        exact coeff_eq_zero_of_degree_lt
          (lt_of_le_of_lt hother (by exact_mod_cast hlt))
      rw [hbeyond polynomial hdegree, hbeyond nodal hnodal.le, mul_zero,
        sub_self]
  have hvalues : ∀ i ∈ nodes,
      rest.eval (value i) = polynomial.eval (value i) := by
    intro i hi
    have hvanish : nodal.eval (value i) = 0 :=
      Lagrange.eval_nodal_at_node (by simpa using hi)
    rw [eval_sub, eval_mul, hvanish, mul_zero, sub_zero]
  have hzero : nodal.eval 0 = (nodes.map fun i => - value i).prod := by
    rw [Lagrange.eval_nodal, List.prod_toFinset _ hnodup]
    simp only [zero_sub]
  calc (nodes.map fun i =>
        zeroWeight value i nodes * polynomial.eval (value i)).sum
      = (nodes.map fun i =>
          zeroWeight value i nodes * rest.eval (value i)).sum := by
        congr 1
        apply List.map_congr_left
        intro i hi
        rw [hvalues i hi]
    _ = rest.eval 0 := sum_zeroWeight_mul_eval value hnodup hinj hrest
    _ = polynomial.eval 0 -
          polynomial.coeff nodes.length *
            (nodes.map fun i => - value i).prod := by
        rw [eval_sub, eval_mul, eval_C, hzero]

/-- One node too few never recovers the value at zero. -/
theorem sum_zeroWeight_mul_eval_ne (value : ι → F) {nodes : List ι}
    (hnodup : nodes.Nodup) (hinj : Set.InjOn value {i | i ∈ nodes})
    (hne : ∀ i ∈ nodes, value i ≠ 0) {polynomial : F[X]}
    (hdegree : polynomial.degree = nodes.length) :
    (nodes.map fun i =>
      zeroWeight value i nodes * polynomial.eval (value i)).sum ≠
      polynomial.eval 0 := by
  rw [sum_zeroWeight_mul_eval_of_degree_le value hnodup hinj hdegree.le,
    Ne, sub_eq_self]
  apply mul_ne_zero
  · exact coeff_ne_zero_of_eq_degree hdegree
  · apply List.prod_ne_zero
    intro hzero
    obtain ⟨i, hi, heq⟩ := List.mem_map.mp hzero
    exact hne i hi (neg_eq_zero.mp heq)

/-- Taking the values of `left` at some of the nodes and those of `right` at the
others misses the value of `right` at zero by the interpolated difference. -/
theorem sum_zeroWeight_mul_mixed (value : ι → F) {nodes : List ι}
    (hnodup : nodes.Nodup) (hinj : Set.InjOn value {i | i ∈ nodes})
    (left : F[X]) {right : F[X]} (hdegree : right.degree < nodes.length)
    (p : ι → Prop) [DecidablePred p] :
    (nodes.map fun i => zeroWeight value i nodes *
        if p i then left.eval (value i) else right.eval (value i)).sum =
      right.eval 0 - ((nodes.filter p).map fun i =>
        zeroWeight value i nodes * (right - left).eval (value i)).sum := by
  have hinterpolate := sum_zeroWeight_mul_eval value hnodup hinj hdegree
  rw [← List.sum_map_filter_add_sum_map_filter_not p] at hinterpolate
  have hdifference : ((nodes.filter p).map fun i =>
      zeroWeight value i nodes * right.eval (value i)).sum =
      ((nodes.filter p).map fun i =>
        zeroWeight value i nodes * (right - left).eval (value i)).sum +
        ((nodes.filter p).map fun i =>
          zeroWeight value i nodes * left.eval (value i)).sum := by
    rw [← List.sum_map_add]
    simp only [eval_sub, mul_sub, sub_add_cancel]
  simp only [mul_ite]
  rw [List.sum_map_ite, ← hinterpolate, hdifference]
  ring

/-- Exchanging the last node: two polynomials that agree at the first nodes
and have the same interpolated value agree at the last one as well. -/
theorem eval_eq_of_interpolated_eq (value : ι → F) {nodes : List ι} {i : ι}
    (hinj : Set.InjOn value {j | j ∈ i :: nodes})
    (hne : ∀ j ∈ i :: nodes, value j ≠ 0) {left right : F[X]}
    (hagree : ∀ j ∈ nodes, left.eval (value j) = right.eval (value j))
    (hsum : ((i :: nodes).map fun j =>
        zeroWeight value j (i :: nodes) * left.eval (value j)).sum =
      ((i :: nodes).map fun j =>
        zeroWeight value j (i :: nodes) * right.eval (value j)).sum) :
    left.eval (value i) = right.eval (value i) := by
  have htail : (nodes.map fun j =>
      zeroWeight value j (i :: nodes) * left.eval (value j)) =
      nodes.map fun j =>
        zeroWeight value j (i :: nodes) * right.eval (value j) := by
    apply List.map_congr_left
    intro j hj
    rw [hagree j hj]
  rw [List.map_cons, List.map_cons, List.sum_cons, List.sum_cons, htail,
    add_left_inj] at hsum
  apply mul_left_cancel₀ _ hsum
  apply zeroWeight_ne_zero value hne
  intro j hj heq
  exact hinj hj List.mem_cons_self heq

/-- A polynomial of low degree with the same values at zero and at few other
points. -/
theorem exists_low_degree_agreeing (polynomial : F[X]) (points : List F) :
    ∃ guess : F[X], guess.degree < (points.length + 1 : ℕ) ∧
      guess.eval 0 = polynomial.eval 0 ∧
      ∀ x ∈ points, guess.eval x = polynomial.eval x := by
  classical
  let support := insert 0 points.toFinset
  have hcard : support.card ≤ points.length + 1 := by
    have hinsert := Finset.card_insert_le (0 : F) points.toFinset
    exact le_trans hinsert (Nat.succ_le_succ points.toFinset_card_le)
  have heval : ∀ x ∈ support,
      (Lagrange.interpolate support id fun y => polynomial.eval y).eval x =
        polynomial.eval x :=
    fun x hx => Lagrange.eval_interpolate_at_node (v := id) _
      (Set.injOn_id _) hx
  refine ⟨_, lt_of_lt_of_le
    (Lagrange.degree_interpolate_lt _ (Set.injOn_id _))
    (by exact_mod_cast hcard), heval 0 (Finset.mem_insert_self _ _), ?_⟩
  intro x hx
  exact heval x (Finset.mem_insert_of_mem (List.mem_toFinset.mpr hx))

/-- Polynomials that agree at zero and at more nodes than their degrees are
equal. -/
theorem eq_of_agree_at_zero_and_nodes (value : ι → F) {nodes : List ι}
    (hnodup : nodes.Nodup) (hinj : Set.InjOn value {i | i ∈ nodes})
    (hne : ∀ i ∈ nodes, value i ≠ 0) {left right : F[X]}
    (hleft : left.degree ≤ nodes.length)
    (hright : right.degree ≤ nodes.length)
    (hzero : left.eval 0 = right.eval 0)
    (hagree : ∀ i ∈ nodes, left.eval (value i) = right.eval (value i)) :
    left = right := by
  classical
  have hcard : (insert 0 (nodes.toFinset.image value)).card =
      nodes.length + 1 := by
    rw [Finset.card_insert_of_notMem, Finset.card_image_of_injOn,
      List.toFinset_card_of_nodup hnodup]
    · intro i hi j hj
      exact hinj (by simpa using hi) (by simpa using hj)
    · intro hmem
      obtain ⟨i, hi, heq⟩ := Finset.mem_image.mp hmem
      exact hne i (List.mem_toFinset.mp hi) heq
  have hbound : ∀ {other : F[X]}, other.degree ≤ nodes.length →
      other.degree < (insert 0 (nodes.toFinset.image value)).card := by
    intro other hother
    rw [hcard]
    exact lt_of_le_of_lt hother (by exact_mod_cast Nat.lt_succ_self _)
  apply eq_of_degrees_lt_of_eval_finset_eq _ (hbound hleft) (hbound hright)
  intro x hx
  rcases Finset.mem_insert.mp hx with rfl | hx
  · exact hzero
  · obtain ⟨i, hi, rfl⟩ := Finset.mem_image.mp hx
    exact hagree i (List.mem_toFinset.mp hi)

/-- The converse of interpolation: when every choice of `count` nodes from a
pool recovers the value at zero, the degree is below `count`, unless it exceeds
the size of the pool. -/
theorem degree_lt_of_forall_interpolated (value : ι → F) {pool : List ι}
    (hnodup : pool.Nodup) (hinj : Set.InjOn value {i | i ∈ pool})
    (hne : ∀ i ∈ pool, value i ≠ 0) {polynomial : F[X]}
    (hdegree : polynomial.degree ≤ pool.length) {count : ℕ}
    (hpos : 1 ≤ count) (hcount : count ≤ pool.length)
    (hrecover : ∀ nodes : List ι, nodes.Nodup → (∀ i ∈ nodes, i ∈ pool) →
      nodes.length = count →
      (nodes.map fun i =>
        zeroWeight value i nodes * polynomial.eval (value i)).sum =
        polynomial.eval 0) :
    polynomial.degree < count := by
  let first := pool.take (count - 1)
  have hlength : first.length = count - 1 := by
    rw [List.length_take]
    omega
  obtain ⟨guess, hguess, hzero, hagree⟩ :=
    exists_low_degree_agreeing polynomial (first.map value)
  rw [List.length_map, hlength, Nat.sub_add_cancel hpos] at hguess
  have hfirst : ∀ i ∈ first,
      guess.eval (value i) = polynomial.eval (value i) :=
    fun i hi => hagree _ (List.mem_map_of_mem hi)
  -- any further node can stand behind the first ones
  have hpool : ∀ i ∈ pool, guess.eval (value i) = polynomial.eval (value i) := by
    intro i hi
    by_cases hmem : i ∈ first
    · exact hfirst i hmem
    · have hcons : ∀ j ∈ i :: first, j ∈ pool := by
        intro j hj
        rcases List.mem_cons.mp hj with rfl | hj
        · exact hi
        · exact List.mem_of_mem_take hj
      have hchoice : (i :: first).Nodup :=
        List.nodup_cons.mpr ⟨hmem, hnodup.sublist (List.take_sublist _ _)⟩
      have hsize : (i :: first).length = count := by
        rw [List.length_cons, hlength, Nat.sub_add_cancel hpos]
      have hinj' : Set.InjOn value {j | j ∈ i :: first} := hinj.mono hcons
      apply eval_eq_of_interpolated_eq value hinj'
        (fun j hj => hne j (hcons j hj)) hfirst
      rw [hrecover _ hchoice hcons hsize,
        sum_zeroWeight_mul_eval value hchoice hinj' (by rwa [hsize]), hzero]
  have hsame : guess = polynomial :=
    eq_of_agree_at_zero_and_nodes value hnodup hinj hne
      (le_trans hguess.le (by exact_mod_cast hcount)) hdegree hzero hpool
  rwa [← hsame]

end Exactness

section Masks

variable {F : Type u} [Field F]

/-- The polynomial that vanishes on `nodes` and takes the value `delta` at
zero. -/
noncomputable def mask (delta : F) (nodes : Finset F) : F[X] :=
  C (delta / (Lagrange.nodal nodes id).eval 0) * Lagrange.nodal nodes id

theorem eval_mask_node (delta : F) {nodes : Finset F} {node : F}
    (hnode : node ∈ nodes) : (mask delta nodes).eval node = 0 := by
  rw [mask, eval_mul]
  have hvanish := Lagrange.eval_nodal_at_node (v := id) hnode
  rw [id] at hvanish
  rw [hvanish, mul_zero]

theorem eval_mask_zero (delta : F) {nodes : Finset F} (hzero : 0 ∉ nodes) :
    (mask delta nodes).eval 0 = delta := by
  have hne : (Lagrange.nodal nodes id).eval (0 : F) ≠ 0 := by
    apply Lagrange.eval_nodal_not_at_node
    intro node hnode heq
    exact hzero (heq ▸ hnode)
  rw [mask, eval_mul, eval_C, div_mul_cancel₀ _ hne]

theorem degree_mask_le (delta : F) (nodes : Finset F) :
    (mask delta nodes).degree ≤ nodes.card := by
  have hconst := degree_C_le (a := delta / (Lagrange.nodal nodes id).eval 0)
  have hnodal : (Lagrange.nodal nodes (id : F → F)).degree ≤ nodes.card :=
    Lagrange.degree_nodal.le
  simpa [mask] using degree_mul_le_of_le hconst hnodal

end Masks

end Interpolation
