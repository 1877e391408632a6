/-
Lucas' primality test against a listed factorisation.  A candidate is prime as
soon as one residue has full multiplicative order, and the order is full as
soon as no listed prime factor of the predecessor can be divided out.
-/
import Mathlib.NumberTheory.LucasPrimality

namespace LucasTest

/-- `candidate` is prime when `base` is a primitive root whose order is
certified by the prime factors of `candidate - 1`. -/
theorem prime_of_factors (candidate : ℕ) (base : ZMod candidate)
    (factors : List ℕ) (hprime : ∀ factor ∈ factors, factor.Prime)
    (hprod : factors.prod = candidate - 1)
    (hfull : base ^ (candidate - 1) = 1)
    (hpart : ∀ factor ∈ factors, base ^ ((candidate - 1) / factor) ≠ 1) :
    candidate.Prime := by
  refine lucas_primality candidate base hfull ?_
  intro divisor hdivisor hdvd
  rw [← hprod] at hdvd
  obtain ⟨factor, hfactor, hdiv⟩ := (Prime.dvd_prod_iff hdivisor.prime).mp hdvd
  rw [(Nat.prime_dvd_prime_iff_eq hdivisor (hprime factor hfactor)).mp hdiv]
  exact hpart factor hfactor

end LucasTest
