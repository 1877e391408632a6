/-
The order of the prime subgroup of edwards25519.  curve25519-dalek reduces
every `Scalar` modulo this number, so its primality is what makes the scalars
a field.
-/
import CraftSec.Lib.Lucas
import Mathlib.Tactic.NormNum.Prime
import Mathlib.Tactic.ReduceModChar

namespace CraftSec

/-- The group order `ℓ` of RFC 8032, the modulus of every `Scalar`. -/
def ell : ℕ := 2 ^ 252 + 27742317777372353535851937790883648493

private theorem prime_292386187 :
    Nat.Prime 292386187 := by
  apply LucasTest.prime_of_factors _ 2
    [2, 3, 3, 3, 3, 307, 5879]
  · simp only [List.mem_cons, List.not_mem_nil, or_false, forall_eq_or_imp,
      forall_eq]
    norm_num
  · norm_num
  · norm_num
    reduce_mod_char
  · simp only [List.mem_cons, List.not_mem_nil, or_false, forall_eq_or_imp,
      forall_eq]
    norm_num
    reduce_mod_char
    decide

private theorem prime_213441916511 :
    Nat.Prime 213441916511 := by
  apply LucasTest.prime_of_factors _ 13
    [2, 5, 73, 292386187]
  · simp only [List.mem_cons, List.not_mem_nil, or_false, forall_eq_or_imp,
      forall_eq]
    exact ⟨by norm_num, by norm_num, by norm_num, prime_292386187⟩
  · norm_num
  · norm_num
    reduce_mod_char
  · simp only [List.mem_cons, List.not_mem_nil, or_false, forall_eq_or_imp,
      forall_eq]
    norm_num
    reduce_mod_char
    decide

private theorem prime_3044861653679985063343 :
    Nat.Prime 3044861653679985063343 := by
  apply LucasTest.prime_of_factors _ 5
    [2, 3, 11, 30703, 82163, 132667, 137849]
  · simp only [List.mem_cons, List.not_mem_nil, or_false, forall_eq_or_imp,
      forall_eq]
    norm_num
  · norm_num
  · norm_num
    reduce_mod_char
  · simp only [List.mem_cons, List.not_mem_nil, or_false, forall_eq_or_imp,
      forall_eq]
    norm_num
    reduce_mod_char
    decide

private theorem prime_14741173 :
    Nat.Prime 14741173 := by
  apply LucasTest.prime_of_factors _ 2
    [2, 2, 3, 3, 409477]
  · simp only [List.mem_cons, List.not_mem_nil, or_false, forall_eq_or_imp,
      forall_eq]
    norm_num
  · norm_num
  · norm_num
    reduce_mod_char
  · simp only [List.mem_cons, List.not_mem_nil, or_false, forall_eq_or_imp,
      forall_eq]
    norm_num
    reduce_mod_char
    decide

private theorem prime_58964693 :
    Nat.Prime 58964693 := by
  apply LucasTest.prime_of_factors _ 2
    [2, 2, 14741173]
  · simp only [List.mem_cons, List.not_mem_nil, or_false, forall_eq_or_imp,
      forall_eq]
    exact ⟨by norm_num, by norm_num, prime_14741173⟩
  · norm_num
  · norm_num
    reduce_mod_char
  · simp only [List.mem_cons, List.not_mem_nil, or_false, forall_eq_or_imp,
      forall_eq]
    norm_num
    reduce_mod_char
    decide

private theorem prime_198211423230930754013084525763697 :
    Nat.Prime 198211423230930754013084525763697 := by
  apply LucasTest.prime_of_factors _ 5
    [2, 2, 2, 2, 3, 23, 58964693, 3044861653679985063343]
  · simp only [List.mem_cons, List.not_mem_nil, or_false, forall_eq_or_imp,
      forall_eq]
    exact ⟨by norm_num, by norm_num, by norm_num, by norm_num, by norm_num,
      by norm_num, prime_58964693, prime_3044861653679985063343⟩
  · norm_num
  · norm_num
    reduce_mod_char
  · simp only [List.mem_cons, List.not_mem_nil, or_false, forall_eq_or_imp,
      forall_eq]
    norm_num
    reduce_mod_char
    decide

private theorem prime_1257559732178653 :
    Nat.Prime 1257559732178653 := by
  apply LucasTest.prime_of_factors _ 2
    [2, 2, 3, 7, 23, 531581, 1224481]
  · simp only [List.mem_cons, List.not_mem_nil, or_false, forall_eq_or_imp,
      forall_eq]
    norm_num
  · norm_num
  · norm_num
    reduce_mod_char
  · simp only [List.mem_cons, List.not_mem_nil, or_false, forall_eq_or_imp,
      forall_eq]
    norm_num
    reduce_mod_char
    decide

private theorem prime_4434155615661930479 :
    Nat.Prime 4434155615661930479 := by
  apply LucasTest.prime_of_factors _ 17
    [2, 41, 43, 1257559732178653]
  · simp only [List.mem_cons, List.not_mem_nil, or_false, forall_eq_or_imp,
      forall_eq]
    exact ⟨by norm_num, by norm_num, by norm_num, prime_1257559732178653⟩
  · norm_num
  · norm_num
    reduce_mod_char
  · simp only [List.mem_cons, List.not_mem_nil, or_false, forall_eq_or_imp,
      forall_eq]
    norm_num
    reduce_mod_char
    decide

private theorem prime_172054593956031949258510691 :
    Nat.Prime 172054593956031949258510691 := by
  apply LucasTest.prime_of_factors _ 2
    [2, 5, 1361, 2851, 4434155615661930479]
  · simp only [List.mem_cons, List.not_mem_nil, or_false, forall_eq_or_imp,
      forall_eq]
    exact ⟨by norm_num, by norm_num, by norm_num, by norm_num,
      prime_4434155615661930479⟩
  · norm_num
  · norm_num
    reduce_mod_char
  · simp only [List.mem_cons, List.not_mem_nil, or_false, forall_eq_or_imp,
      forall_eq]
    norm_num
    reduce_mod_char
    decide

private theorem prime_19757330305831588566944191468367130476339 :
    Nat.Prime 19757330305831588566944191468367130476339 := by
  apply LucasTest.prime_of_factors _ 2
    [2, 269, 213441916511, 172054593956031949258510691]
  · simp only [List.mem_cons, List.not_mem_nil, or_false, forall_eq_or_imp,
      forall_eq]
    exact ⟨by norm_num, by norm_num, prime_213441916511,
      prime_172054593956031949258510691⟩
  · norm_num
  · norm_num
    reduce_mod_char
  · simp only [List.mem_cons, List.not_mem_nil, or_false, forall_eq_or_imp,
      forall_eq]
    norm_num
    reduce_mod_char
    decide

private theorem prime_276602624281642239937218680557139826668747 :
    Nat.Prime 276602624281642239937218680557139826668747 := by
  apply LucasTest.prime_of_factors _ 2
    [2, 7, 19757330305831588566944191468367130476339]
  · simp only [List.mem_cons, List.not_mem_nil, or_false, forall_eq_or_imp,
      forall_eq]
    exact ⟨by norm_num, by norm_num,
      prime_19757330305831588566944191468367130476339⟩
  · norm_num
  · norm_num
    reduce_mod_char
  · simp only [List.mem_cons, List.not_mem_nil, or_false, forall_eq_or_imp,
      forall_eq]
    norm_num
    reduce_mod_char
    decide

private theorem prime_7237005577332262213973186563042994240857116359379907606001950938285454250989 :
    Nat.Prime 7237005577332262213973186563042994240857116359379907606001950938285454250989 := by
  apply LucasTest.prime_of_factors _ 2
    [2, 2, 3, 11, 198211423230930754013084525763697,
      276602624281642239937218680557139826668747]
  · simp only [List.mem_cons, List.not_mem_nil, or_false, forall_eq_or_imp,
      forall_eq]
    exact ⟨by norm_num, by norm_num, by norm_num, by norm_num,
      prime_198211423230930754013084525763697,
      prime_276602624281642239937218680557139826668747⟩
  · norm_num
  · norm_num
    reduce_mod_char
  · simp only [List.mem_cons, List.not_mem_nil, or_false, forall_eq_or_imp,
      forall_eq]
    norm_num
    reduce_mod_char
    decide

/-- The order of the prime subgroup is prime. -/
theorem ell_prime : ell.Prime := by
  have hell : ell =
      7237005577332262213973186563042994240857116359379907606001950938285454250989 := by
    norm_num [ell]
  rw [hell]
  exact prime_7237005577332262213973186563042994240857116359379907606001950938285454250989

end CraftSec
