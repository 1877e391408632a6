/-
The external primitives under the protocol: the scalar field, the curve
group, the hash and the byte source.  The field is concrete; the curve group
and SHA-512 belong to other crates and enter as parameters.
-/
import CraftSec.Core.GroupOrder
import CraftSec.Lib.PrimeOrder
import Mathlib.Data.Vector.Basic

namespace CraftSec

instance : Fact ell.Prime := ⟨ell_prime⟩

/-- `Scalar`, the integers modulo the group order. -/
abbrev Scalar := ZMod ell

abbrev Bytes := List UInt8

/-- The natural number written in little-endian bytes. -/
def leNat : Bytes → ℕ
  | [] => 0
  | byte :: rest => byte.toNat + 256 * leNat rest

/-- The `width` low bytes of a natural number, little endian. -/
def leBytes : ℕ → ℕ → Bytes
  | 0, _ => []
  | width + 1, n => UInt8.ofNat n :: leBytes width (n / 256)

@[simp]
theorem leBytes_length (width n : ℕ) : (leBytes width n).length = width := by
  induction width generalizing n with
  | zero => rfl
  | succ width ih => simp [leBytes, ih]

theorem leNat_leBytes (width n : ℕ) :
    leNat (leBytes width n) = n % 256 ^ width := by
  induction width generalizing n with
  | zero => simp [leBytes, leNat, Nat.mod_one]
  | succ width ih =>
      have hbyte : (UInt8.ofNat n).toNat = n % 256 := UInt8.toNat_ofNat'
      rw [leBytes, leNat, ih, hbyte, pow_succ, mul_comm (256 ^ width),
        Nat.mod_mul]

/-- Numbers that fit are determined by their bytes. -/
theorem leBytes_injOn {width left right : ℕ} (hleft : left < 256 ^ width)
    (hright : right < 256 ^ width)
    (heq : leBytes width left = leBytes width right) : left = right := by
  have hnat := congrArg leNat heq
  rwa [leNat_leBytes, leNat_leBytes, Nat.mod_eq_of_lt hleft,
    Nat.mod_eq_of_lt hright] at hnat

/-- `Scalar::from_bytes_mod_order_wide`. -/
def fromBytesModOrderWide (bytes : Vector UInt8 64) : Scalar :=
  (leNat bytes.toList : ℕ)

/-- curve25519-dalek's group of points: an abelian group whose basepoint has
order `ell`.  Points outside the basepoint's subgroup are not excluded. -/
class EdwardsGroup (P : Type) extends AddCommGroup P where
  basepoint : P
  compress : P → Vector UInt8 32
  addOrderOf_basepoint : addOrderOf basepoint = ell

/-- sha2's `Sha512::digest`. -/
class Sha512 where
  digest : Bytes → Vector UInt8 64

/-- The bytes a generator has yet to produce. -/
abbrev Rng := ℕ → UInt8

/-- `RngCore::fill_bytes` on a buffer of `size` bytes. -/
def fillBytes (size : ℕ) (rng : Rng) : Vector UInt8 size × Rng :=
  (Vector.ofFn fun i => rng i, fun i => rng (i + size))

/-- `random_scalar`. -/
def randomScalar (rng : Rng) : Scalar × Rng :=
  let (bytes, rng) := fillBytes 64 rng
  (fromBytesModOrderWide bytes, rng)

/-- `hash_to_scalar`. -/
def hashToScalar [Sha512] (data : Bytes) : Scalar :=
  fromBytesModOrderWide (Sha512.digest data)

section Points

variable {P : Type} [EdwardsGroup P]

/-- `point * scalar`.  dalek multiplies by the scalar's canonical integer. -/
def pointMul (point : P) (scalar : Scalar) : P := PrimeOrder.mul point scalar

/-- `ED25519_BASEPOINT_POINT * scalar`. -/
def basepointMul (scalar : Scalar) : P :=
  pointMul EdwardsGroup.basepoint scalar

theorem ell_nsmul_basepoint : ell • (EdwardsGroup.basepoint : P) = 0 := by
  rw [← EdwardsGroup.addOrderOf_basepoint (P := P)]
  exact addOrderOf_nsmul_eq_zero _

@[simp]
theorem basepointMul_zero : basepointMul (P := P) 0 = 0 :=
  PrimeOrder.mul_zero _

theorem basepointMul_add (left right : Scalar) :
    basepointMul (P := P) (left + right) =
      basepointMul left + basepointMul right :=
  PrimeOrder.mul_add ell_nsmul_basepoint left right

theorem pointMul_basepointMul (left right : Scalar) :
    pointMul (basepointMul (P := P) left) right =
      basepointMul (left * right) :=
  PrimeOrder.mul_mul ell_nsmul_basepoint left right

theorem basepointMul_sum {A : Type} (xs : List A) (scalar : A → Scalar) :
    basepointMul (P := P) (xs.map scalar).sum =
      (xs.map fun x => basepointMul (scalar x)).sum :=
  PrimeOrder.mul_sum ell_nsmul_basepoint xs scalar

/-- The points of the basepoint's subgroup have a discrete logarithm. -/
theorem mem_zmultiples_basepoint_iff {point : P} :
    point ∈ AddSubgroup.zmultiples (EdwardsGroup.basepoint : P) ↔
      ∃ scalar : Scalar, basepointMul scalar = point :=
  PrimeOrder.mem_zmultiples_iff ell_nsmul_basepoint

/-- Discrete logarithms to the basepoint are unique. -/
theorem basepointMul_injective :
    Function.Injective (basepointMul : Scalar → P) :=
  PrimeOrder.mul_injective EdwardsGroup.addOrderOf_basepoint

end Points

/-- Participant indices stay distinct as scalars. -/
theorem natCast_scalar_injOn {left right : ℕ} (hleft : left < ell)
    (hright : right < ell) (heq : (left : Scalar) = right) : left = right := by
  have hmod := (ZMod.natCast_eq_natCast_iff left right ell).mp heq
  exact Nat.ModEq.eq_of_lt_of_lt hmod hleft hright

theorem two_pow_32_lt_ell : 2 ^ 32 < ell := by
  norm_num [ell]

end CraftSec
