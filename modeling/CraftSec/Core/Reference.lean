/-
Concrete instances of the external primitives: SHA-512 itself and a group with
the structure of the curve's.  The theorems do not depend on them; they show
that the parameters can be supplied and let the model run.
-/
import CraftSec.Core.Json

namespace CraftSec

namespace Sha512Reference

/-- The first 64 bits of the fractional parts of the cube roots of the first
eighty primes. -/
def roundConstants : List UInt64 :=
  [0x428a2f98d728ae22, 0x7137449123ef65cd, 0xb5c0fbcfec4d3b2f,
    0xe9b5dba58189dbbc, 0x3956c25bf348b538, 0x59f111f1b605d019,
    0x923f82a4af194f9b, 0xab1c5ed5da6d8118, 0xd807aa98a3030242,
    0x12835b0145706fbe, 0x243185be4ee4b28c, 0x550c7dc3d5ffb4e2,
    0x72be5d74f27b896f, 0x80deb1fe3b1696b1, 0x9bdc06a725c71235,
    0xc19bf174cf692694, 0xe49b69c19ef14ad2, 0xefbe4786384f25e3,
    0x0fc19dc68b8cd5b5, 0x240ca1cc77ac9c65, 0x2de92c6f592b0275,
    0x4a7484aa6ea6e483, 0x5cb0a9dcbd41fbd4, 0x76f988da831153b5,
    0x983e5152ee66dfab, 0xa831c66d2db43210, 0xb00327c898fb213f,
    0xbf597fc7beef0ee4, 0xc6e00bf33da88fc2, 0xd5a79147930aa725,
    0x06ca6351e003826f, 0x142929670a0e6e70, 0x27b70a8546d22ffc,
    0x2e1b21385c26c926, 0x4d2c6dfc5ac42aed, 0x53380d139d95b3df,
    0x650a73548baf63de, 0x766a0abb3c77b2a8, 0x81c2c92e47edaee6,
    0x92722c851482353b, 0xa2bfe8a14cf10364, 0xa81a664bbc423001,
    0xc24b8b70d0f89791, 0xc76c51a30654be30, 0xd192e819d6ef5218,
    0xd69906245565a910, 0xf40e35855771202a, 0x106aa07032bbd1b8,
    0x19a4c116b8d2d0c8, 0x1e376c085141ab53, 0x2748774cdf8eeb99,
    0x34b0bcb5e19b48a8, 0x391c0cb3c5c95a63, 0x4ed8aa4ae3418acb,
    0x5b9cca4f7763e373, 0x682e6ff3d6b2b8a3, 0x748f82ee5defb2fc,
    0x78a5636f43172f60, 0x84c87814a1f0ab72, 0x8cc702081a6439ec,
    0x90befffa23631e28, 0xa4506cebde82bde9, 0xbef9a3f7b2c67915,
    0xc67178f2e372532b, 0xca273eceea26619c, 0xd186b8c721c0c207,
    0xeada7dd6cde0eb1e, 0xf57d4f7fee6ed178, 0x06f067aa72176fba,
    0x0a637dc5a2c898a6, 0x113f9804bef90dae, 0x1b710b35131c471b,
    0x28db77f523047d84, 0x32caab7b40c72493, 0x3c9ebe0a15c9bebc,
    0x431d67c49c100d4c, 0x4cc5d4becb3e42b6, 0x597f299cfc657e2a,
    0x5fcb6fab3ad6faec, 0x6c44198c4a475817]

/-- The first 64 bits of the fractional parts of the square roots of the first
eight primes. -/
def initialHash : List UInt64 :=
  [0x6a09e667f3bcc908, 0xbb67ae8584caa73b, 0x3c6ef372fe94f82b,
    0xa54ff53a5f1d36f1, 0x510e527fade682d1, 0x9b05688c2b3e6c1f,
    0x1f83d9abfb41bd6b, 0x5be0cd19137e2179]


def rotateRight (word : UInt64) (count : UInt64) : UInt64 :=
  word >>> count ||| word <<< (64 - count)

def beWord (bytes : Bytes) : UInt64 :=
  bytes.foldl (fun word byte => word <<< 8 ||| byte.toUInt64) 0

def beBytes (word : UInt64) : Bytes :=
  ([56, 48, 40, 32, 24, 16, 8, 0] : List UInt64).map fun shift =>
    (word >>> shift).toUInt8

/-- Cut a list into `count` pieces of `size` elements. -/
def chunks {A : Type} (size : ℕ) : ℕ → List A → List (List A)
  | 0, _ => []
  | count + 1, xs => xs.take size :: chunks size count (xs.drop size)

/-- The message, a one bit, zeros, and the bit length in sixteen bytes. -/
def pad (message : Bytes) : Bytes :=
  let zeros := (128 - (message.length + 17) % 128) % 128
  message ++ 0x80 :: List.replicate (zeros + 8) 0 ++
    beBytes (UInt64.ofNat (8 * message.length))

/-- Extend the sixteen words of a block, newest first, to eighty. -/
def schedule : ℕ → List UInt64 → List UInt64
  | 0, words => words.reverse
  | rounds + 1, words =>
      let w15 := words.getD 14 0
      let w2 := words.getD 1 0
      let s0 := rotateRight w15 1 ^^^ rotateRight w15 8 ^^^ w15 >>> 7
      let s1 := rotateRight w2 19 ^^^ rotateRight w2 61 ^^^ w2 >>> 6
      schedule rounds
        ((words.getD 15 0 + s0 + words.getD 6 0 + s1) :: words)

/-- One round on the eight working variables. -/
def round (state : List UInt64) (input : UInt64 × UInt64) : List UInt64 :=
  match state with
  | [a, b, c, d, e, f, g, h] =>
      let s1 := rotateRight e 14 ^^^ rotateRight e 18 ^^^ rotateRight e 41
      let ch := (e &&& f) ^^^ (~~~e &&& g)
      let t1 := h + s1 + ch + input.1 + input.2
      let s0 := rotateRight a 28 ^^^ rotateRight a 34 ^^^ rotateRight a 39
      let maj := (a &&& b) ^^^ (a &&& c) ^^^ (b &&& c)
      [t1 + s0 + maj, a, b, c, d + t1, e, f, g]
  | state => state

def compressBlock (hash : List UInt64) (block : Bytes) : List UInt64 :=
  let words := (chunks 8 16 block).map beWord
  let final := (roundConstants.zip (schedule 64 words.reverse)).foldl round hash
  List.zipWith (· + ·) hash final

def digest (message : Bytes) : Bytes :=
  let padded := pad message
  ((chunks 128 (padded.length / 128) padded).foldl compressBlock
    initialHash).flatMap beBytes

example : (digest (utf8 "abc")).take 8 =
    [0xdd, 0xaf, 0x35, 0xa1, 0x93, 0x61, 0x7a, 0xba] := by
  decide +kernel

end Sha512Reference

/-- SHA-512 as the crate computes it. -/
@[reducible]
def sha512Reference : Sha512 where
  digest message :=
    let bytes := Sha512Reference.digest message
    Vector.ofFn fun i => bytes.getD i 0

/-- A cyclic group of order `8 * ell`, split into its prime part and its
torsion. -/
abbrev ReferencePoint := ZMod ell × ZMod 8

/-- A multiple of a point, by one multiplication in each part. -/
def ReferencePoint.multiple (n : ℕ) (point : ReferencePoint) :
    ReferencePoint :=
  ((n : ZMod ell) * point.1, (n : ZMod 8) * point.2)

theorem ReferencePoint.multiple_zero (point : ReferencePoint) :
    multiple 0 point = 0 := by
  simp [multiple]

theorem ReferencePoint.multiple_succ (n : ℕ) (point : ReferencePoint) :
    multiple (n + 1) point = multiple n point + point := by
  ext
  · simp [multiple, add_mul]
  · simp [multiple, add_mul]

@[reducible]
def ReferencePoint.addCommGroup : AddCommGroup ReferencePoint :=
  { (inferInstance : AddCommGroup (ZMod ell × ZMod 8)) with
    nsmul := ReferencePoint.multiple
    nsmul_zero := ReferencePoint.multiple_zero
    nsmul_succ := ReferencePoint.multiple_succ }

instance : EdwardsGroup ReferencePoint where
  toAddCommGroup := ReferencePoint.addCommGroup
  basepoint := (1, 0)
  compress point :=
    let bytes := leBytes 32 (8 * point.1.val + point.2.val)
    Vector.ofFn fun i => bytes.getD i 0
  addOrderOf_basepoint := by
    change @addOrderOf (ZMod ell × ZMod 8) _ (1, 0) = ell
    rw [Prod.addOrderOf, ZMod.addOrderOf_one, addOrderOf_zero, Nat.lcm_one_right]

/-- Equal compressed points are equal: 32 bytes hold both parts. -/
theorem ReferencePoint.compress_injective :
    Function.Injective
      (EdwardsGroup.compress : ReferencePoint → Vector UInt8 32) := by
  have hbytes : ∀ point : ReferencePoint,
      (EdwardsGroup.compress point).toList =
        leBytes 32 (8 * point.1.val + point.2.val) := by
    intro point
    change (Vector.ofFn fun i : Fin 32 =>
      (leBytes 32 (8 * point.1.val + point.2.val)).getD i 0).toList = _
    rw [Vector.toList_ofFn]
    apply List.ext_getElem
    · simp
    · intro i hi hi'
      rw [List.getElem_ofFn, List.getD_eq_getElem?_getD,
        List.getElem?_eq_getElem hi']
      rfl
  have hfits : ∀ point : ReferencePoint,
      8 * point.1.val + point.2.val < 256 ^ 32 := by
    intro point
    have hlarge := ZMod.val_lt point.1
    have hsmall := ZMod.val_lt point.2
    have hell : 8 * ell < 256 ^ 32 := by norm_num [ell]
    omega
  intro left right heq
  have hlists := congrArg Vector.toList heq
  rw [hbytes, hbytes] at hlists
  have hnat := leBytes_injOn (hfits left) (hfits right) hlists
  have hleft := ZMod.val_lt left.2
  have hright := ZMod.val_lt right.2
  apply Prod.ext
  · apply ZMod.val_injective
    omega
  · apply ZMod.val_injective
    omega

/-- Decimal forms of zero and one; the other floats keep their bits apart. -/
@[reducible]
def floatFormatReference : FloatFormat where
  formatFinite x :=
    if x.bits = 0 then utf8 "0.0"
    else if x.bits = 0x3ff0000000000000 then utf8 "1.0"
    else (Nat.toDigits 10 x.bits.toNat).map fun digit => UInt8.ofNat digit.toNat

end CraftSec
