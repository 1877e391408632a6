/-
Answers that hide a secret behind nonces.  A question is answered with a linear
function of the nonce plus a multiple of the secret, over any field and any
space of nonces.  What a set of answers says about the secret is all or
nothing, and which of the two is a condition on the questions alone.
-/
import Mathlib

namespace MaskedAnswers

universe u v w

variable {K : Type u} [Field K] {M : Type v} [AddCommGroup M] [Module K M]

/-- How a nonce and the secret enter an answer. -/
structure Question (K : Type u) [Field K] (M : Type v) [AddCommGroup M]
    [Module K M] where
  mask : M →ₗ[K] K
  weight : K

def Question.answer (question : Question K M) (nonce : M) (secret : K) : K :=
  question.mask nonce + question.weight * secret

/-- The answered questions, by the name of the nonce that was used. -/
abbrev Transcript (κ : Type w) (K : Type u) [Field K] (M : Type v)
    [AddCommGroup M] [Module K M] :=
  κ → Question K M → K → Prop

variable {κ : Type w} (transcript : Transcript κ K M)

/-- The answers are what the secret gives under some nonces. -/
def Fits (secret : K) : Prop :=
  ∃ nonces : κ → M, ∀ k question answer, transcript k question answer →
    question.answer (nonces k) secret = answer

/-- A change of the nonce makes up for any change of the secret. -/
def Blinded (k : κ) : Prop :=
  ∃ shift : M, ∀ question answer, transcript k question answer →
    question.mask shift = question.weight

variable {transcript} {secret : K}

theorem Fits.of_blinded (hfits : Fits transcript secret)
    (hblinded : ∀ k, Blinded transcript k) (other : K) :
    Fits transcript other := by
  obtain ⟨nonces, hnonces⟩ := hfits
  choose shift hshift using hblinded
  refine ⟨fun k => nonces k + (secret - other) • shift k, ?_⟩
  intro k question answer hanswer
  have hmask := hshift k question answer hanswer
  rw [← hnonces k question answer hanswer, Question.answer, Question.answer,
    map_add, map_smul, hmask, smul_eq_mul]
  ring

/-- Two secrets behind the same answers blind every nonce. -/
theorem Fits.blinded_of_ne (hfits : Fits transcript secret) {other : K}
    (hother : Fits transcript other) (hne : other ≠ secret) (k : κ) :
    Blinded transcript k := by
  obtain ⟨nonces, hnonces⟩ := hfits
  obtain ⟨others, hothers⟩ := hother
  refine ⟨(other - secret)⁻¹ • (nonces k - others k), ?_⟩
  intro question answer hanswer
  have hown := hnonces k question answer hanswer
  have hsame := hothers k question answer hanswer
  rw [Question.answer] at hown hsame
  have hdifference : question.mask (nonces k) - question.mask (others k) =
      (other - secret) * question.weight := by
    linear_combination hown - hsame
  rw [map_smul, map_sub, hdifference, smul_eq_mul,
    inv_mul_cancel_left₀ (sub_ne_zero.mpr hne)]

/-- Either the answers fit the one secret they were made with, or they fit
every secret. -/
theorem fits_iff (hfits : Fits transcript secret) (other : K) :
    Fits transcript other ↔
      other = secret ∨ ∀ k, Blinded transcript k := by
  constructor
  · intro hother
    by_cases heq : other = secret
    · exact Or.inl heq
    · exact Or.inr fun k => hfits.blinded_of_ne hother heq k
  · rintro (rfl | hblinded)
    · exact hfits
    · exact hfits.of_blinded hblinded other

/-- Two answers with one mask under one nonce differ by the secret only. -/
theorem sub_eq_of_same_mask {first second : Question K M}
    (hmask : first.mask = second.mask) (nonce : M) (secret : K) :
    first.answer nonce secret - second.answer nonce secret =
      (first.weight - second.weight) * secret := by
  rw [Question.answer, Question.answer, hmask]
  ring

section Pairs

/-- A nonce pair of which the second part is multiplied by a known factor. -/
def pairQuestion (factor weight : K) : Question K (K × K) where
  mask := LinearMap.fst K K K + factor • LinearMap.snd K K K
  weight := weight

@[simp]
theorem pairQuestion_mask (factor weight : K) (nonce : K × K) :
    (pairQuestion factor weight).mask nonce = nonce.1 + factor * nonce.2 := by
  simp [pairQuestion]

@[simp]
theorem pairQuestion_weight (factor weight : K) :
    (pairQuestion factor weight).weight = weight := rfl

end Pairs

end MaskedAnswers
