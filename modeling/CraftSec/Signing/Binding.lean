/-
What the binding factor commits to.  Its input has no separator between the
message and the commitments, so it fixes them up to commitments moved from the
front of the list to the end of the message.
-/
import CraftSec.Core.Reference
import CraftSec.Lib.FixedWidth
import CraftSec.Signing.Frost

namespace CraftSec

theorem ParticipantIndex.toLeBytes_injective :
    Function.Injective ParticipantIndex.toLeBytes := by
  intro i j heq
  apply UInt32.toNat_inj.mp
  exact leBytes_injOn i.toNat_lt j.toNat_lt heq

variable {P : Type} [EdwardsGroup P]

theorem SigningCommitment.length_toBytes (c : SigningCommitment P) :
    c.toBytes.length = 68 := by
  simp [SigningCommitment.toBytes, ParticipantIndex.toLeBytes]

theorem SigningCommitment.toBytes_injective
    (hcompress : Function.Injective
      (EdwardsGroup.compress : P → Vector UInt8 32)) :
    Function.Injective (SigningCommitment.toBytes : SigningCommitment P → _) := by
  rintro ⟨index, hidingPoint, binding⟩ ⟨index', hidingPoint', binding'⟩ heq
  obtain ⟨hfront, hlast⟩ := List.append_inj' heq (by simp)
  obtain ⟨hfirst, hmiddle⟩ := List.append_inj' hfront (by simp)
  have hindex := ParticipantIndex.toLeBytes_injective hfirst
  have hhiding := hcompress (Vector.toList_inj.mp hmiddle)
  have hbinding := hcompress (Vector.toList_inj.mp hlast)
  simp only at hindex hhiding hbinding
  rw [hindex, hhiding, hbinding]

/-- Exactly which sessions share an input of the binding factor. -/
theorem bindingInput_eq_iff
    (hcompress : Function.Injective
      (EdwardsGroup.compress : P → Vector UInt8 32))
    (i i' : ParticipantIndex) (message message' : Bytes)
    (commitments commitments' : List (SigningCommitment P)) :
    bindingInput i message commitments =
        bindingInput i' message' commitments' ↔
      i = i' ∧ ∃ moved : List (SigningCommitment P),
        (message = message' ++ moved.flatMap SigningCommitment.toBytes ∧
          commitments' = moved ++ commitments) ∨
        (message' = message ++ moved.flatMap SigningCommitment.toBytes ∧
          commitments = moved ++ commitments') := by
  have htail := FixedWidth.append_flatMap_eq_iff
    SigningCommitment.length_toBytes
    (SigningCommitment.toBytes_injective hcompress) message message'
    commitments commitments'
  rw [bindingInput, bindingInput, List.append_assoc, List.append_assoc,
    ← htail]
  constructor
  · intro heq
    obtain ⟨hindex, hrest⟩ := List.append_inj heq
      (by simp [ParticipantIndex.toLeBytes])
    exact ⟨ParticipantIndex.toLeBytes_injective hindex, hrest⟩
  · rintro ⟨rfl, hrest⟩
    rw [hrest]

/-- Commitments were moved from the front of one list to the end of the other
session's message. -/
def CommitmentsMoved (message message' : Bytes)
    (commitments commitments' : List (SigningCommitment P)) : Prop :=
  ∃ moved : List (SigningCommitment P), moved ≠ [] ∧
    message = message' ++ moved.flatMap SigningCommitment.toBytes ∧
    commitments' = moved ++ commitments

/-- The input determines the session exactly when it is not a session with the
same index in which commitments were moved into the message, or out of it. -/
theorem binding_commits_to_session_iff
    (hcompress : Function.Injective
      (EdwardsGroup.compress : P → Vector UInt8 32))
    (i i' : ParticipantIndex) (message message' : Bytes)
    (commitments commitments' : List (SigningCommitment P)) :
    (bindingInput i message commitments =
        bindingInput i' message' commitments' →
      i = i' ∧ message = message' ∧ commitments = commitments') ↔
      ¬ (i = i' ∧
        (CommitmentsMoved message message' commitments commitments' ∨
          CommitmentsMoved message' message commitments' commitments)) := by
  rw [bindingInput_eq_iff hcompress]
  constructor
  · rintro hdetermined ⟨rfl, hmoved⟩
    rcases hmoved with ⟨moved, hne, hmessage, hlist⟩ |
      ⟨moved, hne, hmessage, hlist⟩
    · obtain ⟨-, -, hsame⟩ :=
        hdetermined ⟨rfl, moved, Or.inl ⟨hmessage, hlist⟩⟩
      rw [hsame, List.self_eq_append_left] at hlist
      exact hne hlist
    · obtain ⟨-, -, hsame⟩ :=
        hdetermined ⟨rfl, moved, Or.inr ⟨hmessage, hlist⟩⟩
      rw [← hsame, List.self_eq_append_left] at hlist
      exact hne hlist
  · rintro hmoved ⟨rfl, moved, hcases⟩
    have hnil : moved = [] := by
      by_contra hne
      apply hmoved
      refine ⟨rfl, ?_⟩
      rcases hcases with ⟨hmessage, hlist⟩ | ⟨hmessage, hlist⟩
      · exact Or.inl ⟨moved, hne, hmessage, hlist⟩
      · exact Or.inr ⟨moved, hne, hmessage, hlist⟩
    rcases hcases with ⟨hmessage, hlist⟩ | ⟨hmessage, hlist⟩
    · rw [hnil] at hmessage hlist
      exact ⟨rfl, by simpa using hmessage, by simpa using hlist.symm⟩
    · rw [hnil] at hmessage hlist
      exact ⟨rfl, by simpa using hmessage.symm, by simpa using hlist⟩

omit [EdwardsGroup P] in
/-- Lists of equal length leave no room for moved commitments, so the order of
the list is committed to. -/
theorem binding_commits_to_session_reordered :
    bindingInput 1 (utf8 "m")
        [⟨1, ((2, 0) : ReferencePoint), (3, 0)⟩, ⟨2, (4, 0), (5, 0)⟩] ≠
      bindingInput 1 (utf8 "m")
        [⟨2, ((4, 0) : ReferencePoint), (5, 0)⟩, ⟨1, (2, 0), (3, 0)⟩] := by
  intro hinput
  have hsame := (binding_commits_to_session_iff
    ReferencePoint.compress_injective _ _ _ _ _ _).mpr ?_ hinput
  · have hindex := congrArg (List.map SigningCommitment.index) hsame.2.2
    revert hindex
    decide
  · rintro ⟨-, ⟨moved, hne, -, hlist⟩ | ⟨moved, hne, -, hlist⟩⟩
    · have hlength := congrArg List.length hlist
      simp [hne] at hlength
    · have hlength := congrArg List.length hlist
      simp [hne] at hlength

omit [EdwardsGroup P] in
/-- The first of two commitments is read as the message of the other
session. -/
theorem binding_input_collision :
    Function.Injective
        (EdwardsGroup.compress : ReferencePoint → Vector UInt8 32) ∧
      ∃ first second : SigningCommitment ReferencePoint,
        bindingInput 1 [] [first, second] =
            bindingInput 1 first.toBytes [second] ∧
          ([] : Bytes) ≠ first.toBytes ∧
          [first, second] ≠ [second] := by
  refine ⟨ReferencePoint.compress_injective, ⟨1, (2, 0), (3, 0)⟩,
    ⟨2, (4, 0), (5, 0)⟩, ?_, ?_, ?_⟩
  · simp [bindingInput]
  · intro hnil
    have hlength := congrArg List.length hnil
    rw [SigningCommitment.length_toBytes] at hlength
    cases hlength
  · intro hlist
    cases hlist

end CraftSec
