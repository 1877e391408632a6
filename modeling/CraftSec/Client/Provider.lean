/-
The attestation provider that compute layers call, with its mock
implementation.  The mock vouches for an answer by a hash, so what an answer
commits to is what can be told from the hashed text.
-/
import CraftSec.Client.Messages
import CraftSec.Core.SigningBytes

namespace CraftSec

/-- Errors of attestation operations. -/
inductive AttestationError where
  | thresholdNotMet (need have' : UInt32)
  | programNotFound (program : String)
  | signingFailed (reason : String)
  | keyDerivationFailed (reason : String)
deriving DecidableEq

/-- The trait `AttestationProvider`, with the system's clock in milliseconds
since 1970 as an argument. -/
class AttestationProvider (T : Type) where
  attestExecution : T → ℤ → String → Bytes → Bytes →
    Except AttestationError ExecutionAttestation
  deriveProgramKey : T → String → Except AttestationError ProgramKey
  signAsProgram : T → String → Bytes → Except AttestationError ProgramSignature

/-- `ExecutionAttestation::verify_structure`. -/
def ExecutionAttestation.verifyStructure
    (attestation : ExecutionAttestation) : Bool :=
  !attestation.signature.isEmpty && !attestation.groupPublicKey.isEmpty

/-- `duration_since(UNIX_EPOCH).unwrap_or_default().as_millis() as u64`. -/
def timestampMs (now : ℤ) : UInt64 := .ofNat now.toNat

section Mock

variable [Sha256]

def hashBytes (data : Bytes) : Vector UInt8 32 := Sha256.digest data

/-- SHA-256 takes two different texts together. -/
def Collide (data data' : Bytes) : Prop :=
  data ≠ data' ∧ hashBytes data = hashBytes data'

theorem toList_digest_eq_iff (data data' : Bytes) :
    (Sha256.digest data).toList = (Sha256.digest data').toList ↔
      data = data' ∨ Collide data data' := by
  rw [Vector.toList_inj]
  constructor
  · intro hhash
    by_cases hsame : data = data'
    · exact Or.inl hsame
    · exact Or.inr ⟨hsame, hhash⟩
  · rintro (rfl | ⟨-, hhash⟩)
    · rfl
    · exact hhash

/-- The mock provider, whose threshold is never looked at. -/
structure MockAttestationProvider where
  threshold : UInt32
  total : UInt32

namespace MockAttestationProvider

/-- The text behind the signature of an attestation. -/
def attestationText (programCid : String)
    (inputHash outputHash : Vector UInt8 32) (timestampMs : UInt64) : Bytes :=
  ExecutionAttestation.signingBytes programCid inputHash outputHash
    timestampMs ++ utf8 "mock-secret"

/-- The text behind the key of a program. -/
def keyText (programCid : String) : Bytes :=
  utf8 "CraftSEC-PDK-mock" ++ utf8 programCid

/-- The text behind the signature of a program. -/
def signatureText (programCid : String) (message : Bytes) : Bytes :=
  utf8 "CraftSEC-ProgramSig-mock" ++ utf8 programCid ++ message

instance : AttestationProvider MockAttestationProvider where
  attestExecution _ now programCid input output :=
    let inputHash := hashBytes input
    let outputHash := hashBytes output
    let timestampMs := timestampMs now
    let sigInput := attestationText programCid inputHash outputHash timestampMs
    .ok { programCid, inputHash, outputHash, timestampMs
          signature := (Sha256.digest sigInput).toList
          groupPublicKey := (Sha256.digest (utf8 programCid)).toList }
  deriveProgramKey _ programCid :=
    .ok { programCid
          publicKey := (Sha256.digest (keyText programCid)).toList }
  signAsProgram _ programCid message :=
    .ok { programCid, message
          signature :=
            (Sha256.digest (signatureText programCid message)).toList }

end MockAttestationProvider

/-- A call to the provider. -/
inductive ProviderCall where
  | attestExecution (programCid : String) (input output : Bytes)
  | deriveProgramKey (programCid : String)
  | signAsProgram (programCid : String) (message : Bytes)

/-- What a call returns. -/
inductive ProviderAnswer where
  | attested (attestation : ExecutionAttestation)
  | derived (key : ProgramKey)
  | signed (signature : ProgramSignature)
deriving DecidableEq

def AttestationProvider.answer {T : Type} [AttestationProvider T]
    (provider : T) (now : ℤ) :
    ProviderCall → Except AttestationError ProviderAnswer
  | .attestExecution programCid input output =>
      .attested <$> attestExecution provider now programCid input output
  | .deriveProgramKey programCid =>
      .derived <$> deriveProgramKey provider programCid
  | .signAsProgram programCid message =>
      .signed <$> signAsProgram provider programCid message

namespace ProviderAnswer

open MockAttestationProvider

omit [Sha256] in
/-- The bytes that vouch for an answer. -/
def proof : ProviderAnswer → Bytes
  | .attested attestation => attestation.signature
  | .derived key => key.publicKey
  | .signed signature => signature.signature

omit [Sha256] in
/-- The text that the mock hashes for an answer. -/
def text : ProviderAnswer → Bytes
  | .attested attestation =>
      attestationText attestation.programCid attestation.inputHash
        attestation.outputHash attestation.timestampMs
  | .derived key => keyText key.programCid
  | .signed signature => signatureText signature.programCid signature.message

omit [Sha256] in
/-- How the text of an answer begins. -/
def tag : ProviderAnswer → Bytes
  | .attested _ => utf8 "CraftSEC-Ex"
  | .derived _ => utf8 "CraftSEC-PD"
  | .signed _ => utf8 "CraftSEC-Pr"

omit [Sha256] in
theorem take_text (answer : ProviderAnswer) :
    answer.text.take 11 = answer.tag := by
  cases answer with
  | attested attestation =>
      rw [text, attestationText, ExecutionAttestation.signingBytes]
      simp only [List.append_assoc]
      rw [List.take_append_of_le_length (by decide), tag]
      decide
  | derived key =>
      rw [text, keyText, List.take_append_of_le_length (by decide), tag]
      decide
  | signed signature =>
      rw [text, signatureText, List.append_assoc,
        List.take_append_of_le_length (by decide), tag]
      decide

/-- The answers of the mock, at whatever time. -/
def Issued (provider : MockAttestationProvider) (answer : ProviderAnswer) :
    Prop :=
  ∃ now call, AttestationProvider.answer provider now call = .ok answer

/-- Signatures of two programs with the same bytes after the tag, which are cut
into a name and a message at different places. -/
def CutElsewhere : ProviderAnswer → ProviderAnswer → Prop
  | .signed signature, .signed signature' =>
      signature.programCid ≠ signature'.programCid ∧
        utf8 signature.programCid ++ signature.message =
          utf8 signature'.programCid ++ signature'.message
  | _, _ => False

/-- Each answer is vouched for by the hash of its text, an attestation also by
that of the program's name. -/
theorem Issued.vouched {provider : MockAttestationProvider}
    {answer : ProviderAnswer} (hissued : answer.Issued provider) :
    answer.proof = (Sha256.digest answer.text).toList ∧
      ∀ attestation, answer = .attested attestation →
        attestation.groupPublicKey =
          (Sha256.digest (utf8 attestation.programCid)).toList := by
  obtain ⟨now, call, hanswer⟩ := hissued
  cases call with
  | attestExecution programCid input output =>
      cases hanswer
      refine ⟨rfl, ?_⟩
      intro attestation hattestation
      cases hattestation
      rfl
  | deriveProgramKey programCid =>
      cases hanswer
      exact ⟨rfl, fun _ hattestation => nomatch hattestation⟩
  | signAsProgram programCid message =>
      cases hanswer
      exact ⟨rfl, fun _ hattestation => nomatch hattestation⟩

/-- No attestation lacks its two hashes. -/
theorem Issued.verifyStructure {provider : MockAttestationProvider}
    {attestation : ExecutionAttestation}
    (hissued : (ProviderAnswer.attested attestation).Issued provider) :
    attestation.verifyStructure = true := by
  obtain ⟨hproof, hgroup⟩ := hissued.vouched
  have hhash : ∀ data : Bytes,
      (Sha256.digest data).toList.isEmpty = false := by
    intro data
    rw [List.isEmpty_eq_false_iff, ← List.length_pos_iff,
      Vector.length_toList]
    decide
  have hsignature : attestation.signature =
      (Sha256.digest (attested attestation).text).toList := hproof
  rw [ExecutionAttestation.verifyStructure, hsignature, hgroup attestation rfl,
    hhash, hhash]
  rfl

omit [Sha256] in
theorem text_signed_eq_iff (signature signature' : ProgramSignature) :
    (signed signature).text = (signed signature').text ↔
      utf8 signature.programCid ++ signature.message =
        utf8 signature'.programCid ++ signature'.message := by
  rw [text, text, signatureText, signatureText, List.append_assoc,
    List.append_assoc, List.append_cancel_left_eq]

/-- Answers with one text are the same answer, or two signatures that are cut
at different places. -/
theorem Issued.text_eq_iff {provider : MockAttestationProvider}
    {answer answer' : ProviderAnswer} (hissued : answer.Issued provider)
    (hissued' : answer'.Issued provider) :
    answer.text = answer'.text ↔
      answer = answer' ∨ answer.CutElsewhere answer' := by
  have hkey : utf8 "CraftSEC-Ex" ≠ utf8 "CraftSEC-PD" := by decide
  have hsign : utf8 "CraftSEC-Ex" ≠ utf8 "CraftSEC-Pr" := by decide
  have hkeySign : utf8 "CraftSEC-PD" ≠ utf8 "CraftSEC-Pr" := by decide
  constructor
  · intro htext
    obtain ⟨hproof, hgroup⟩ := hissued.vouched
    obtain ⟨hproof', hgroup'⟩ := hissued'.vouched
    have hsame : answer.proof = answer'.proof := by
      rw [hproof, hproof', htext]
    have htag : answer.tag = answer'.tag := by
      rw [← take_text, ← take_text, htext]
    cases answer with
    | attested attestation =>
        cases answer' with
        | attested attestation' =>
            obtain ⟨hcid, hinput, houtput, htime⟩ :=
              ExecutionAttestation.signingBytes_injective
                (List.append_cancel_right htext)
            have hgroups : attestation.groupPublicKey =
                attestation'.groupPublicKey := by
              rw [hgroup _ rfl, hgroup' _ rfl, hcid]
            cases attestation
            cases attestation'
            cases hcid
            cases hinput
            cases houtput
            cases htime
            cases hgroups
            cases hsame
            exact Or.inl rfl
        | derived key => exact absurd htag hkey
        | signed signature => exact absurd htag hsign
    | derived key =>
        cases answer' with
        | attested attestation => exact absurd htag.symm hkey
        | derived key' =>
            have hcid : key.programCid = key'.programCid :=
              utf8_injective (List.append_cancel_left htext)
            cases key
            cases key'
            cases hcid
            cases hsame
            exact Or.inl rfl
        | signed signature => exact absurd htag hkeySign
    | signed signature =>
        cases answer' with
        | attested attestation => exact absurd htag.symm hsign
        | derived key => exact absurd htag.symm hkeySign
        | signed signature' =>
            have hbytes := (text_signed_eq_iff signature signature').mp htext
            by_cases hcid : signature.programCid = signature'.programCid
            · have hmessage : signature.message = signature'.message := by
                rwa [hcid, List.append_cancel_left_eq] at hbytes
              cases signature
              cases signature'
              cases hcid
              cases hmessage
              cases hsame
              exact Or.inl rfl
            · exact Or.inr ⟨hcid, hbytes⟩
  · rintro (rfl | hcut)
    · rfl
    · cases answer with
      | attested attestation => exact absurd hcut id
      | derived key => exact absurd hcut id
      | signed signature =>
          cases answer' with
          | attested attestation => exact absurd hcut id
          | derived key => exact absurd hcut id
          | signed signature' =>
              exact (text_signed_eq_iff signature signature').mpr hcut.2

/-- Two answers are vouched for by the same bytes exactly if they are the same
answer, or two signatures that are cut at different places, or SHA-256 takes
their texts together.  The group key of an attestation is the key of a program
exactly if the first program is named like the text behind the key, or SHA-256
takes the two together. -/
theorem provider_proof_shared_iff {provider : MockAttestationProvider}
    {answer answer' : ProviderAnswer} (hissued : answer.Issued provider)
    (hissued' : answer'.Issued provider) :
    (answer.proof = answer'.proof ↔
      answer = answer' ∨ answer.CutElsewhere answer' ∨
        Collide answer.text answer'.text) ∧
    ∀ attestation key, answer = .attested attestation →
      answer' = .derived key →
      (attestation.groupPublicKey = key.publicKey ↔
        attestation.programCid = "CraftSEC-PDK-mock" ++ key.programCid ∨
          Collide (utf8 attestation.programCid) answer'.text) := by
  obtain ⟨hproof, hgroup⟩ := hissued.vouched
  have hproof' := hissued'.vouched.1
  constructor
  · rw [hproof, hproof', toList_digest_eq_iff, hissued.text_eq_iff hissued',
      or_assoc]
  · rintro attestation key hattested rfl
    have hkey : key.publicKey =
        (Sha256.digest (derived key).text).toList := hproof'
    have hname : utf8 attestation.programCid = (derived key).text ↔
        attestation.programCid = "CraftSEC-PDK-mock" ++ key.programCid := by
      rw [text, keyText, ← utf8_append, utf8_injective.eq_iff]
    rw [hgroup attestation hattested, hkey, toList_digest_eq_iff, hname]

omit [Sha256] in
/-- Two programs that sign different messages with the same bytes. -/
theorem provider_proof_shared_cut :
    letI : Sha256 := ⟨fun data => .ofFn fun i => data.getD i 0⟩
    let provider : MockAttestationProvider := ⟨2, 3⟩
    ∃ answer answer',
      AttestationProvider.answer provider 0
          (.signAsProgram "Qm_transfer" (utf8 "2 units")) = .ok answer ∧
        AttestationProvider.answer provider 0
          (.signAsProgram "Qm_transfer2" (utf8 " units")) = .ok answer' ∧
        answer ≠ answer' ∧ answer.proof = answer'.proof := by
  let _ : Sha256 := ⟨fun data => .ofFn fun i => data.getD i 0⟩
  intro provider
  let first := ProviderCall.signAsProgram "Qm_transfer" (utf8 "2 units")
  let second := ProviderCall.signAsProgram "Qm_transfer2" (utf8 " units")
  obtain ⟨answer, hanswer⟩ :
      ∃ answer, AttestationProvider.answer provider 0 first = .ok answer :=
    ⟨_, rfl⟩
  obtain ⟨answer', hanswer'⟩ :
      ∃ answer', AttestationProvider.answer provider 0 second = .ok answer' :=
    ⟨_, rfl⟩
  have hcut : answer.CutElsewhere answer' := by
    cases hanswer
    cases hanswer'
    constructor
    · decide
    · decide +kernel
  have hdiffer : answer ≠ answer' := by
    rintro rfl
    cases hanswer
    exact hcut.1 rfl
  exact ⟨answer, answer', hanswer, hanswer', hdiffer,
    (provider_proof_shared_iff ⟨0, first, hanswer⟩
      ⟨0, second, hanswer'⟩).1.mpr (Or.inr (Or.inl hcut))⟩

end ProviderAnswer

end Mock

end CraftSec
