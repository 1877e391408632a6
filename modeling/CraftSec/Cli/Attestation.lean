/-
What the CLI promises about a program.  The key it prints for a program is the
key that its attestations verify under, and an attestation succeeds exactly
when the arguments are JSON that the transfer validator accepts.
-/
import CraftSec.Cli.Commands

open scoped Polynomial

namespace CraftSec

section Keys

variable (P : Type) [EdwardsGroup P] [Sha512]

/-- The derived key is shared by a polynomial of degree at most one. -/
theorem exists_deriveCliKey (programCid seed : String) :
    ∃ F : Scalar[X], F.degree < (2 : ℕ) ∧
      deriveCliKey P programCid seed =
        .ok (basepointMul (F.eval 0), shareVector F 3) := by
  have hderive := deriveKey_eq_ok (P := P) programCid seed
    (show 1 ≤ (⟨2, 3⟩ : ThresholdConfig).threshold.toNat by decide)
  have hconfig : ThresholdConfig.new 2 3 = .ok ⟨2, 3⟩ := rfl
  refine ⟨_, degree_derivePolynomial_lt programCid seed 2, ?_⟩
  rw [deriveCliKey, hconfig]
  simp only [hderive]
  rfl

variable {P}

/-- The commands that print the program's main key print this one. -/
structure PrintedKey [Sha256] (programCid : String) (key : P) : Prop where
  info : ∃ output, cmdInfo P programCid = .ok output ∧
    s!"  Public Key:       {pointHex key}" ∈ output.stdout
  keys : ∃ output, cmdKeys P programCid = .ok output ∧
    s!"  [main] {pointHex key}" ∈ output.stdout
  deploy : ∀ wasmFile, computeCid (utf8 wasmFile) = programCid →
    ∃ output, cmdDeploy P wasmFile = .ok output ∧
      s!"  Public Key: {pointHex key}" ∈ output.stdout

theorem printedKey_of_derived [Sha256] {programCid : String} {key : P}
    {shares : List (KeyShare P)}
    (hderive : deriveCliKey P programCid "main" = .ok (key, shares)) :
    PrintedKey programCid key where
  info := by
    refine ⟨_, by rw [cmdInfo, hderive]; rfl, ?_⟩
    simp [CommandOutput.success]
  keys := by
    obtain ⟨F, -, hescrow⟩ := exists_deriveCliKey P programCid "escrow"
    obtain ⟨F', -, htreasury⟩ := exists_deriveCliKey P programCid "treasury"
    refine ⟨_, by
      rw [cmdKeys, List.mapM_cons, List.mapM_cons, List.mapM_cons,
        List.mapM_nil, hderive, hescrow, htreasury]
      rfl, ?_⟩
    have hseed : ("  [main] " : String) = "  [" ++ "main" ++ "] " := by decide
    change "  [main] " ++ pointHex key ∈ _
    rw [hseed]
    exact List.mem_cons_of_mem _ List.mem_cons_self
  deploy := by
    rintro wasmFile rfl
    refine ⟨_, by rw [cmdDeploy, hderive]; rfl, ?_⟩
    simp [CommandOutput.success]

end Keys

section Client

variable {P : Type} [EdwardsGroup P] {F : Scalar[X]}

/-- The client of the command is a deployment in order. -/
theorem inOrder_cliClient (programCid : String)
    (hdegree : F.degree < (2 : ℕ)) (rng : Rng) :
    (cliClient programCid (basepointMul (F.eval 0) : P) (shareVector F 3)
      rng).InOrder where
  sharing := by
    refine ⟨F, hdegree, ?_, rfl⟩
    have hshares : (cliClient programCid (basepointMul (F.eval 0) : P)
        (shareVector F 3) rng).transport.nodes.map CraftSecNode.keyShare =
        shareVector F 3 := by
      change ((shareVector F 3).map _).map _ = _
      rw [List.map_map]
      exact List.map_id _
    rw [hshares]
    exact isSharing_shareVector F (by decide)
  index_eq := by
    intro node hnode cid
    obtain ⟨share, -, rfl⟩ := List.mem_map.mp hnode
    rfl
  nodeCount := by
    change 3 = ((shareVector (P := P) F 3).map _).length
    rw [List.length_map, shareVector_length]
  positive := by
    change 1 ≤ (2 : UInt32).toNat
    decide
  nonempty := by
    change (shareVector (P := P) F 3).map _ ≠ []
    rw [← List.length_pos_iff, List.length_map, shareVector_length]
    decide

end Client

section Outcomes

/-- The transaction that the validator makes of the command's request. -/
def cliVerdict (programCid : String) (args : Json) (number : UInt32) :
    Option Transaction :=
  match transferValidator (cliRequest programCid args number) with
  | .ok (.valid tx) => some tx
  | _ => none

variable [SerdeJson]

/-- The same from the text of the arguments. -/
def cliTransaction (programCid argsJson : String) (number : UInt32) :
    Option Transaction :=
  match SerdeJson.fromStr argsJson with
  | .error _ => none
  | .ok args => cliVerdict programCid args number

/-- What the command prints when it does not attest.  The reasons of the nodes
are not among it. -/
def cliFailure (argsJson : String) : CommandOutput :=
  match SerdeJson.fromStr argsJson with
  | .error e => .failure s!"Invalid JSON: {e}"
  | .ok _ =>
      .failure "Attestation failed: insufficient shares: have 0, need 2"

variable {P : Type} [EdwardsGroup P] {F : Scalar[X]}

omit [SerdeJson] in
/-- What a program makes of a request for it. -/
theorem verdict_register (registry : ProgramRegistry) (validator : ValidatorFn)
    (request : AttestationRequest) :
    verdict (registry.register request.programCid validator) request =
      match validator request with
      | .ok (.valid tx) => some tx
      | _ => none := by
  have hprogram : (registry.register request.programCid validator).programs
      request.programCid = some validator := Function.update_self ..
  cases hresult : validator request with
  | error error =>
      simp [verdict, ProgramExecutor.execute, ProgramRegistry.execute,
        hprogram, hresult, Outcome.err]
  | ok result =>
      cases result with
      | valid tx =>
          simp [verdict, ProgramExecutor.execute, ProgramRegistry.execute,
            hprogram, hresult]
      | invalid reason =>
          simp [verdict, ProgramExecutor.execute, ProgramRegistry.execute,
            hprogram, hresult]

omit [SerdeJson] in
/-- Every node approves what the validator makes of the request. -/
theorem approved_cliClient (programCid : String) (key : P) (rng : Rng)
    (args : Json) (number : UInt32) {i : ℕ} (hi : i < 3) :
    (cliClient programCid key (shareVector F 3) rng).service.approved
        (cliRequest programCid args number) i =
      cliVerdict programCid args number := by
  have hnode : (cliClient programCid key (shareVector F 3)
      rng).transport.nodes[i]? =
        some (transferNode programCid (shareAt F 3 (i + 1))) := by
    change ((shareVector F 3).map (transferNode programCid))[i]? = _
    have hlt : i < (shareVector (P := P) F 3).length := by
      rw [shareVector_length]
      exact hi
    rw [List.getElem?_map, List.getElem?_eq_getElem hlt, shareVector_getElem]
    rfl
  rw [Service.approved, CraftSecClient.service]
  simp only [hnode, Option.bind_some]
  rw [if_neg (by exact Finset.notMem_empty _)]
  exact verdict_register ProgramRegistry.new transferValidator
    (cliRequest programCid args number)

omit [SerdeJson] in
/-- The three nodes agree, so the service attests what the validator accepts and
has no approvals otherwise. -/
theorem attest_cliClient (programCid : String) (key : P) (rng : Rng)
    (args : Json) (number : UInt32) :
    (cliClient programCid key (shareVector F 3) rng).service.attest
        (cliRequest programCid args number) =
      match cliVerdict programCid args number with
      | some tx => .attested tx
      | none => .tooFew 0 := by
  have hcount : (cliClient programCid key (shareVector F 3)
      rng).service.count = 3 := by
    change ((shareVector (P := P) F 3).map _).length = 3
    rw [List.length_map, shareVector_length]
  have hall : ∀ i ∈ List.range 3,
      ((cliClient programCid key (shareVector F 3) rng).service.approved
        (cliRequest programCid args number) i).isSome =
        (cliVerdict programCid args number).isSome := by
    intro i hi
    rw [approved_cliClient programCid key rng args number
      (List.mem_range.mp hi)]
  have hfirst := approved_cliClient (F := F) programCid key rng args number
    (by decide : 0 < 3)
  cases hverdict : cliVerdict programCid args number with
  | none =>
      have happrovers : (cliClient programCid key (shareVector F 3)
          rng).service.approvers (cliRequest programCid args number) = [] := by
        rw [Service.approvers, hcount, List.filter_congr hall, hverdict]
        rfl
      rw [Service.attest_of_few, happrovers]
      · rfl
      · rw [happrovers]
        exact (by decide : 0 < (2 : UInt32).toNat)
  | some tx =>
      have happrovers : (cliClient programCid key (shareVector F 3)
          rng).service.approvers (cliRequest programCid args number) =
            [0, 1, 2] := by
        rw [Service.approvers, hcount, List.filter_congr hall, hverdict]
        rfl
      apply Service.attest_of_enough
      · rw [happrovers]
        exact (by decide : (2 : UInt32).toNat ≤ 3)
      · rw [happrovers, ← hverdict]
        exact hfirst

omit [SerdeJson] in
theorem too_few_display :
    "Attestation failed: " ++
        (CraftSecError.insufficientShares 0 (2 : UInt32).toNat).display =
      "Attestation failed: insufficient shares: have 0, need 2" := by
  decide +kernel

variable (P) [DecidableEq P] [Sha512] [FloatFormat]

/-- For every program, text of arguments, drawn number and byte source the
command ends.  It exits with 0 exactly when the text is JSON that the validator
makes a transaction of; then it prints that transaction with a signature of it
under the key that the other commands print for the program. -/
theorem attest_command_outcome [Sha256] (programCid argsJson : String)
    (number : UInt32) (rng : Rng) :
    ∃ (key : P) (output : CommandOutput),
      PrintedKey programCid key ∧
      cmdAttest P programCid argsJson number rng = .ok output ∧
      (output.exitCode = 0 ↔
        (cliTransaction programCid argsJson number).isSome) ∧
      (∀ tx, cliTransaction programCid argsJson number = some tx →
        ∃ signature : ThresholdSignature P,
          verify signature key tx.signingBytes = .ok ⟨⟩ ∧
          output = attestedOutput tx signature) ∧
      (cliTransaction programCid argsJson number = none →
        output = cliFailure argsJson) := by
  obtain ⟨F, hdegree, hderive⟩ := exists_deriveCliKey P programCid "main"
  refine ⟨basepointMul (F.eval 0), ?_⟩
  have hprinted := printedKey_of_derived hderive
  cases hargs : SerdeJson.fromStr argsJson with
  | error e =>
      refine ⟨.failure s!"Invalid JSON: {e}", hprinted, ?_, ?_, ?_, ?_⟩
      · rw [cmdAttest, hargs]
      · simp [CommandOutput.failure, cliTransaction, hargs]
      · simp [cliTransaction, hargs]
      · simp [cliFailure, hargs]
  | ok args =>
      have hexplains := (inOrder_cliClient (P := P) programCid hdegree
        rng).attest (quietOn_of_pure _ (cliRequest programCid args number))
      rw [attest_cliClient] at hexplains
      have htransaction : cliTransaction programCid argsJson number =
          cliVerdict programCid args number := by
        rw [cliTransaction, hargs]
      rw [htransaction]
      cases hverdict : cliVerdict programCid args number with
      | none =>
          rw [hverdict] at hexplains
          have hrefused := hexplains.of_tooFew
          refine ⟨cliFailure argsJson, hprinted, ?_, ?_, ?_, fun _ => rfl⟩
          · rw [cmdAttest, hargs, hderive]
            simp only [ok_bind]
            rw [hrefused, cliFailure, hargs]
            exact congrArg
              (fun text => (Except.ok (CommandOutput.failure text) : Outcome _))
              too_few_display
          · simp [CommandOutput.failure, cliFailure, hargs]
          · simp
      | some tx =>
          rw [hverdict] at hexplains
          obtain ⟨attested, hok, rfl, hkey, hverify⟩ := hexplains.of_attested
          refine ⟨attestedOutput attested.transaction attested.signature,
            hprinted, ?_, ?_, ?_, ?_⟩
          · rw [cmdAttest, hargs, hderive]
            simp only [ok_bind]
            rw [hok]
            rfl
          · simp [attestedOutput, CommandOutput.success]
          · intro own hown
            cases hown
            rw [AttestedTransaction.verify, hkey] at hverify
            exact ⟨attested.signature, hverify, rfl⟩
          · simp

end Outcomes

end CraftSec
