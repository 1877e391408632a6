/-
Program execution backends.  A backend may keep state behind its shared
reference, so executing a request returns the backend as it is left.
-/
import CraftSec.Core.Types

namespace CraftSec

/-- `ProgramExecutor`. -/
class ProgramExecutor (E : Type) where
  execute : E → AttestationRequest → Outcome AttestationResult × E

/-- A backend whose programs are pure functions, as the design has them: they
neither change it nor panic. -/
class PureExecutor (E : Type) [ProgramExecutor E] : Prop where
  execute_snd : ∀ (registry : E) (request : AttestationRequest),
    (ProgramExecutor.execute registry request).2 = registry
  execute_ne_panic : ∀ (registry : E) (request : AttestationRequest),
    (ProgramExecutor.execute registry request).1 ≠ Outcome.panic

/-- A native validator that is a function of the request. -/
abbrev ValidatorFn :=
  AttestationRequest → Except CraftSecError AttestationResult

/-- Registry of native validators by program CID. -/
structure ProgramRegistry where
  programs : String → Option ValidatorFn

def ProgramRegistry.new : ProgramRegistry := ⟨fun _ => none⟩

def ProgramRegistry.register (registry : ProgramRegistry) (cid : String)
    (validator : ValidatorFn) : ProgramRegistry :=
  ⟨Function.update registry.programs cid (some validator)⟩

/-- `ProgramRegistry::execute`. -/
def ProgramRegistry.execute (registry : ProgramRegistry)
    (request : AttestationRequest) : Outcome AttestationResult :=
  match registry.programs request.programCid with
  | none =>
      Outcome.err (.programError s!"unknown program CID: {request.programCid}")
  | some validator =>
      match validator request with
      | .ok result => .ok result
      | .error error => Outcome.err error

instance : ProgramExecutor ProgramRegistry where
  execute registry request := (registry.execute request, registry)

instance : PureExecutor ProgramRegistry where
  execute_snd _ _ := rfl
  execute_ne_panic registry request := by
    change registry.execute request ≠ Outcome.panic
    rw [ProgramRegistry.execute]
    split
    next => simp [Outcome.err, Outcome.panic]
    next =>
      split
      next => simp [Outcome.panic]
      next => simp [Outcome.err, Outcome.panic]

/-- A registry of native validators that need not be functions: a closure may
keep state behind its shared reference, and may panic. -/
structure StatefulRegistry (S : Type) where
  programs : String →
    Option (S → AttestationRequest → Outcome AttestationResult × S)
  state : S

namespace StatefulRegistry

variable {S : Type}

def execute (registry : StatefulRegistry S) (request : AttestationRequest) :
    Outcome AttestationResult × StatefulRegistry S :=
  match registry.programs request.programCid with
  | none =>
      (Outcome.err (.programError
        s!"unknown program CID: {request.programCid}"), registry)
  | some validator =>
      let (outcome, state) := validator registry.state request
      (outcome, { registry with state := state })

instance : ProgramExecutor (StatefulRegistry S) where
  execute := execute

end StatefulRegistry

end CraftSec
