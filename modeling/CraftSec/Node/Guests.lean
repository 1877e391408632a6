/-
Guests that cannot crash the node.  The host slices the guest's memory at
pointers it is given and unwraps what the guest exports and returns; a guest
complies when all of this goes well and it ends.
-/
import CraftSec.Lib.WeakestPre
import CraftSec.Node.ReadOnly

namespace CraftSec

open WeakestPre (wp wp_of_ok wp_of_error)

section Memory

/-- The instance exports a memory that holds `len` bytes from `ptr` on, and the
end of the range is a `u32`. -/
def Instance.InBounds (state : Instance) (ptr len : UInt32) : Prop :=
  ptr.toNat + len.toNat < 2 ^ 32 ∧
    ∃ data ∈ state.memory, ptr.toNat + len.toNat ≤ data.length

/-- The instance exports a memory with room for `size` bytes from `ptr` on. -/
def Instance.HasRoom (state : Instance) (ptr : UInt32) (size : ℕ) : Prop :=
  ∃ data ∈ state.memory, ptr.toNat + size ≤ data.length

/-- The bytes in a range of the memory. -/
def Instance.bytesAt (state : Instance) (ptr len : UInt32) : Bytes :=
  ((state.memory.getD []).drop ptr.toNat).take len.toNat

/-- The string in a range of the memory. -/
def Instance.text (state : Instance) (ptr len : UInt32) : String :=
  fromUtf8Lossy (state.bytesAt ptr len)

/-- The memory with the bytes placed at `ptr`. -/
def Instance.place (state : Instance) (ptr : UInt32) (bytes : Bytes) :
    Instance :=
  { state with
    memory := state.memory.map fun data =>
      data.take ptr.toNat ++ bytes ++ data.drop (ptr.toNat + bytes.length) }

/-- A slice of the memory is taken exactly in bounds. -/
theorem Instance.exists_read_iff {state : Instance} {ptr len : UInt32}
    (post : Bytes → Prop) :
    (∃ bytes ∈ state.read ptr len, post bytes) ↔
      state.InBounds ptr len ∧ post (state.bytesAt ptr len) := by
  obtain ⟨memory, rest⟩ := state
  cases memory with
  | none => simp [read, InBounds]
  | some data =>
      by_cases hbounds : ptr.toNat + len.toNat < 2 ^ 32 ∧
          ptr.toNat + len.toNat ≤ data.length
      · simp [read, slice, InBounds, bytesAt, hbounds]
      · have hnot : ¬ InBounds ⟨some data, rest⟩ ptr len := by
          rintro ⟨hfits, own, hown, hle⟩
          cases hown
          exact hbounds ⟨hfits, hle⟩
        rw [read, Option.bind_some, slice, if_neg hbounds]
        simp [hnot]

/-- Bytes are written exactly where there is room, and as many as announced. -/
theorem Instance.exists_write_iff {state : Instance} {ptr : UInt32} {len : ℕ}
    {bytes : Bytes} (post : Instance → Prop) :
    (∃ written ∈ state.write ptr len bytes, post written) ↔
      bytes.length = len ∧ state.HasRoom ptr bytes.length ∧
        post (state.place ptr bytes) := by
  obtain ⟨memory, rest⟩ := state
  cases memory with
  | none => simp [write, HasRoom]
  | some data =>
      by_cases hlength : bytes.length = len
      · subst hlength
        by_cases hroom : ptr.toNat + bytes.length ≤ data.length
        · simp [write, HasRoom, place, hroom]
        · simp [write, HasRoom, hroom]
      · simp [write, hlength]

theorem Instance.exists_readQuery_iff {state : Instance}
    {dbPtr dbLen sqlPtr sqlLen paramsPtr paramsLen : UInt32}
    (post : String × String × String → Prop) :
    (∃ texts ∈ state.readQuery dbPtr dbLen sqlPtr sqlLen paramsPtr paramsLen,
        post texts) ↔
      state.InBounds dbPtr dbLen ∧ state.InBounds sqlPtr sqlLen ∧
        state.InBounds paramsPtr paramsLen ∧
          post (state.text dbPtr dbLen, state.text sqlPtr sqlLen,
            state.text paramsPtr paramsLen) := by
  have hquery : (∃ texts ∈ state.readQuery dbPtr dbLen sqlPtr sqlLen paramsPtr
      paramsLen, post texts) ↔
      ∃ dbName ∈ state.read dbPtr dbLen, ∃ sql ∈ state.read sqlPtr sqlLen,
        ∃ params ∈ state.read paramsPtr paramsLen,
          post (fromUtf8Lossy dbName, fromUtf8Lossy sql,
            fromUtf8Lossy params) := by
    simp only [readQuery, Option.mem_def, Option.bind_eq_bind,
      Option.bind_eq_some_iff, Option.pure_def, Option.some.injEq]
    constructor
    · rintro ⟨_, ⟨dbName, hdb, sql, hsql, params, hparams, rfl⟩, hpost⟩
      exact ⟨dbName, hdb, sql, hsql, params, hparams, hpost⟩
    · rintro ⟨dbName, hdb, sql, hsql, params, hparams, hpost⟩
      exact ⟨_, ⟨dbName, hdb, sql, hsql, params, hparams, rfl⟩, hpost⟩
  rw [hquery, exists_read_iff, exists_read_iff, exists_read_iff]
  rfl

theorem length_eq_toNat_ofNat_iff (bytes : Bytes) :
    bytes.length = (UInt32.ofNat bytes.length).toNat ↔
      bytes.length < 2 ^ 32 := by
  rw [UInt32.toNat_ofNat']
  constructor
  · intro heq
    rw [heq]
    exact Nat.mod_lt _ (by decide)
  · intro hlt
    rw [Nat.mod_eq_of_lt hlt]

end Memory

/-- How a call may stop: never by a panic nor by running on, and with an error
if errors are let through. -/
def Stop.Allowed {C ε : Type} (errors : Prop) : Stop ε → Databases C → Prop
  | .err _, _ => errors
  | .panic, _ => False
  | .never, _ => False

/-- The computation returns a value or an error. -/
def Exec.Returns {C ε α : Type} (m : Exec C ε α) (databases : Databases C) :
    Prop :=
  wp m databases (Stop.Allowed True) fun _ _ => True

section Rules

variable {C ε ε' α : Type} {databases : Databases C} {errors : Prop}

theorem Exec.returns_iff (m : Exec C ε α) (databases : Databases C) :
    m.Returns databases ↔
      (∃ a, (m databases).1 = .ok a) ∨
        ∃ error, (m databases).1 = .error (.err error) := by
  rw [Returns]
  cases hm : m databases with
  | mk result after =>
      rcases result with (error | - | -) | a
      · simp [wp_of_error hm, Stop.Allowed]
      · simp [wp_of_error hm, Stop.Allowed]
      · simp [wp_of_error hm, Stop.Allowed]
      · simp [wp_of_ok hm]

@[simp]
theorem Exec.wp_orPanic (o : Option α) (post : α → Databases C → Prop) :
    wp (orPanic o : Exec C ε α) databases (Stop.Allowed errors) post ↔
      ∃ a ∈ o, post a databases := by
  cases o with
  | none => simp [orPanic, Stop.Allowed]
  | some a => simp [orPanic]

@[simp]
theorem Exec.wp_okOr (error : ε) (o : Option α)
    (post : α → Databases C → Prop) :
    wp (okOr error o : Exec C ε α) databases (Stop.Allowed True) post ↔
      ∀ a ∈ o, post a databases := by
  cases o with
  | none => simp [okOr, Stop.Allowed]
  | some a => simp [okOr]

theorem Exec.wp_ofExcept (result : Except ε α) :
    wp (ofExcept result : Exec C ε α) databases (Stop.Allowed True)
      fun _ _ => True := by
  cases result with
  | error e => simp [ofExcept, Stop.Allowed]
  | ok a => simp [ofExcept]

@[simp]
theorem Exec.wp_mapErr (f : ε → ε') (m : Exec C ε α)
    (post : α → Databases C → Prop) :
    wp (mapErr f m) databases (Stop.Allowed errors) post ↔
      wp m databases (Stop.Allowed errors) post := by
  cases hm : m databases with
  | mk result after =>
      rcases result with (error | - | -) | a
      all_goals rw [wp, wp, mapErr, hm]
      all_goals rfl

/-- An error of an unwrapped call is a panic of the caller. -/
@[simp]
theorem Exec.wp_unwrapCall (m : Exec C ε α)
    (post : α → Databases C → Prop) :
    wp (unwrapCall m : Exec C ε' α) databases (Stop.Allowed errors) post ↔
      wp m databases (Stop.Allowed False) post := by
  cases hm : m databases with
  | mk result after =>
      rcases result with (error | - | -) | a
      all_goals rw [wp, wp, unwrapCall, hm]
      all_goals rfl

@[simp]
theorem Val.wp_unwrapI32 (value : Val) (post : UInt32 → Databases C → Prop) :
    wp (value.unwrapI32 : Exec C ε UInt32) databases (Stop.Allowed errors)
        post ↔
      ∃ n, value = .i32 n ∧ post n databases := by
  cases value with
  | i32 n => simp [unwrapI32]
  | i64 n => simp [unwrapI32, Stop.Allowed]
  | other => simp [unwrapI32, Stop.Allowed]

@[simp]
theorem Val.wp_unwrapI64 (value : Val) (post : UInt64 → Databases C → Prop) :
    wp (value.unwrapI64 : Exec C ε UInt64) databases (Stop.Allowed errors)
        post ↔
      ∃ n, value = .i64 n ∧ post n databases := by
  cases value with
  | i32 n => simp [unwrapI64, Stop.Allowed]
  | i64 n => simp [unwrapI64]
  | other => simp [unwrapI64, Stop.Allowed]

end Rules

section Calls

variable {C : Type} [Sqlite C] [SerdeJson] [FloatFormat]

/-- The query gets the lock, and its statement returns. -/
def Databases.Answers (databases : Databases C) (dbName sql params : String)
    (result : Bytes) (next : Databases C) : Prop :=
  databases.lock = .free ∧ next.lock = .free ∧
    queryIn dbName sql params databases.map = (.returned result, next.map)

@[simp]
theorem wp_queryDatabase {ε : Type} {databases : Databases C} {errors : Prop}
    (dbName sql params : String) (post : Bytes → Databases C → Prop) :
    wp (queryDatabase dbName sql params : Exec C ε Bytes) databases
        (Stop.Allowed errors) post ↔
      ∃ result next, databases.Answers dbName sql params result next ∧
        post result next := by
  have hanswers : ∀ {result next},
      databases.Answers dbName sql params result next →
        (queryDatabase dbName sql params : Exec C ε Bytes) databases =
          (.ok result, next) := by
    rintro result ⟨lock, map⟩ ⟨hfree, hnext, hquery⟩
    simp only at hnext hquery
    subst hnext
    exact Exec.underLock_of_returned hfree hquery
  constructor
  · intro hwp
    cases hrun : (queryDatabase dbName sql params : Exec C ε Bytes)
        databases with
    | mk outcome next =>
        cases outcome with
        | ok result =>
            rw [wp_of_ok hrun] at hwp
            exact ⟨result, next, Exec.underLock_eq_ok hrun, hwp⟩
        | error stop =>
            -- the host holds the lock for no other error
            rw [wp_of_error hrun] at hwp
            have hnone := Exec.underLock_ne_err hrun
            cases stop with
            | err error => exact (hnone error rfl).elim
            | panic => exact hwp.elim
            | never => exact hwp.elim
  · rintro ⟨result, next, hanswer, hpost⟩
    rw [wp_of_ok (hanswers hanswer)]
    exact hpost

/-- Guest code that ends, with a value and an instance that satisfy `post` or
with an error if errors are let through, and that calls the host with ranges of
its exported memory alone.  When it queries a database, the lock must be free
and the statement must return; its allocator must not fail, and must find room
for the result. -/
def Run.Complies : Run → Databases C → Prop →
    (Val → Instance → Databases C → Prop) → Prop
  | .returned value state, databases, _, post => post value state databases
  | .trapped _, _, errors, _ => errors
  | .diverges, _, _, _ => False
  | .hostLog state _ msgPtr msgLen resume, databases, errors, post =>
      state.InBounds msgPtr msgLen ∧ resume.Complies databases errors post
  | .hostSqlQuery state dbPtr dbLen sqlPtr sqlLen paramsPtr paramsLen
      guestAlloc resume, databases, errors, post =>
      state.InBounds dbPtr dbLen ∧ state.InBounds sqlPtr sqlLen ∧
        state.InBounds paramsPtr paramsLen ∧
        ∃ result next, databases.Answers (state.text dbPtr dbLen)
            (state.text sqlPtr sqlLen) (state.text paramsPtr paramsLen)
            result next ∧
          let len := UInt32.ofNat result.length
          (guestAlloc len).Complies next False
            fun value allocated databases =>
              ∃ ptr, value = .i32 ptr ∧ result.length < 2 ^ 32 ∧
                allocated.HasRoom ptr result.length ∧
                (resume (allocated.place ptr result) (pack ptr len)).Complies
                  databases errors post

/-- A run of guest code ends well exactly when the guest complies. -/
theorem Run.wp_run_iff (run : Run) (databases : Databases C) (errors : Prop)
    (post : Val × Instance → Databases C → Prop) :
    wp run.run databases (Stop.Allowed errors) post ↔
      run.Complies databases errors fun value state => post (value, state) := by
  induction run generalizing databases errors post with
  | returned value state => exact Iff.rfl
  | trapped message => exact Iff.rfl
  | diverges => exact Iff.rfl
  | hostLog state level msgPtr msgLen resume ih =>
      rw [Run.run, Complies, WeakestPre.wp_bind, Exec.wp_orPanic,
        Instance.exists_read_iff, ih]
  | hostSqlQuery state dbPtr dbLen sqlPtr sqlLen paramsPtr paramsLen guestAlloc
      resume ihAlloc ihResume =>
      rw [Run.run, Complies, WeakestPre.wp_bind, Exec.wp_orPanic,
        Instance.exists_readQuery_iff]
      simp only [WeakestPre.wp_bind, wp_queryDatabase, deliver,
        Exec.wp_unwrapCall, Val.wp_unwrapI32, Exec.wp_orPanic,
        Instance.exists_write_iff, WeakestPre.wp_pure,
        length_eq_toNat_ofNat_iff, ihResume, ihAlloc]

/-- A module that serves the request: its exports run to an end, in compliance
with the host; `guest_alloc` finds room for the request, and `attest` returns a
packed range of the memory.  A missing export is answered with an error. -/
def WasmModule.Complies (module : WasmModule) (request : AttestationRequest)
    (databases : Databases C) : Prop :=
  let json := request.toJson
  let len := UInt32.ofNat json.length
  module.instantiate.Complies databases True fun _ fresh started =>
    ∀ guestAlloc ∈ module.guestAlloc,
      (guestAlloc fresh len).Complies started True
        fun value state allocated =>
          ∃ ptr, value = .i32 ptr ∧
            (state.memory ≠ none →
              state.HasRoom ptr json.length ∧
                ∀ attest ∈ module.attest,
                  (attest (state.place ptr json) ptr len).Complies allocated
                    True fun value state _ =>
                      ∃ packed, value = .i64 packed ∧
                        (state.memory ≠ none →
                          state.InBounds (unpackPtr packed)
                            (unpackLen packed)))

omit [Sqlite C] [SerdeJson] [FloatFormat] in
theorem forall_mem_const_iff {α : Type} (o : Option α) (p : Prop) :
    (∀ a ∈ o, p) ↔ (o ≠ none → p) := by
  cases o with
  | none => simp
  | some a => simp

omit [Sqlite C] [FloatFormat] in
theorem readResult_returns_iff (value : Val) (state : Instance)
    (databases : Databases C) :
    wp (readResult value state) databases (Stop.Allowed True)
        (fun _ _ => True) ↔
      ∃ packed, value = .i64 packed ∧
        (state.memory ≠ none →
          state.InBounds (unpackPtr packed) (unpackLen packed)) := by
  have hread : ∀ packed,
      (∃ bytes ∈ state.read (unpackPtr packed) (unpackLen packed), True) ↔
        state.InBounds (unpackPtr packed) (unpackLen packed) := by
    intro packed
    rw [Instance.exists_read_iff, and_true]
  simp only [readResult, WeakestPre.wp_bind, Val.wp_unwrapI64, Exec.wp_okOr,
    Exec.wp_orPanic, Exec.wp_ofExcept, hread, forall_mem_const_iff]

/-- A call returns a value or an error exactly when its module complies. -/
theorem WasmModule.execute_returns_iff (module : WasmModule)
    (request : AttestationRequest) (databases : Databases C) :
    (module.execute request).Returns databases ↔
      module.Complies request databases := by
  simp only [Exec.Returns, execute, WeakestPre.wp_bind, Exec.wp_mapErr,
    Exec.wp_okOr, Exec.wp_orPanic, Val.wp_unwrapI32,
    Instance.exists_write_iff, readResult_returns_iff, Run.wp_run_iff,
    forall_mem_const_iff, true_and]
  rfl

theorem WasmProgramRegistry.execute_result
    {registry : WasmProgramRegistry C} {request : AttestationRequest}
    {module : WasmModule}
    (hmodule : registry.modules request.programCid = some module) :
    (registry.execute request).1 =
      (module.execute request registry.databases).1 := by
  rw [execute, hmodule]
  rfl

/-- The node survives a request exactly when the module registered for it, if
there is one, complies. -/
theorem execute_survives_guests_iff (registry : WasmProgramRegistry C)
    (request : AttestationRequest) :
    ((∃ result, (registry.execute request).1 = .ok result) ∨
        ∃ error, (registry.execute request).1 = .error (.err error)) ↔
      ∀ module ∈ registry.modules request.programCid,
        module.Complies request registry.databases := by
  cases hmodule : registry.modules request.programCid with
  | none => simp [WasmProgramRegistry.execute, hmodule]
  | some module =>
      simp only [WasmProgramRegistry.execute_result hmodule, Option.mem_some_iff,
        forall_eq']
      rw [← Exec.returns_iff, module.execute_returns_iff]

end Calls

section Samples

/-- An instance with one page of memory. -/
def onePage : Instance := ⟨some (List.replicate 65536 0), []⟩

/-- A guest that is given its request at the start of its memory. -/
def guestOf (attest : Instance → Run) : WasmModule where
  instantiate := .returned .other onePage
  guestAlloc := some fun state _ => .returned (.i32 0) state
  attest := some fun state _ _ => attest state

/-- A registry with one guest for every program. -/
def registryOf (module : WasmModule) : WasmProgramRegistry Ledger where
  modules _ := some module
  databases := .new

theorem registryOf_execute [SerdeJson] (attest : Instance → Run) :
    letI := floatFormatReference
    ((registryOf (guestOf attest)).execute sampleRequest).1 =
      (((Exec.mapErr
          (fun e => CraftSecError.programError s!"WASM execution failed: {e}")
          (attest (onePage.place 0 sampleRequest.toJson)).run :
        Exec Ledger CraftSecError (Val × Instance)) >>= fun (value, state) =>
          readResult value state) .new).1 := by
  let _ := floatFormatReference
  have hroom : onePage.HasRoom 0 sampleRequest.toJson.length := by
    refine ⟨_, rfl, ?_⟩
    rw [List.length_replicate]
    decide +kernel
  obtain ⟨written, hwritten, rfl⟩ := (Instance.exists_write_iff
    (fun written => written = onePage.place 0 sampleRequest.toJson)).mpr
      ⟨rfl, hroom, rfl⟩
  rw [Option.mem_def] at hwritten
  let nothing : Databases Ledger := .new
  have hstart : (guestOf attest).instantiate.run nothing =
      (.ok (.other, onePage), nothing) := rfl
  have hcall : (Run.returned (.i32 0) onePage).run nothing =
      (.ok (.i32 0, onePage), nothing) := rfl
  have hexecute := WasmModule.execute_eq hstart rfl hcall hwritten rfl
  rw [WasmProgramRegistry.execute_result rfl]
  exact congrArg Prod.fst hexecute

/-- The account with a guest that passes the endless statement. -/
def endlessRegistry [FloatFormat] : WasmProgramRegistry Ledger where
  modules _ := some (ledgerGuest endlessQuery id)
  databases := ledgerRegistry.databases

theorem endlessRegistry_execute :
    letI := floatFormatReference
    letI := parserOf []
    (endlessRegistry.execute sampleRequest).1 = .error .never := by
  decide +kernel

/-- A guest that returns all ones, one that logs a byte behind its memory, one
that runs on forever, and one whose statement does. -/
theorem guests_crash_node :
    letI := floatFormatReference
    letI := parserOf []
    ((registryOf (guestOf fun state =>
        .returned (.i64 0xffffffffffffffff) state)).execute
          sampleRequest).1 = .error .panic ∧
    ((registryOf (guestOf fun state =>
        .hostLog state 1 0xffffffff 1 (.returned (.i64 0) state))).execute
          sampleRequest).1 = .error .panic ∧
    ((registryOf (guestOf fun _ => .diverges)).execute sampleRequest).1 =
      .error .never ∧
    (endlessRegistry.execute sampleRequest).1 = .error .never ∧
    ¬ ∀ (registry : WasmProgramRegistry Ledger)
        (request : AttestationRequest),
      (∃ result, (registry.execute request).1 = .ok result) ∨
        ∃ error, (registry.execute request).1 = .error (.err error) := by
  let _ := floatFormatReference
  let _ := parserOf []
  have hresult : ((registryOf (guestOf fun state =>
      .returned (.i64 0xffffffffffffffff) state)).execute
        sampleRequest).1 = .error .panic := by
    rw [registryOf_execute]
    rfl
  refine ⟨hresult, ?_, ?_, endlessRegistry_execute, fun hall => ?_⟩
  · rw [registryOf_execute]
    rfl
  · rw [registryOf_execute]
    rfl
  · have hreturns := hall (registryOf (guestOf fun state =>
      .returned (.i64 0xffffffffffffffff) state)) sampleRequest
    rw [hresult] at hreturns
    rcases hreturns with ⟨_, hok⟩ | ⟨_, herr⟩
    · cases hok
    · cases herr

end Samples

end CraftSec
