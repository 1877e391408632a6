/-
Programs as WASM modules.  wasmtime is not modelled: a compiled module is what
its exports do, and a run of an export is the tree of its host calls.
-/
import CraftSec.Node.Executor
import CraftSec.Node.Sql

namespace CraftSec

/-- A value returned by an export. -/
inductive Val where
  | i32 (n : UInt32)
  | i64 (n : UInt64)
  | other
deriving DecidableEq

/-- An instance between calls: the memory exported as `memory`, if there is
one, and its globals and tables. -/
structure Instance where
  memory : Option Bytes
  rest : Bytes
deriving DecidableEq

/-- A run of guest code, up to its end or its next host call.  A call that
fails, also because the export is missing or takes other arguments, is
`trapped`.  While `host_sql_query` runs, the guest is entered again through
`guest_alloc`; it goes on with the instance as the host leaves it. -/
inductive Run where
  | returned (value : Val) (state : Instance)
  | trapped (message : String)
  | diverges
  | hostLog (state : Instance) (level msgPtr msgLen : UInt32) (resume : Run)
  | hostSqlQuery (state : Instance)
      (dbPtr dbLen sqlPtr sqlLen paramsPtr paramsLen : UInt32)
      (guestAlloc : UInt32 → Run) (resume : Instance → UInt64 → Run)

/-- `Module`: instantiation, and the exports that are functions. -/
structure WasmModule where
  instantiate : Run
  guestAlloc : Option (Instance → UInt32 → Run)
  attest : Option (Instance → UInt32 → UInt32 → Run)

/-- `Module::new`, with the text of its error. -/
class WasmCompiler where
  compile : Bytes → Except String WasmModule

/-- `HashMap<String, SqlDatabase>`. -/
abbrev DatabaseMap (C : Type) := String → Option (SqlDatabase C)

/-- A mutex between calls.  A panic of its holder poisons it, and a holder that
runs on for ever does not give it back. -/
inductive Lock where
  | free
  | poisoned
  | held
deriving DecidableEq

/-- `Arc<Mutex<HashMap<String, SqlDatabase>>>`. -/
@[ext]
structure Databases (C : Type) where
  lock : Lock
  map : DatabaseMap C

def Databases.new {C : Type} : Databases C := ⟨.free, fun _ => none⟩

/-- How a computation over the databases stops without a value. -/
inductive Stop (ε : Type) where
  | err (error : ε)
  | panic
  | never
deriving DecidableEq

/-- A computation that may use the databases. -/
abbrev Exec (C ε : Type) := ExceptT (Stop ε) (StateM (Databases C))

section Memory

/-- `&data[ptr as usize..(ptr + len) as usize]`.  Where the sum overflows a
checked build panics, and an unchecked one has a slice that ends before it
starts. -/
def slice (data : Bytes) (ptr len : UInt32) : Option Bytes :=
  if ptr.toNat + len.toNat < 2 ^ 32 ∧ ptr.toNat + len.toNat ≤ data.length then
    some ((data.drop ptr.toNat).take len.toNat)
  else none

/-- A slice of the exported memory. -/
def Instance.read (state : Instance) (ptr len : UInt32) : Option Bytes :=
  state.memory.bind fun data => slice data ptr len

/-- `data[ptr..ptr + len].copy_from_slice(bytes)`, in `usize`. -/
def Instance.write (state : Instance) (ptr : UInt32) (len : ℕ)
    (bytes : Bytes) : Option Instance :=
  state.memory.bind fun data =>
    if ptr.toNat + len ≤ data.length ∧ bytes.length = len then
      some { state with
        memory := some
          (data.take ptr.toNat ++ bytes ++ data.drop (ptr.toNat + len)) }
    else none

/-- The strings `host_sql_query` reads: database, statement and parameters. -/
def Instance.readQuery (state : Instance)
    (dbPtr dbLen sqlPtr sqlLen paramsPtr paramsLen : UInt32) :
    Option (String × String × String) := do
  let dbName ← state.read dbPtr dbLen
  let sql ← state.read sqlPtr sqlLen
  let params ← state.read paramsPtr paramsLen
  return (fromUtf8Lossy dbName, fromUtf8Lossy sql, fromUtf8Lossy params)

/-- `(ptr << 32) | len`. -/
def pack (ptr len : UInt32) : UInt64 :=
  ptr.toUInt64 <<< 32 ||| len.toUInt64

def unpackPtr (packed : UInt64) : UInt32 := (packed >>> 32).toUInt32

def unpackLen (packed : UInt64) : UInt32 := (packed &&& 0xffffffff).toUInt32

end Memory

namespace Exec

variable {C ε ε' α β : Type}

/-- What `work` does to the map between `lock().unwrap()` and the release of
the guard. -/
def underLock (work : DatabaseMap C → CallOutcome α × DatabaseMap C) :
    Exec C ε α := fun databases =>
  match databases.lock with
  | .poisoned => (.error .panic, databases)
  | .held => (.error .never, databases)
  | .free =>
      match work databases.map with
      | (.returned a, map) => (.ok a, ⟨.free, map⟩)
      | (.panic, map) => (.error .panic, ⟨.poisoned, map⟩)
      | (.never, map) => (.error .never, ⟨.held, map⟩)

/-- `unwrap`, a slice or an index. -/
def orPanic : Option α → Exec C ε α
  | some a => pure a
  | none => throw .panic

/-- `ok_or_else`. -/
def okOr (error : ε) : Option α → Exec C ε α
  | some a => pure a
  | none => throw (.err error)

/-- The value or error of a computation that uses no database. -/
def ofExcept : Except ε α → Exec C ε α
  | .ok a => pure a
  | .error error => throw (.err error)

/-- `map_err`. -/
def mapErr (f : ε → ε') (m : Exec C ε α) : Exec C ε' α := fun databases =>
  match m databases with
  | (.ok a, databases) => (.ok a, databases)
  | (.error (.err error), databases) => (.error (.err (f error)), databases)
  | (.error .panic, databases) => (.error .panic, databases)
  | (.error .never, databases) => (.error .never, databases)

/-- `call(…).unwrap()`. -/
def unwrapCall (m : Exec C ε α) : Exec C ε' α := fun databases =>
  match m databases with
  | (.ok a, databases) => (.ok a, databases)
  | (.error (.err _), databases) => (.error .panic, databases)
  | (.error .panic, databases) => (.error .panic, databases)
  | (.error .never, databases) => (.error .never, databases)

theorem bind_of_ok {m : Exec C ε α} {databases middle : Databases C} {a : α}
    (hm : m databases = (.ok a, middle)) (f : α → Exec C ε β) :
    (m >>= f) databases = f a middle := by
  simp only [bind, ExceptT.bind, ExceptT.mk, StateT.bind, hm,
    ExceptT.bindCont]

theorem bind_of_error {m : Exec C ε α} {databases middle : Databases C}
    {stop : Stop ε} (hm : m databases = (.error stop, middle))
    (f : α → Exec C ε β) :
    (m >>= f) databases = (.error stop, middle) := by
  simp only [bind, ExceptT.bind, ExceptT.mk, StateT.bind, hm,
    ExceptT.bindCont]
  rfl

theorem underLock_of_returned
    {work : DatabaseMap C → CallOutcome α × DatabaseMap C}
    {databases : Databases C} {a : α} {map : DatabaseMap C}
    (hfree : databases.lock = .free)
    (hwork : work databases.map = (.returned a, map)) :
    (underLock work : Exec C ε α) databases = (.ok a, ⟨.free, map⟩) := by
  simp only [underLock, hfree, hwork]

/-- Work comes to a value where the lock is free and the work returns. -/
theorem underLock_eq_ok
    {work : DatabaseMap C → CallOutcome α × DatabaseMap C}
    {databases after : Databases C} {a : α}
    (hok : (underLock work : Exec C ε α) databases = (.ok a, after)) :
    databases.lock = .free ∧ after.lock = .free ∧
      work databases.map = (.returned a, after.map) := by
  rw [underLock] at hok
  split at hok
  next => cases hok
  next => cases hok
  next hfree =>
    split at hok
    next b map hwork =>
      cases hok
      exact ⟨hfree, rfl, hwork⟩
    next => cases hok
    next => cases hok

theorem underLock_ne_err
    {work : DatabaseMap C → CallOutcome α × DatabaseMap C}
    {databases after : Databases C} {stop : Stop ε}
    (hstop : underLock work databases = (.error stop, after)) (error : ε) :
    stop ≠ .err error := by
  rintro rfl
  rw [underLock] at hstop
  split at hstop
  next => cases hstop
  next => cases hstop
  next =>
    split at hstop
    next => cases hstop
    next => cases hstop
    next => cases hstop

theorem okOr_some (error : ε) (a : α) (databases : Databases C) :
    okOr error (some a) databases = (.ok a, databases) := rfl

theorem orPanic_some (a : α) (databases : Databases C) :
    (orPanic (some a) : Exec C ε α) databases = (.ok a, databases) := rfl

theorem mapErr_of_ok {f : ε → ε'} {m : Exec C ε α}
    {databases after : Databases C} {a : α}
    (hm : m databases = (.ok a, after)) :
    mapErr f m databases = (.ok a, after) := by
  rw [mapErr, hm]

/-- What a stop becomes does not depend on what was computed. -/
theorem mapErr_of_error (f : ε → ε') (stop : Stop ε) :
    ∃ stopped : Stop ε', ∀ {A : Type} {m : Exec C ε A}
      {databases after : Databases C}, m databases = (.error stop, after) →
        mapErr f m databases = (.error stopped, after) := by
  cases stop with
  | err error => exact ⟨.err (f error), fun hm => by rw [mapErr, hm]⟩
  | panic => exact ⟨.panic, fun hm => by rw [mapErr, hm]⟩
  | never => exact ⟨.never, fun hm => by rw [mapErr, hm]⟩

/-- What a computation that ends with a value went through. -/
theorem bind_eq_ok {m : Exec C ε α} {f : α → Exec C ε β}
    {databases after : Databases C} {b : β}
    (hbind : (m >>= f) databases = (.ok b, after)) :
    ∃ a middle, m databases = (.ok a, middle) ∧
      f a middle = (.ok b, after) := by
  cases hm : m databases with
  | mk result middle =>
      cases result with
      | ok a =>
          rw [bind_of_ok hm] at hbind
          exact ⟨a, middle, rfl, hbind⟩
      | error stop =>
          rw [bind_of_error hm] at hbind
          cases hbind

theorem orPanic_eq_ok {o : Option α} {databases after : Databases C} {a : α}
    (hok : (orPanic o : Exec C ε α) databases = (.ok a, after)) :
    o = some a ∧ after = databases := by
  cases o with
  | none => cases hok
  | some b =>
      cases hok
      exact ⟨rfl, rfl⟩

theorem okOr_eq_ok {error : ε} {o : Option α} {databases after : Databases C}
    {a : α} (hok : okOr error o databases = (.ok a, after)) :
    o = some a ∧ after = databases := by
  cases o with
  | none => cases hok
  | some b =>
      cases hok
      exact ⟨rfl, rfl⟩

theorem ofExcept_eq_ok {result : Except ε α} {databases after : Databases C}
    {a : α} (hok : ofExcept result databases = (.ok a, after)) :
    result = .ok a ∧ after = databases := by
  cases result with
  | error => cases hok
  | ok b =>
      cases hok
      exact ⟨rfl, rfl⟩

theorem mapErr_eq_ok {f : ε → ε'} {m : Exec C ε α}
    {databases after : Databases C} {a : α}
    (hok : mapErr f m databases = (.ok a, after)) :
    m databases = (.ok a, after) := by
  rw [mapErr] at hok
  split at hok
  next b middle hm =>
    cases hok
    exact hm
  next => cases hok
  next => cases hok
  next => cases hok

end Exec

def Val.unwrapI32 {C ε : Type} : Val → Exec C ε UInt32
  | .i32 n => pure n
  | _ => throw .panic

def Val.unwrapI64 {C ε : Type} : Val → Exec C ε UInt64
  | .i64 n => pure n
  | _ => throw .panic

theorem Val.unwrapI32_i32 {C ε : Type} (n : UInt32)
    (databases : Databases C) :
    ((Val.i32 n).unwrapI32 : Exec C ε UInt32) databases =
      (.ok n, databases) := rfl

theorem Val.unwrapI64_i64 {C ε : Type} (n : UInt64)
    (databases : Databases C) :
    ((Val.i64 n).unwrapI64 : Exec C ε UInt64) databases =
      (.ok n, databases) := rfl

theorem Val.unwrapI32_eq_ok {C ε : Type} {value : Val} {n : UInt32}
    {databases after : Databases C}
    (hok : (value.unwrapI32 : Exec C ε UInt32) databases = (.ok n, after)) :
    value = .i32 n ∧ after = databases := by
  cases value with
  | i32 m =>
      cases hok
      exact ⟨rfl, rfl⟩
  | i64 => cases hok
  | other => cases hok

theorem Val.unwrapI64_eq_ok {C ε : Type} {value : Val} {n : UInt64}
    {databases after : Databases C}
    (hok : (value.unwrapI64 : Exec C ε UInt64) databases = (.ok n, after)) :
    value = .i64 n ∧ after = databases := by
  cases value with
  | i64 m =>
      cases hok
      exact ⟨rfl, rfl⟩
  | i32 => cases hok
  | other => cases hok

section Host

variable {C : Type} [Sqlite C] [SerdeJson] [FloatFormat]

/-- The query under the lock: an unknown database has no rows. -/
def queryIn (dbName sql params : String) (map : DatabaseMap C) :
    CallOutcome Bytes × DatabaseMap C :=
  match map dbName with
  | some db =>
      let (outcome, db) := db.query sql params
      (outcome, Function.update map dbName (some db))
  | none => (.returned (utf8 "[]"), map)

def queryDatabase {ε : Type} (dbName sql params : String) : Exec C ε Bytes :=
  Exec.underLock (queryIn dbName sql params)

/-- How `host_sql_query` hands its result to the guest. -/
def deliver {ε : Type} (result : Bytes)
    (guestAlloc : UInt32 → Exec C String (Val × Instance)) :
    Exec C ε (Instance × UInt64) := do
  let len := UInt32.ofNat result.length
  let (value, state) ← Exec.unwrapCall (guestAlloc len)
  let ptr ← value.unwrapI32
  let state ← Exec.orPanic (state.write ptr len.toNat result)
  return (state, pack ptr len)

/-- Run guest code with the host functions. -/
def Run.run : Run → Exec C String (Val × Instance)
  | .returned value state => pure (value, state)
  | .trapped message => throw (.err message)
  | .diverges => throw .never
  | .hostLog state _ msgPtr msgLen resume => do
      let _ ← Exec.orPanic (state.read msgPtr msgLen)
      resume.run
  | .hostSqlQuery state dbPtr dbLen sqlPtr sqlLen paramsPtr paramsLen
      guestAlloc resume => do
      let (dbName, sql, params) ← Exec.orPanic
        (state.readQuery dbPtr dbLen sqlPtr sqlLen paramsPtr paramsLen)
      let result ← queryDatabase dbName sql params
      let (state, packed) ← deliver result fun len => (guestAlloc len).run
      (resume state packed).run

/-- The request as the guest receives it; `json!` sorts its keys. -/
def AttestationRequest.toJson (request : AttestationRequest) : Bytes :=
  Json.write (.object
    [("args", request.args),
     ("program_cid", .string request.programCid),
     ("requester", .string request.requester)])

/-- What `execute` makes of the bytes the guest points to. -/
def decodeResult (bytes : Bytes) : Except CraftSecError AttestationResult :=
  match fromUtf8 bytes with
  | .error e => .error (.programError s!"invalid UTF-8: {e}")
  | .ok text =>
      match SerdeJson.fromStr text with
      | .error e => .error (.programError s!"invalid JSON: {e}")
      | .ok result =>
          match (result.getOrNull "status").asStr with
          | some "valid" =>
              match Transaction.fromValue (result.getOrNull "transaction") with
              | .ok tx => .ok (.valid tx)
              | .error e =>
                  .error (.programError s!"invalid transaction: {e}")
          | some "invalid" =>
              .ok (.invalid ((result.getOrNull "reason").asStr.getD "unknown"))
          | _ => .error (.programError "invalid result status")

/-- The end of `execute`, from the value `attest` returned. -/
def readResult (value : Val) (state : Instance) :
    Exec C CraftSecError AttestationResult := do
  let packed ← value.unwrapI64
  let _ ← Exec.okOr (.programError "no memory export") state.memory
  let resultBytes ← Exec.orPanic
    (state.read (unpackPtr packed) (unpackLen packed))
  Exec.ofExcept (decodeResult resultBytes)

/-- `WasmProgramRegistry::execute` from the instantiation on. -/
def WasmModule.execute (module : WasmModule) (request : AttestationRequest) :
    Exec C CraftSecError AttestationResult := do
  let (_, state) ← Exec.mapErr
    (fun e => .programError s!"instantiation failed: {e}")
    module.instantiate.run
  let requestBytes := request.toJson
  let requestLen := UInt32.ofNat requestBytes.length
  let guestAlloc ← Exec.okOr (.programError "no guest_alloc export")
    module.guestAlloc
  let (value, state) ← Exec.mapErr
    (fun e => .programError s!"guest_alloc failed: {e}")
    (guestAlloc state requestLen).run
  let requestPtr ← value.unwrapI32
  let _ ← Exec.okOr (.programError "no memory export") state.memory
  let state ← Exec.orPanic
    (state.write requestPtr requestBytes.length requestBytes)
  let attest ← Exec.okOr (.programError "no 'attest' export") module.attest
  let (value, state) ← Exec.mapErr
    (fun e => .programError s!"WASM execution failed: {e}")
    (attest state requestPtr requestLen).run
  readResult value state

/-- A call that gets as far as running `attest`. -/
theorem WasmModule.execute_eq {module : WasmModule}
    {request : AttestationRequest} {databases started allocated : Databases C}
    {value : Val} {fresh state before : Instance} {requestPtr : UInt32}
    {guestAlloc : Instance → UInt32 → Run}
    {attest : Instance → UInt32 → UInt32 → Run}
    (hstart : module.instantiate.run databases = (.ok (value, fresh), started))
    (halloc : module.guestAlloc = some guestAlloc)
    (hcall : (guestAlloc fresh (UInt32.ofNat request.toJson.length)).run
      started = (.ok (.i32 requestPtr, state), allocated))
    (hwrite : state.write requestPtr request.toJson.length request.toJson =
      some before)
    (hattest : module.attest = some attest) :
    module.execute request databases =
      ((Exec.mapErr
          (fun e => CraftSecError.programError s!"WASM execution failed: {e}")
          (attest before requestPtr
            (UInt32.ofNat request.toJson.length)).run :
        Exec C CraftSecError (Val × Instance)) >>= fun (value, state) =>
          readResult value state) allocated := by
  have hmemory : ∃ data, state.memory = some data := by
    obtain ⟨data, hdata, -⟩ := Option.bind_eq_some_iff.mp hwrite
    exact ⟨data, hdata⟩
  obtain ⟨data, hdata⟩ := hmemory
  rw [execute, Exec.bind_of_ok (Exec.mapErr_of_ok hstart)]
  simp only [halloc, hattest]
  rw [Exec.bind_of_ok (Exec.okOr_some _ _ _),
    Exec.bind_of_ok (Exec.mapErr_of_ok hcall)]
  simp only [hdata]
  rw [Exec.bind_of_ok (Val.unwrapI32_i32 _ _),
    Exec.bind_of_ok (Exec.okOr_some _ _ _), hwrite,
    Exec.bind_of_ok (Exec.orPanic_some _ _),
    Exec.bind_of_ok (Exec.okOr_some _ _ _)]

end Host

/-- `WasmProgramRegistry`. -/
structure WasmProgramRegistry (C : Type) where
  modules : String → Option WasmModule
  databases : Databases C

namespace WasmProgramRegistry

variable {C : Type}

def new : WasmProgramRegistry C := ⟨fun _ => none, .new⟩

/-- `register_wasm`. -/
def registerWasm [WasmCompiler] (registry : WasmProgramRegistry C)
    (cid : String) (wasmBytes : Bytes) :
    Except CraftSecError Unit × WasmProgramRegistry C :=
  match WasmCompiler.compile wasmBytes with
  | .error e =>
      (.error (.programError s!"failed to compile WASM: {e}"), registry)
  | .ok module =>
      (.ok ⟨⟩, { registry with
        modules := Function.update registry.modules cid (some module) })

variable [Sqlite C]

/-- The batch under the lock, on a new database if there is none yet. -/
def setupIn (name sql : String) (map : DatabaseMap C) :
    CallOutcome (Except String Unit) × DatabaseMap C :=
  let db := (map name).getD SqlDatabase.new
  let (outcome, db) := db.execute sql
  (outcome, Function.update map name (some db))

/-- `setup_database`. -/
def setupDatabase (registry : WasmProgramRegistry C) (name sql : String) :
    Except (Stop CraftSecError) Unit × WasmProgramRegistry C :=
  let setup : Exec C CraftSecError Unit := do
    let result ← Exec.underLock (setupIn name sql)
    Exec.ofExcept (result.mapError fun e =>
      .programError s!"SQL setup error: {e}")
  let (result, databases) := setup registry.databases
  (result, { registry with databases := databases })

variable [SerdeJson] [FloatFormat]

/-- `WasmProgramRegistry::execute`. -/
def execute (registry : WasmProgramRegistry C) (request : AttestationRequest) :
    Except (Stop CraftSecError) AttestationResult × WasmProgramRegistry C :=
  match registry.modules request.programCid with
  | none =>
      (.error (.err (.programError
        s!"unknown program CID: {request.programCid}")), registry)
  | some module =>
      let (result, databases) := module.execute request registry.databases
      (result, { registry with databases := databases })

end WasmProgramRegistry

/-- A caller gets no value from a call that never ends, as from one that
panics. -/
def Stop.toAbort : Stop CraftSecError → Abort
  | .err error => .err error
  | .panic => .panic
  | .never => .panic

instance {C : Type} [Sqlite C] [SerdeJson] [FloatFormat] :
    ProgramExecutor (WasmProgramRegistry C) where
  execute registry request :=
    let (result, registry) := registry.execute request
    (result.mapError Stop.toAbort, registry)

end CraftSec
