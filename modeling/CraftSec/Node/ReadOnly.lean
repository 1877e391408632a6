/-
What programs do to the databases.  `host_sql_query` runs whatever statement
the guest passes, so calls leave the databases alone, and do not influence each
other, exactly as far as the statements do.
-/
import CraftSec.Core.Reference
import CraftSec.Node.Node
import CraftSec.Node.Wasm

namespace CraftSec

section Statements

variable {C : Type} [Sqlite C] [SerdeJson] [FloatFormat]

/-- The statement of a query that reaches a database, with its parameters. -/
def reached (databases : Databases C) (dbName sql params : String) :
    List (String × String) :=
  match databases.lock, databases.map dbName with
  | .free, some _ => [(sql, params)]
  | _, _ => []

/-- The statements that guest code runs on databases, in order. -/
def Run.statements : Run → Databases C → List (String × String)
  | .hostLog state _ msgPtr msgLen resume, databases =>
      match state.read msgPtr msgLen with
      | some _ => resume.statements databases
      | none => []
  | .hostSqlQuery state dbPtr dbLen sqlPtr sqlLen paramsPtr paramsLen
      guestAlloc resume, databases =>
      match state.readQuery dbPtr dbLen sqlPtr sqlLen paramsPtr paramsLen with
      | none => []
      | some (dbName, sql, params) =>
          let query : Exec C String Bytes := queryDatabase dbName sql params
          reached databases dbName sql params ++
            match query databases with
            | (.error _, _) => []
            | (.ok result, next) =>
                let len := UInt32.ofNat result.length
                let answer : Exec C String (Instance × UInt64) :=
                  deliver result fun len => (guestAlloc len).run
                (guestAlloc len).statements next ++
                  match answer next with
                  | (.ok (state, packed), last) =>
                      (resume state packed).statements last
                  | (.error _, _) => []
  | _, _ => []

/-- The statements of one call. -/
def WasmModule.statements (module : WasmModule) (request : AttestationRequest)
    (databases : Databases C) : List (String × String) :=
  let requestBytes := request.toJson
  let requestLen := UInt32.ofNat requestBytes.length
  module.instantiate.statements databases ++
    match module.instantiate.run databases, module.guestAlloc with
    | (.ok (_, state), databases), some guestAlloc =>
        (guestAlloc state requestLen).statements databases ++
          match (guestAlloc state requestLen).run databases with
          | (.ok (.i32 requestPtr, state), databases) =>
              match state.write requestPtr requestBytes.length requestBytes,
                module.attest with
              | some state, some attest =>
                  (attest state requestPtr requestLen).statements databases
              | _, _ => []
          | _ => []
    | _, _ => []

omit [Sqlite C] [SerdeJson] [FloatFormat] in
theorem eq_of_mem_reached {databases : Databases C}
    {dbName sql params : String} {statement : String × String}
    (hmem : statement ∈ reached databases dbName sql params) :
    statement = (sql, params) := by
  rw [reached] at hmem
  split at hmem
  next => exact List.mem_singleton.mp hmem
  next => cases hmem

/-- Where a statement of a query comes from: the call itself, the allocator
that its result needs, or what the guest does next. -/
theorem Run.mem_statements_hostSqlQuery {state : Instance}
    {dbPtr dbLen sqlPtr sqlLen paramsPtr paramsLen : UInt32}
    {guestAlloc : UInt32 → Run} {resume : Instance → UInt64 → Run}
    {databases : Databases C} {statement : String × String}
    (hmem : statement ∈ (Run.hostSqlQuery state dbPtr dbLen sqlPtr sqlLen
      paramsPtr paramsLen guestAlloc resume).statements databases) :
    (∃ dbName, state.readQuery dbPtr dbLen sqlPtr sqlLen paramsPtr paramsLen =
        some (dbName, statement)) ∨
      (∃ (len : UInt32) (next : Databases C),
        statement ∈ (guestAlloc len).statements next) ∨
      ∃ (state : Instance) (packed : UInt64) (last : Databases C),
        statement ∈ (resume state packed).statements last := by
  cases hread : state.readQuery dbPtr dbLen sqlPtr sqlLen paramsPtr
      paramsLen with
  | none =>
      rw [statements, hread] at hmem
      cases hmem
  | some query =>
      obtain ⟨dbName, sql, params⟩ := query
      rw [statements, hread] at hmem
      rcases List.mem_append.mp hmem with hown | hmem
      · rw [eq_of_mem_reached hown]
        exact Or.inl ⟨dbName, rfl⟩
      split at hmem
      next => cases hmem
      next =>
        rcases List.mem_append.mp hmem with halloc | hlater
        · exact Or.inr (Or.inl ⟨_, _, halloc⟩)
        split at hlater
        next => exact Or.inr (Or.inr ⟨_, _, _, hlater⟩)
        next => cases hlater

/-- The statements of a call come from the runs of its exports. -/
theorem WasmModule.mem_statements {module : WasmModule}
    {request : AttestationRequest} {databases : Databases C}
    {statement : String × String}
    (hmem : statement ∈ module.statements request databases) :
    statement ∈ module.instantiate.statements databases ∨
      (∃ guestAlloc state len, ∃ next : Databases C,
        module.guestAlloc = some guestAlloc ∧
          statement ∈ (guestAlloc state len).statements next) ∨
      ∃ attest state ptr len, ∃ next : Databases C,
        module.attest = some attest ∧
          statement ∈ (attest state ptr len).statements next := by
  rw [statements] at hmem
  rcases List.mem_append.mp hmem with hstart | hmem
  · exact Or.inl hstart
  right
  split at hmem
  next guestAlloc _ halloc =>
    rcases List.mem_append.mp hmem with hcall | hmem
    · exact Or.inl ⟨_, _, _, _, halloc, hcall⟩
    right
    split at hmem
    next =>
      split at hmem
      next hattest => exact ⟨_, _, _, _, _, hattest, hmem⟩
      next => cases hmem
    next => cases hmem
  next => cases hmem

namespace WasmProgramRegistry

def statements (registry : WasmProgramRegistry C)
    (request : AttestationRequest) : List (String × String) :=
  match registry.modules request.programCid with
  | some module => module.statements request registry.databases
  | none => []

/-- Calls one after the other: their results, and the registry after them. -/
def executeAll (registry : WasmProgramRegistry C) :
    List AttestationRequest →
      List (Except (Stop CraftSecError) AttestationResult) ×
        WasmProgramRegistry C
  | [] => ([], registry)
  | request :: rest =>
      let (result, registry) := registry.execute request
      let (results, registry) := registry.executeAll rest
      (result :: results, registry)

/-- The statements of all the calls. -/
def allStatements (registry : WasmProgramRegistry C) :
    List AttestationRequest → List (String × String)
  | [] => []
  | request :: rest =>
      registry.statements request ++
        (registry.execute request).2.allStatements rest

end WasmProgramRegistry

end Statements

namespace Exec

variable {C ε ε' α β : Type}

/-- Run on these databases, the computation leaves them as they are. -/
def Keeps (m : Exec C ε α) (databases : Databases C) : Prop :=
  (m databases).2 = databases

theorem keeps_pure (a : α) (databases : Databases C) :
    (pure a : Exec C ε α).Keeps databases := rfl

theorem keeps_throw (stop : Stop ε) (databases : Databases C) :
    (throw stop : Exec C ε α).Keeps databases := rfl

theorem Keeps.bind {m : Exec C ε α} {f : α → Exec C ε β}
    {databases : Databases C} (hm : m.Keeps databases)
    (hf : ∀ a, m databases = (.ok a, databases) → (f a).Keeps databases) :
    (m >>= f).Keeps databases := by
  cases hrun : m databases with
  | mk result after =>
      have hsame : after = databases := by
        rw [← hm, hrun]
      subst hsame
      cases result with
      | ok a =>
          rw [Keeps, bind_of_ok hrun]
          exact hf a hrun
      | error stop => rw [Keeps, bind_of_error hrun]

theorem keeps_orPanic (o : Option α) (databases : Databases C) :
    (orPanic o : Exec C ε α).Keeps databases := by
  cases o <;> rfl

theorem keeps_okOr (error : ε) (o : Option α) (databases : Databases C) :
    (okOr error o : Exec C ε α).Keeps databases := by
  cases o <;> rfl

theorem keeps_ofExcept (result : Except ε α) (databases : Databases C) :
    (ofExcept result).Keeps databases := by
  cases result <;> rfl

theorem Keeps.mapErr {m : Exec C ε α} {databases : Databases C}
    (hm : m.Keeps databases) (f : ε → ε') :
    (Exec.mapErr f m).Keeps databases := by
  rw [Keeps] at hm ⊢
  rw [Exec.mapErr]
  split
  all_goals
    next hrun =>
      rw [hrun] at hm
      exact hm

theorem Keeps.unwrapCall {m : Exec C ε α} {databases : Databases C}
    (hm : m.Keeps databases) :
    (Exec.unwrapCall m : Exec C ε' α).Keeps databases := by
  rw [Keeps] at hm ⊢
  rw [Exec.unwrapCall]
  split
  all_goals
    next hrun =>
      rw [hrun] at hm
      exact hm

theorem keeps_unwrapI32 (value : Val) (databases : Databases C) :
    (value.unwrapI32 : Exec C ε UInt32).Keeps databases := by
  cases value <;> rfl

theorem keeps_unwrapI64 (value : Val) (databases : Databases C) :
    (value.unwrapI64 : Exec C ε UInt64).Keeps databases := by
  cases value <;> rfl

end Exec

section Frame

variable {C : Type} [Sqlite C] [SerdeJson] [FloatFormat]

/-- Statements that leave every connection as it was. -/
def AllReadOnly (C : Type) [Sqlite C] (statements : List (String × String)) :
    Prop :=
  ∀ statement ∈ statements,
    SqlDatabase.ReadOnlyStatement C statement.1 statement.2

theorem allReadOnly_append {left right : List (String × String)}
    (hall : AllReadOnly C (left ++ right)) :
    AllReadOnly C left ∧ AllReadOnly C right :=
  List.forall_mem_append.mp hall

/-- A statement that gets to run leaves the databases alone if it returns and
leaves its connection as it was. -/
theorem queryDatabase_keeps_iff {ε : Type} {databases : Databases C}
    {dbName : String} {db : SqlDatabase C} (hfree : databases.lock = .free)
    (hdb : databases.map dbName = some db) (sql params : String) :
    (queryDatabase dbName sql params : Exec C ε Bytes).Keeps databases ↔
      ∃ rows, db.query sql params = (.returned rows, db) := by
  obtain ⟨lock, map⟩ := databases
  simp only at hfree hdb
  subst hfree
  cases hquery : db.query sql params with
  | mk outcome next =>
      rw [Exec.Keeps, queryDatabase, Exec.underLock]
      simp only [queryIn, hdb, hquery]
      cases outcome with
      | returned rows => simp [hdb]
      | panic => simp
      | never => simp

theorem queryDatabase_keeps {ε : Type} {databases : Databases C}
    {dbName sql params : String}
    (hall : AllReadOnly C (reached databases dbName sql params)) :
    (queryDatabase dbName sql params : Exec C ε Bytes).Keeps databases := by
  cases hlock : databases.lock with
  | poisoned =>
      rw [Exec.Keeps, queryDatabase, Exec.underLock, hlock]
  | held =>
      rw [Exec.Keeps, queryDatabase, Exec.underLock, hlock]
  | free =>
      cases hdb : databases.map dbName with
      | none =>
          obtain ⟨lock, map⟩ := databases
          cases hlock
          rw [Exec.Keeps, queryDatabase, Exec.underLock, queryIn, hdb]
      | some db =>
          rw [queryDatabase_keeps_iff hlock hdb]
          refine hall (sql, params) ?_ db
          rw [reached, hlock, hdb]
          exact List.mem_singleton_self _

omit [Sqlite C] [SerdeJson] [FloatFormat] in
theorem deliver_keeps {ε : Type} {result : Bytes}
    {guestAlloc : UInt32 → Exec C String (Val × Instance)}
    {databases : Databases C}
    (halloc : (guestAlloc (UInt32.ofNat result.length)).Keeps databases) :
    (deliver result guestAlloc : Exec C ε _).Keeps databases := by
  refine halloc.unwrapCall.bind fun call _ => ?_
  refine (Exec.keeps_unwrapI32 _ _).bind fun ptr _ => ?_
  exact (Exec.keeps_orPanic _ _).bind fun state _ => Exec.keeps_pure _ _

/-- Guest code that runs read-only statements leaves the databases alone: the
step is one host call. -/
theorem Run.run_keeps (run : Run) (databases : Databases C)
    (hall : AllReadOnly C (run.statements databases)) :
    run.run.Keeps databases := by
  induction run with
  | returned => exact Exec.keeps_pure _ _
  | trapped => exact Exec.keeps_throw _ _
  | diverges => exact Exec.keeps_throw _ _
  | hostLog state level msgPtr msgLen resume ih =>
      refine (Exec.keeps_orPanic _ _).bind fun msg hmsg => ?_
      apply ih
      rw [statements, (Exec.orPanic_eq_ok hmsg).1] at hall
      exact hall
  | hostSqlQuery state dbPtr dbLen sqlPtr sqlLen paramsPtr paramsLen guestAlloc
      resume ihAlloc ihResume =>
      refine (Exec.keeps_orPanic _ _).bind fun ⟨dbName, sql, params⟩ hread => ?_
      rw [statements, (Exec.orPanic_eq_ok hread).1] at hall
      obtain ⟨hquery, hrest⟩ := allReadOnly_append hall
      refine (queryDatabase_keeps hquery).bind fun result hresult => ?_
      rw [hresult] at hrest
      obtain ⟨halloc, hresume⟩ := allReadOnly_append hrest
      refine (deliver_keeps (ihAlloc _ halloc)).bind
        fun ⟨state, packed⟩ hdeliver => ?_
      apply ihResume
      rw [hdeliver] at hresume
      exact hresume

omit [Sqlite C] [FloatFormat] in
theorem readResult_keeps (value : Val) (state : Instance)
    (databases : Databases C) : (readResult value state).Keeps databases := by
  refine (Exec.keeps_unwrapI64 _ _).bind fun packed _ => ?_
  refine (Exec.keeps_okOr _ _ _).bind fun _ _ => ?_
  refine (Exec.keeps_orPanic _ _).bind fun bytes _ => ?_
  exact Exec.keeps_ofExcept _ _

/-- A call that runs read-only statements leaves the databases alone. -/
theorem WasmModule.execute_keeps {module : WasmModule}
    {request : AttestationRequest} {databases : Databases C}
    (hall : AllReadOnly C (module.statements request databases)) :
    (module.execute request).Keeps databases := by
  rw [statements] at hall
  obtain ⟨hinstantiate, hrest⟩ := allReadOnly_append hall
  refine ((Run.run_keeps _ _ hinstantiate).mapErr _).bind
    fun ⟨_, state⟩ hstart => ?_
  refine (Exec.keeps_okOr _ _ _).bind fun guestAlloc halloc => ?_
  rw [Exec.mapErr_eq_ok hstart, (Exec.okOr_eq_ok halloc).1] at hrest
  obtain ⟨hallocate, hrest⟩ := allReadOnly_append hrest
  refine ((Run.run_keeps _ _ hallocate).mapErr _).bind
    fun ⟨value, state⟩ hcall => ?_
  refine (Exec.keeps_unwrapI32 _ _).bind fun requestPtr hptr => ?_
  refine (Exec.keeps_okOr _ _ _).bind fun _ _ => ?_
  refine (Exec.keeps_orPanic _ _).bind fun written hwrite => ?_
  refine (Exec.keeps_okOr _ _ _).bind fun attest hattest => ?_
  have hreturned := Exec.mapErr_eq_ok hcall
  rw [(Val.unwrapI32_eq_ok hptr).1] at hreturned
  simp only [hreturned, (Exec.orPanic_eq_ok hwrite).1,
    (Exec.okOr_eq_ok hattest).1] at hrest
  refine ((Run.run_keeps _ _ hrest).mapErr _).bind fun ⟨value, state⟩ _ => ?_
  exact readResult_keeps _ _ _

namespace WasmProgramRegistry

variable {registry : WasmProgramRegistry C}

theorem execute_snd_eq {request : AttestationRequest}
    (hall : AllReadOnly C (registry.statements request)) :
    (registry.execute request).2 = registry := by
  rw [statements] at hall
  rw [execute]
  split at hall
  next module hmodule =>
    have hkeeps : (module.execute request registry.databases).2 =
        registry.databases := WasmModule.execute_keeps hall
    rw [hmodule]
    change WasmProgramRegistry.mk registry.modules
      (module.execute request registry.databases).2 = registry
    rw [hkeeps]
  next hmodule => rw [hmodule]

theorem allReadOnly_allStatements_iff (requests : List AttestationRequest) :
    AllReadOnly C (registry.allStatements requests) ↔
      ∀ request ∈ requests, AllReadOnly C (registry.statements request) := by
  induction requests with
  | nil =>
      exact iff_of_true (List.forall_mem_nil _) (List.forall_mem_nil _)
  | cons request rest ih =>
      rw [List.forall_mem_cons, allStatements]
      constructor
      · intro hall
        obtain ⟨hfirst, hrest⟩ := allReadOnly_append hall
        rw [execute_snd_eq hfirst] at hrest
        exact ⟨hfirst, ih.mp hrest⟩
      · rintro ⟨hfirst, hrest⟩
        rw [execute_snd_eq hfirst]
        exact List.forall_mem_append.mpr ⟨hfirst, ih.mpr hrest⟩

/-- Calls with read-only statements return what each returns on its own. -/
theorem executeAll_eq {requests : List AttestationRequest}
    (hall : ∀ request ∈ requests,
      AllReadOnly C (registry.statements request)) :
    registry.executeAll requests =
      (requests.map fun request => (registry.execute request).1, registry) := by
  induction requests with
  | nil => rfl
  | cons request rest ih =>
      obtain ⟨hfirst, hrest⟩ := List.forall_mem_cons.mp hall
      rw [executeAll]
      simp only [execute_snd_eq hfirst, ih hrest, List.map_cons]

theorem executeAll_singleton (request : AttestationRequest) :
    (registry.executeAll [request]).2 = (registry.execute request).2 := rfl

theorem execute_databases {request : AttestationRequest} {module : WasmModule}
    (hmodule : registry.modules request.programCid = some module) :
    (registry.execute request).2.databases =
      (module.execute request registry.databases).2 := by
  rw [execute, hmodule]
  rfl

/-- The result of a call in a registry that holds one module or none. -/
def resultOf (module : Option WasmModule) (databases : Databases C)
    (request : AttestationRequest) :
    Except (Stop CraftSecError) AttestationResult :=
  (WasmProgramRegistry.execute ⟨fun _ => module, databases⟩ request).1

theorem execute_fst (request : AttestationRequest) :
    (registry.execute request).1 =
      resultOf (registry.modules request.programCid) registry.databases
        request := by
  rw [resultOf, execute, execute]
  cases registry.modules request.programCid <;> rfl

/-- Programs are read-only and hold no state over a sequence of calls. -/
structure Stateless (registry : WasmProgramRegistry C)
    (requests : List AttestationRequest) : Prop where
  databases : ∀ done, done <+: requests →
    (registry.executeAll done).2.databases = registry.databases
  results : (registry.executeAll requests).1 =
    requests.map fun request =>
      resultOf (registry.modules request.programCid) registry.databases request
  reordered : ∀ permuted, requests.Perm permuted →
    (requests.zip (registry.executeAll requests).1).Perm
      (permuted.zip (registry.executeAll permuted).1)

theorem not_stateless_of_changed {request : AttestationRequest}
    {rest : List AttestationRequest} {dbName : String}
    (hchanged : (registry.execute request).2.databases.map dbName ≠
      registry.databases.map dbName) :
    ¬ registry.Stateless (request :: rest) := by
  intro hstateless
  have hsame := hstateless.databases [request]
    (List.prefix_append [request] rest)
  rw [executeAll_singleton] at hsame
  exact hchanged (by rw [hsame])

theorem stateless_of_readOnly {requests : List AttestationRequest}
    (hall : AllReadOnly C (registry.allStatements requests)) :
    registry.Stateless requests := by
  rw [allReadOnly_allStatements_iff] at hall
  refine ⟨?_, ?_, ?_⟩
  · intro done hdone
    rw [executeAll_eq fun request hmem => hall request (hdone.subset hmem)]
  · rw [executeAll_eq hall]
    exact List.map_congr_left fun request _ => execute_fst request
  · intro permuted hperm
    rw [executeAll_eq hall,
      executeAll_eq fun request hmem => hall request (hperm.mem_iff.mpr hmem)]
    have hzip (calls : List AttestationRequest) :
        calls.zip (calls.map fun request => (registry.execute request).1) =
          calls.map fun request => (request, (registry.execute request).1) := by
      simpa using List.zip_map' (f := id) (l := calls)
    rw [hzip, hzip]
    exact hperm.map _

end WasmProgramRegistry

end Frame

section Guest

/-- Some guest memory holds the statement and its parameters. -/
def CanPass (sql params : String) : Prop :=
  ∃ (state : Instance) (dbPtr dbLen sqlPtr sqlLen paramsPtr paramsLen : UInt32)
      (dbName : String),
    state.readQuery dbPtr dbLen sqlPtr sqlLen paramsPtr paramsLen =
      some (dbName, sql, params)

/-- A call of an allocator that hands out a memory of its own. -/
def freshMemory (len : ℕ) : Run :=
  .returned (.i32 0) ⟨some (List.replicate len 0), []⟩

/-- A guest that passes one statement on the request and then traps. -/
def oneStatementGuest [FloatFormat] (request : AttestationRequest)
    (state : Instance)
    (dbPtr dbLen sqlPtr sqlLen paramsPtr paramsLen : UInt32) : WasmModule where
  instantiate := .returned .other state
  guestAlloc := some fun _ _ => freshMemory request.toJson.length
  attest := some fun _ _ _ =>
    .hostSqlQuery state dbPtr dbLen sqlPtr sqlLen paramsPtr paramsLen
      (fun len => freshMemory len.toNat) (fun _ _ => .trapped "unreachable")

theorem bind_snd {C ε α β : Type} {m : Exec C ε α} {f : α → Exec C ε β}
    (hf : ∀ a databases, (f a).Keeps databases) (databases : Databases C) :
    ((m >>= f) databases).2 = (m databases).2 := by
  cases hrun : m databases with
  | mk result after =>
      cases result with
      | ok a =>
          rw [Exec.bind_of_ok hrun]
          exact hf a after
      | error stop => rw [Exec.bind_of_error hrun]

theorem mapErr_snd {C ε ε' α : Type} (f : ε → ε') (m : Exec C ε α)
    (databases : Databases C) :
    (Exec.mapErr f m databases).2 = (m databases).2 := by
  rw [Exec.mapErr]
  split <;> next hrun => rw [hrun]

variable {C : Type} [Sqlite C] [SerdeJson] [FloatFormat]
  {request : AttestationRequest} {state : Instance}
  {dbPtr dbLen sqlPtr sqlLen paramsPtr paramsLen : UInt32}
  {dbName sql params : String}

/-- The statement is run, whatever becomes of its result. -/
theorem oneStatementGuest_execute
    (hread : state.readQuery dbPtr dbLen sqlPtr sqlLen paramsPtr paramsLen =
      some (dbName, sql, params)) (databases : Databases C) :
    ((oneStatementGuest request state dbPtr dbLen sqlPtr sqlLen paramsPtr
        paramsLen).execute request databases).2 =
      ((queryDatabase dbName sql params : Exec C String Bytes)
        databases).2 := by
  have hwrite : (Instance.mk
      (some (List.replicate request.toJson.length 0)) []).write 0
      request.toJson.length request.toJson =
        some ⟨some request.toJson, []⟩ := by
    simp [Instance.write]
  rw [WasmModule.execute_eq rfl rfl rfl hwrite rfl,
    bind_snd (fun _ _ => readResult_keeps _ _ _), mapErr_snd, Run.run, hread,
    Exec.bind_of_ok (Exec.orPanic_some _ _), bind_snd]
  intro result databases
  refine (deliver_keeps (Exec.keeps_pure _ _)).bind fun _ _ => ?_
  exact Exec.keeps_throw _ _

theorem oneStatementGuest_statements
    (hread : state.readQuery dbPtr dbLen sqlPtr sqlLen paramsPtr paramsLen =
      some (dbName, sql, params)) {databases : Databases C}
    {statement : String × String}
    (hmem : statement ∈ (oneStatementGuest request state dbPtr dbLen sqlPtr
      sqlLen paramsPtr paramsLen).statements request databases) :
    statement = (sql, params) := by
  rcases WasmModule.mem_statements hmem with hstart |
    ⟨guestAlloc, _, _, _, halloc, hcall⟩ | ⟨attest, _, _, _, _, hattest, hrun⟩
  · cases hstart
  · cases halloc
    cases hcall
  · cases hattest
    rcases Run.mem_statements_hostSqlQuery hrun with ⟨own, hown⟩ |
      ⟨_, _, hcall⟩ | ⟨_, _, _, hlater⟩
    · rw [hread] at hown
      cases hown
      rfl
    · cases hcall
    · cases hlater

/-- A registry with that guest, and one database under every name. -/
def oneStatementRegistry (request : AttestationRequest) (state : Instance)
    (dbPtr dbLen sqlPtr sqlLen paramsPtr paramsLen : UInt32)
    (db : SqlDatabase C) : WasmProgramRegistry C where
  modules _ := some (oneStatementGuest request state dbPtr dbLen sqlPtr sqlLen
    paramsPtr paramsLen)
  databases := ⟨.free, fun _ => some db⟩

/-- The call leaves the databases alone exactly if the statement does. -/
theorem oneStatementRegistry_keeps_iff
    (hread : state.readQuery dbPtr dbLen sqlPtr sqlLen paramsPtr paramsLen =
      some (dbName, sql, params)) (db : SqlDatabase C) :
    ((oneStatementRegistry request state dbPtr dbLen sqlPtr sqlLen paramsPtr
        paramsLen db).executeAll [request]).2.databases =
          ⟨.free, fun _ => some db⟩ ↔
      ∃ rows, db.query sql params = (.returned rows, db) := by
  rw [WasmProgramRegistry.executeAll_singleton,
    WasmProgramRegistry.execute_databases rfl, oneStatementGuest_execute hread]
  exact queryDatabase_keeps_iff rfl rfl sql params

theorem oneStatementRegistry_statements
    (hread : state.readQuery dbPtr dbLen sqlPtr sqlLen paramsPtr paramsLen =
      some (dbName, sql, params)) (db : SqlDatabase C)
    {statement : String × String}
    (hmem : statement ∈ (oneStatementRegistry request state dbPtr dbLen sqlPtr
      sqlLen paramsPtr paramsLen db).allStatements [request]) :
    statement = (sql, params) := by
  rw [WasmProgramRegistry.allStatements, WasmProgramRegistry.allStatements,
    List.append_nil] at hmem
  exact oneStatementGuest_statements hread hmem

/-- What guest code runs it has read from its memory. -/
theorem Run.canPass_of_mem {run : Run} {databases : Databases C}
    {statement : String × String}
    (hmem : statement ∈ run.statements databases) :
    CanPass statement.1 statement.2 := by
  induction run generalizing databases with
  | returned => cases hmem
  | trapped => cases hmem
  | diverges => cases hmem
  | hostLog state level msgPtr msgLen resume ih =>
      rw [statements] at hmem
      split at hmem
      · exact ih hmem
      · cases hmem
  | hostSqlQuery state dbPtr dbLen sqlPtr sqlLen paramsPtr paramsLen guestAlloc
      resume ihAlloc ihResume =>
      rcases mem_statements_hostSqlQuery hmem with ⟨dbName, hread⟩ |
        ⟨len, next, halloc⟩ | ⟨later, packed, last, hlater⟩
      · exact ⟨state, _, _, _, _, _, _, dbName, hread⟩
      · exact ihAlloc len halloc
      · exact ihResume later packed hlater

theorem WasmProgramRegistry.canPass_of_mem {registry : WasmProgramRegistry C}
    {requests : List AttestationRequest} {statement : String × String}
    (hmem : statement ∈ registry.allStatements requests) :
    CanPass statement.1 statement.2 := by
  induction requests generalizing registry with
  | nil => cases hmem
  | cons request rest ih =>
      rw [allStatements] at hmem
      rcases List.mem_append.mp hmem with hfirst | hrest
      · rw [statements] at hfirst
        split at hfirst
        next module _ =>
          rcases WasmModule.mem_statements hfirst with hstart |
            ⟨_, _, _, _, -, hcall⟩ | ⟨_, _, _, _, _, -, hrun⟩
          · exact Run.canPass_of_mem hstart
          · exact Run.canPass_of_mem hcall
          · exact Run.canPass_of_mem hrun
        next => cases hfirst
      · exact ih hrest

end Guest

/-- The calls of guests that pass statements of a class alone are read-only and
stateless exactly when every statement of the class that can be passed returns
and changes no database. -/
theorem programs_stateless_iff (C : Type) [Sqlite C] [SerdeJson] [FloatFormat]
    (Q : String → String → Prop) :
    (∀ (registry : WasmProgramRegistry C) (requests : List AttestationRequest),
      (∀ statement ∈ registry.allStatements requests,
        Q statement.1 statement.2) →
      registry.Stateless requests) ↔
    ∀ sql params, Q sql params → CanPass sql params →
      SqlDatabase.ReadOnlyStatement C sql params := by
  constructor
  · rintro hstateless sql params hclass ⟨state, dbPtr, dbLen, sqlPtr, sqlLen,
      paramsPtr, paramsLen, dbName, hread⟩ db
    let request : AttestationRequest := ⟨"", "", .null, ""⟩
    have hcalls := hstateless (oneStatementRegistry request state dbPtr dbLen
      sqlPtr sqlLen paramsPtr paramsLen db) [request] fun statement hmem => by
        rw [oneStatementRegistry_statements hread db hmem]
        exact hclass
    have hafter := hcalls.databases [request] (List.prefix_refl _)
    exact (oneStatementRegistry_keeps_iff hread db).mp hafter
  · intro hreadOnly registry requests honly
    apply WasmProgramRegistry.stateless_of_readOnly
    intro statement hmem
    exact hreadOnly _ _ (honly statement hmem)
      (WasmProgramRegistry.canPass_of_mem hmem)

section Ledger

/-- A database with at most one account. -/
structure Ledger where
  balance : Option Int64
deriving DecidableEq

/-- A statement that counts for ever. -/
def endlessQuery : String :=
  "WITH RECURSIVE n AS (SELECT 1 UNION ALL SELECT 1 FROM n) " ++
    "SELECT count(*) FROM n"

instance : Sqlite Ledger where
  openInMemory := ⟨none⟩
  executeBatch ledger sql :=
    if sql = "CREATE TABLE accounts AS SELECT 1000 AS balance" ∧
        ledger.balance = none then
      (.returned (.ok ⟨⟩), ⟨some 1000⟩)
    else (.returned (.error ""), ledger)
  query ledger sql params :=
    match ledger.balance, params with
    | some balance, [] =>
        if sql = "UPDATE accounts SET balance = 0" then
          (.returned (.ok []), ⟨some 0⟩)
        else if sql = "SELECT balance FROM accounts" then
          (.returned (.ok [[.integer balance]]), ledger)
        else if sql = endlessQuery then (.never, ledger)
        else (.returned (.error ""), ledger)
    | _, _ => (.returned (.error ""), ledger)

/-- A parser of the texts of the given values. -/
@[reducible]
def parserOf [FloatFormat] (values : List Json) : SerdeJson where
  fromStr text :=
    match values.find? fun value => value.write == utf8 text with
    | some value => .ok value
    | none => .error ""
  transactionError _ := ""

def approval : Json :=
  .object [("status", .string "valid"),
    ("transaction", sampleTransaction.toValue)]

def refusal : Json :=
  .object [("reason", .string "insufficient balance"),
    ("status", .string "invalid")]

/-- The instance with its memory grown by the bytes. -/
def Instance.grow (state : Instance) (bytes : Bytes) : Instance :=
  { state with memory := state.memory.map fun data => data ++ bytes }

/-- Where the grown memory will start. -/
def Instance.size (state : Instance) : UInt32 :=
  UInt32.ofNat (state.memory.getD []).length

/-- A guest that runs one statement and answers by its rows. -/
def ledgerGuest (sql : String) (answer : Bytes → Bytes) : WasmModule :=
  let allocate (state : Instance) (len : UInt32) : Run :=
    .returned (.i32 state.size) (state.grow (List.replicate len.toNat 0))
  let sqlLen := UInt32.ofNat (utf8 sql).length
  { instantiate := .returned .other
      ⟨some (utf8 "balances" ++ utf8 sql ++ utf8 "[]"), []⟩
    guestAlloc := some allocate
    attest := some fun state _ _ =>
      .hostSqlQuery state 0 8 8 sqlLen (8 + sqlLen) 2 (allocate state)
        fun state packed =>
          let rows := (state.read (unpackPtr packed) (unpackLen packed)).getD []
          .returned (.i64 (pack state.size
            (UInt32.ofNat (answer rows).length))) (state.grow (answer rows)) }

/-- A program that empties the account, and one that looks at the balance. -/
def ledgerRegistry [FloatFormat] : WasmProgramRegistry Ledger where
  modules cid :=
    if cid = "Qm_drain" then
      some (ledgerGuest "UPDATE accounts SET balance = 0"
        fun _ => refusal.write)
    else
      some (ledgerGuest "SELECT balance FROM accounts" fun rows =>
        if rows = utf8 "[[0]]" then refusal.write else approval.write)
  databases :=
    (WasmProgramRegistry.new.setupDatabase "balances"
      "CREATE TABLE accounts AS SELECT 1000 AS balance").2.databases

def drainRequest : AttestationRequest :=
  { sampleRequest with programCid := "Qm_drain" }

theorem ledgerRegistry_runs :
    letI := floatFormatReference
    letI := parserOf [.array [], approval, refusal]
    (ledgerRegistry.executeAll [sampleRequest, drainRequest]).1 =
      [.ok (.valid sampleTransaction),
        .ok (.invalid "insufficient balance")] ∧
    (ledgerRegistry.executeAll [drainRequest, sampleRequest]).1 =
      [.ok (.invalid "insufficient balance"),
        .ok (.invalid "insufficient balance")] ∧
    (ledgerRegistry.execute drainRequest).2.databases.map "balances" ≠
      ledgerRegistry.databases.map "balances" := by
  decide +kernel

/-- One program writes, and the order of the calls decides what the other one
answers. -/
theorem guest_write_changes_verdict :
    letI := floatFormatReference
    letI := parserOf [.array [], approval, refusal]
    (¬ ledgerRegistry.Stateless [drainRequest, sampleRequest]) ∧
    (ledgerRegistry.executeAll [sampleRequest, drainRequest]).1 =
      [.ok (.valid sampleTransaction),
        .ok (.invalid "insufficient balance")] ∧
    (ledgerRegistry.executeAll [drainRequest, sampleRequest]).1 =
      [.ok (.invalid "insufficient balance"),
        .ok (.invalid "insufficient balance")] := by
  obtain ⟨hbefore, hafter, hchanged⟩ := ledgerRegistry_runs
  refine ⟨?_, hbefore, hafter⟩
  exact @WasmProgramRegistry.not_stateless_of_changed Ledger _
    (@parserOf floatFormatReference [.array [], approval, refusal])
    floatFormatReference _ _ _ "balances" hchanged

end Ledger

end CraftSec
