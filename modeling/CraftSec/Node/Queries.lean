/-
The queries that a call of a program posts.  They are all that it does to the
databases, and the databases that they name are all that its answer depends on.
-/
import CraftSec.Lib.Journal
import CraftSec.Node.Wasm

namespace CraftSec

/-- What a database is sent: setup statements, and queries of programs. -/
inductive DbCommand where
  | batch (sql : String)
  | query (sql params : String)
deriving DecidableEq

section Postings

variable {C : Type} [Sqlite C] [SerdeJson] [FloatFormat]

variable (C) in
/-- A setup makes the database it names if it has to; a query does not. -/
def databaseCell : Journal.Cell DbCommand (SqlDatabase C) where
  act
    | .batch sql, db => (db.execute sql).2
    | .query sql params, db => (db.query sql params).2
  create
    | .batch sql => some (SqlDatabase.new.execute sql).2
    | .query _ _ => none

theorem queryIn_eq_post (dbName sql params : String) (map : DatabaseMap C) :
    (queryIn dbName sql params map).2 =
      (databaseCell C).post map (dbName, .query sql params) := by
  rw [queryIn, Journal.Cell.post]
  cases hdb : map dbName with
  | none => exact (Function.update_eq_self_iff.mpr hdb.symm).symm
  | some db => rfl

theorem WasmProgramRegistry.setupIn_eq_post (name sql : String)
    (map : DatabaseMap C) :
    (setupIn name sql map).2 =
      (databaseCell C).post map (name, .batch sql) := by
  rw [setupIn, Journal.Cell.post]
  cases map name with
  | none => rfl
  | some db => rfl

/-- A command reaches the databases where the lock is free. -/
def Databases.posting (databases : Databases C)
    (entry : String × DbCommand) : List (String × DbCommand) :=
  match databases.lock with
  | .free => [entry]
  | _ => []

omit [Sqlite C] [SerdeJson] [FloatFormat] in
theorem Databases.mem_posting_iff {databases : Databases C}
    {entry posted : String × DbCommand} :
    posted ∈ databases.posting entry ↔
      posted = entry ∧ databases.lock = .free := by
  rw [posting]
  cases databases.lock with
  | free => simp
  | poisoned => simp
  | held => simp

/-- Work that posts a command to the map posts it if it gets the lock. -/
theorem Exec.underLock_map {ε α : Type}
    {work : DatabaseMap C → CallOutcome α × DatabaseMap C}
    {entry : String × DbCommand}
    (hwork : ∀ map, (work map).2 = (databaseCell C).post map entry)
    (databases : Databases C) :
    ((Exec.underLock work : Exec C ε α) databases).2.map =
      (databaseCell C).postAll databases.map (databases.posting entry) := by
  rw [underLock, Databases.posting]
  cases databases.lock with
  | poisoned => rfl
  | held => rfl
  | free =>
      have hmap := hwork databases.map
      cases hrun : work databases.map with
      | mk outcome map =>
          rw [hrun] at hmap
          cases outcome with
          | returned a => exact hmap
          | panic => exact hmap
          | never => exact hmap

/-- What is posted after a computation, if it ends with a value. -/
def Exec.andThen {ε α : Type} (m : Exec C ε α) (databases : Databases C)
    (later : α → Databases C → List (String × DbCommand)) :
    List (String × DbCommand) :=
  match m databases with
  | (.ok a, databases) => later a databases
  | (.error _, _) => []

/-- The queries that guest code posts, in order. -/
def Run.queries : Run → Databases C → List (String × DbCommand)
  | .hostLog state _ msgPtr msgLen resume, databases =>
      match state.read msgPtr msgLen with
      | some _ => resume.queries databases
      | none => []
  | .hostSqlQuery state dbPtr dbLen sqlPtr sqlLen paramsPtr paramsLen
      guestAlloc resume, databases =>
      match state.readQuery dbPtr dbLen sqlPtr sqlLen paramsPtr paramsLen with
      | none => []
      | some (dbName, sql, params) =>
          let query : Exec C String Bytes := queryDatabase dbName sql params
          databases.posting (dbName, .query sql params) ++
            query.andThen databases fun result next =>
              let answer : Exec C String (Instance × UInt64) :=
                deliver result fun len => (guestAlloc len).run
              (guestAlloc (UInt32.ofNat result.length)).queries next ++
                answer.andThen next fun (state, packed) last =>
                  (resume state packed).queries last
  | _, _ => []

/-- The queries of one call. -/
def WasmModule.queries (module : WasmModule) (request : AttestationRequest)
    (databases : Databases C) : List (String × DbCommand) :=
  let requestBytes := request.toJson
  let requestLen := UInt32.ofNat requestBytes.length
  module.instantiate.queries databases ++
    module.instantiate.run.andThen databases fun (_, state) started =>
      match module.guestAlloc with
      | none => []
      | some guestAlloc =>
          (guestAlloc state requestLen).queries started ++
            (guestAlloc state requestLen).run.andThen started
              fun (value, state) allocated =>
                match value with
                | .i32 requestPtr =>
                    match state.write requestPtr requestBytes.length
                        requestBytes, module.attest with
                    | some state, some attest =>
                        (attest state requestPtr requestLen).queries allocated
                    | _, _ => []
                | _ => []

end Postings

namespace Exec

variable {C ε ε' α β : Type}

/-- The computation does not look at the databases. -/
def Free (m : Exec C ε α) : Prop :=
  ∃ result, ∀ databases, m databases = (result, databases)

theorem free_pure (a : α) : (pure a : Exec C ε α).Free :=
  ⟨.ok a, fun _ => rfl⟩

theorem free_orPanic (o : Option α) : (orPanic o : Exec C ε α).Free := by
  cases o with
  | none => exact ⟨.error .panic, fun _ => rfl⟩
  | some a => exact ⟨.ok a, fun _ => rfl⟩

theorem free_okOr (error : ε) (o : Option α) :
    (okOr error o : Exec C ε α).Free := by
  cases o with
  | none => exact ⟨.error (.err error), fun _ => rfl⟩
  | some a => exact ⟨.ok a, fun _ => rfl⟩

theorem free_ofExcept (result : Except ε α) :
    (ofExcept result : Exec C ε α).Free := by
  cases result with
  | error e => exact ⟨.error (.err e), fun _ => rfl⟩
  | ok a => exact ⟨.ok a, fun _ => rfl⟩

theorem free_unwrapI32 (value : Val) :
    (value.unwrapI32 : Exec C ε UInt32).Free := by
  cases value with
  | i32 n => exact ⟨.ok n, fun _ => rfl⟩
  | i64 n => exact ⟨.error .panic, fun _ => rfl⟩
  | other => exact ⟨.error .panic, fun _ => rfl⟩

theorem free_unwrapI64 (value : Val) :
    (value.unwrapI64 : Exec C ε UInt64).Free := by
  cases value with
  | i32 n => exact ⟨.error .panic, fun _ => rfl⟩
  | i64 n => exact ⟨.ok n, fun _ => rfl⟩
  | other => exact ⟨.error .panic, fun _ => rfl⟩

theorem Free.bind {m : Exec C ε α} (hm : m.Free) {f : α → Exec C ε β}
    (hf : ∀ a, (f a).Free) : (m >>= f).Free := by
  obtain ⟨result, hresult⟩ := hm
  cases result with
  | error stop =>
      exact ⟨.error stop, fun databases => bind_of_error (hresult databases) f⟩
  | ok a =>
      obtain ⟨final, hfinal⟩ := hf a
      refine ⟨final, fun databases => ?_⟩
      rw [bind_of_ok (hresult databases), hfinal]

theorem andThen_mapErr (m : Exec C ε α) (f : ε → ε') (databases : Databases C)
    (later : α → Databases C → List (String × DbCommand)) :
    (Exec.mapErr f m).andThen databases later = m.andThen databases later := by
  rw [andThen, andThen, Exec.mapErr]
  obtain ⟨result, next⟩ := m databases
  cases result with
  | ok a => rfl
  | error stop =>
      cases stop with
      | err error => rfl
      | panic => rfl
      | never => rfl

theorem exists_of_mem_andThen {m : Exec C ε α} {databases : Databases C}
    {later : α → Databases C → List (String × DbCommand)}
    {entry : String × DbCommand} (hentry : entry ∈ m.andThen databases later) :
    ∃ a next, m databases = (.ok a, next) ∧ entry ∈ later a next := by
  rw [andThen] at hentry
  split at hentry
  next a next hrun => exact ⟨a, next, hrun, hentry⟩
  next => cases hentry

theorem andThen_nil (m : Exec C ε α) (databases : Databases C) :
    m.andThen databases (fun _ _ => []) = [] := by
  rw [andThen]
  split
  next => rfl
  next => rfl

variable [Sqlite C] [SerdeJson] [FloatFormat]

/-- The computation posts the entries of its trace.  On other databases that
agree in the lock, and where something is posted, it has the same trace and the
same result, and leaves the lock the same. -/
def Posts (m : Exec C ε α)
    (trace : Databases C → List (String × DbCommand)) : Prop :=
  ∀ databases others : Databases C, others.lock = databases.lock →
    (∀ name ∈ (trace databases).map Prod.fst,
      others.map name = databases.map name) →
    m others = ((m databases).1, ⟨(m databases).2.lock,
        (databaseCell C).postAll others.map (trace databases)⟩) ∧
      trace others = trace databases

theorem Posts.map_eq {m : Exec C ε α}
    {trace : Databases C → List (String × DbCommand)} (hm : m.Posts trace)
    (databases : Databases C) :
    (m databases).2.map =
      (databaseCell C).postAll databases.map (trace databases) :=
  congrArg (fun run => run.2.map)
    (hm databases databases rfl fun _ _ => rfl).1

theorem Free.posts {m : Exec C ε α} (hm : m.Free) :
    m.Posts fun _ => [] := by
  obtain ⟨result, hresult⟩ := hm
  intro databases others hlock _
  rw [hresult, hresult, ← hlock]
  exact ⟨rfl, rfl⟩

/-- What a computation posts, and then what the next one does. -/
theorem Posts.bind {m : Exec C ε α} {f : α → Exec C ε β}
    {trace : Databases C → List (String × DbCommand)} (hm : m.Posts trace)
    {later : α → Databases C → List (String × DbCommand)}
    (hf : ∀ a, (f a).Posts (later a)) :
    (m >>= f).Posts fun databases =>
      trace databases ++ m.andThen databases later := by
  intro databases others hlock hagree
  rw [List.map_append, List.forall_mem_append] at hagree
  obtain ⟨htrace, hlater⟩ := hagree
  obtain ⟨hothers, hsame⟩ := hm databases others hlock htrace
  have hnext := hm.map_eq databases
  simp only [hsame]
  cases hrun : m databases with
  | mk result next =>
      rw [hrun] at hothers hnext
      rw [andThen, hrun] at hlater
      rw [andThen, andThen, hrun, hothers]
      cases result with
      | error stop =>
          rw [bind_of_error hrun, bind_of_error hothers, List.append_nil]
          exact ⟨rfl, rfl⟩
      | ok a =>
          rw [bind_of_ok hrun, bind_of_ok hothers, Journal.Cell.postAll_append]
          have hagree : ∀ name ∈ (later a next).map Prod.fst,
              (databaseCell C).postAll others.map (trace databases) name =
                next.map name := by
            intro name hname
            rw [show next.map = _ from hnext]
            exact (databaseCell C).postAll_congr (hlater name hname) _
          obtain ⟨hresult, hrest⟩ := hf a next
            ⟨next.lock, (databaseCell C).postAll others.map (trace databases)⟩
            rfl hagree
          exact ⟨hresult, congrArg _ hrest⟩

/-- A computation before another one that does not look at the databases. -/
theorem Posts.bind_free {m : Exec C ε α} {f : α → Exec C ε β}
    {trace : Databases C → List (String × DbCommand)} (hm : m.Posts trace)
    (hf : ∀ a, (f a).Free) : (m >>= f).Posts trace := by
  have hbind := hm.bind fun a => (hf a).posts
  simp only [andThen_nil, List.append_nil] at hbind
  exact hbind

theorem Posts.mapErr {m : Exec C ε α}
    {trace : Databases C → List (String × DbCommand)} (hm : m.Posts trace)
    (f : ε → ε') : (Exec.mapErr f m).Posts trace := by
  intro databases others hlock hagree
  obtain ⟨hothers, hsame⟩ := hm databases others hlock hagree
  refine ⟨?_, hsame⟩
  rw [Exec.mapErr, Exec.mapErr, hothers]
  obtain ⟨result, next⟩ := m databases
  cases result with
  | ok a => rfl
  | error stop =>
      cases stop with
      | err error => rfl
      | panic => rfl
      | never => rfl

theorem Posts.mapErr_bind {m : Exec C ε α} {g : α → Exec C ε' β}
    {trace : Databases C → List (String × DbCommand)} (hm : m.Posts trace)
    (f : ε → ε') {later : α → Databases C → List (String × DbCommand)}
    (hg : ∀ a, (g a).Posts (later a)) :
    (Exec.mapErr f m >>= g).Posts fun databases =>
      trace databases ++ m.andThen databases later := by
  have hbind := (hm.mapErr f).bind hg
  simp only [andThen_mapErr] at hbind
  exact hbind

theorem Posts.unwrapCall {m : Exec C ε α}
    {trace : Databases C → List (String × DbCommand)} (hm : m.Posts trace) :
    (Exec.unwrapCall m : Exec C ε' α).Posts trace := by
  intro databases others hlock hagree
  obtain ⟨hothers, hsame⟩ := hm databases others hlock hagree
  refine ⟨?_, hsame⟩
  rw [Exec.unwrapCall, Exec.unwrapCall, hothers]
  obtain ⟨result, next⟩ := m databases
  cases result with
  | ok a => rfl
  | error stop =>
      cases stop with
      | err error => rfl
      | panic => rfl
      | never => rfl

end Exec

section Calls

variable {C : Type} [Sqlite C] [SerdeJson] [FloatFormat]

/-- Work under the lock that posts a command, and answers by the database that
the command names. -/
theorem posts_underLock {ε α : Type}
    {work : DatabaseMap C → CallOutcome α × DatabaseMap C}
    {entry : String × DbCommand}
    (hwork : ∀ map, (work map).2 = (databaseCell C).post map entry)
    (hanswer : ∀ map others : DatabaseMap C, others entry.1 = map entry.1 →
      (work others).1 = (work map).1) :
    (Exec.underLock work : Exec C ε α).Posts
      fun databases => databases.posting entry := by
  rintro databases ⟨lock, others⟩ hlock hagree
  simp only at hlock hagree
  subst hlock
  have hmap := Exec.underLock_map (ε := ε) hwork ⟨databases.lock, others⟩
  have hposting : (Databases.mk databases.lock others).posting entry =
      databases.posting entry := rfl
  rw [hposting] at hmap
  refine ⟨?_, rfl⟩
  rw [← hmap]
  cases hfree : databases.lock with
  | poisoned => simp [Exec.underLock, hfree]
  | held => simp [Exec.underLock, hfree]
  | free =>
      have hsame := hanswer databases.map others
        (hagree entry.1 (by simp [Databases.posting, hfree]))
      simp only [Exec.underLock, hfree]
      cases hrun : work databases.map with
      | mk outcome map =>
          cases hother : work others with
          | mk same map' =>
              rw [hrun, hother] at hsame
              simp only at hsame
              subst hsame
              cases same with
              | returned a => rfl
              | panic => rfl
              | never => rfl

theorem posts_queryDatabase {ε : Type} (dbName sql params : String) :
    (queryDatabase dbName sql params : Exec C ε Bytes).Posts
      fun databases => databases.posting (dbName, .query sql params) := by
  apply posts_underLock (queryIn_eq_post dbName sql params)
  intro map others hsame
  rw [queryIn, queryIn, hsame]
  cases map dbName with
  | none => rfl
  | some db => rfl

/-- Handing a result over posts what the guest's allocator does. -/
theorem posts_deliver {ε : Type} (result : Bytes)
    {guestAlloc : UInt32 → Exec C String (Val × Instance)}
    {trace : Databases C → List (String × DbCommand)}
    (halloc : (guestAlloc (UInt32.ofNat result.length)).Posts trace) :
    (deliver result guestAlloc : Exec C ε (Instance × UInt64)).Posts trace := by
  apply halloc.unwrapCall.bind_free
  rintro ⟨value, state⟩
  apply (Exec.free_unwrapI32 value).bind
  intro ptr
  apply (Exec.free_orPanic _).bind
  intro state
  exact Exec.free_pure _

/-- Guest code posts its queries, through every call back into it. -/
theorem Run.posts_run (run : Run) :
    (run.run : Exec C String (Val × Instance)).Posts run.queries := by
  induction run with
  | returned value state => exact (Exec.free_pure _).posts
  | trapped message => exact Exec.Free.posts ⟨_, fun _ => rfl⟩
  | diverges => exact Exec.Free.posts ⟨_, fun _ => rfl⟩
  | hostLog state level msgPtr msgLen resume ih =>
      rw [Run.run]
      cases hread : state.read msgPtr msgLen with
      | none =>
          have hqueries : (Run.hostLog state level msgPtr msgLen resume).queries =
              fun _ : Databases C => [] := by
            funext databases
            rw [Run.queries, hread]
          rw [hqueries]
          exact Exec.Free.posts ⟨_, fun _ => rfl⟩
      | some message =>
          have hqueries : (Run.hostLog state level msgPtr msgLen resume).queries =
              (resume.queries : Databases C → _) := by
            funext databases
            rw [Run.queries, hread]
          rw [hqueries]
          exact ih
  | hostSqlQuery state dbPtr dbLen sqlPtr sqlLen paramsPtr paramsLen guestAlloc
      resume ihAlloc ihResume =>
      rw [Run.run]
      cases hread : state.readQuery dbPtr dbLen sqlPtr sqlLen paramsPtr
          paramsLen with
      | none =>
          have hqueries : (Run.hostSqlQuery state dbPtr dbLen sqlPtr sqlLen
              paramsPtr paramsLen guestAlloc resume).queries =
                fun _ : Databases C => [] := by
            funext databases
            rw [Run.queries, hread]
          rw [hqueries]
          exact Exec.Free.posts ⟨_, fun _ => rfl⟩
      | some query =>
          obtain ⟨dbName, sql, params⟩ := query
          have hquery := posts_queryDatabase (C := C) (ε := String) dbName sql
            params
          -- the allocator is entered for the result, then the guest goes on
          have hanswer : ∀ result, (deliver result
              (fun len => (guestAlloc len).run) :
                Exec C String (Instance × UInt64)).Posts
              (guestAlloc (UInt32.ofNat result.length)).queries :=
            fun result => posts_deliver result (ihAlloc _)
          have hposts := hquery.bind fun result =>
            (hanswer result).bind fun answer => ihResume answer.1 answer.2
          have hqueries : (Run.hostSqlQuery state dbPtr dbLen sqlPtr sqlLen
              paramsPtr paramsLen guestAlloc resume).queries =
                fun databases : Databases C =>
                  databases.posting (dbName, .query sql params) ++
                    (queryDatabase dbName sql params :
                        Exec C String Bytes).andThen databases fun result next =>
                      (guestAlloc (UInt32.ofNat result.length)).queries next ++
                        (deliver result (fun len => (guestAlloc len).run) :
                            Exec C String (Instance × UInt64)).andThen next
                          fun answer last =>
                            (resume answer.1 answer.2).queries last := by
            funext databases
            rw [Run.queries, hread]
          rw [hqueries]
          exact hposts

omit [Sqlite C] [FloatFormat] in
theorem free_readResult (value : Val) (state : Instance) :
    (readResult value state : Exec C CraftSecError AttestationResult).Free := by
  apply (Exec.free_unwrapI64 value).bind
  intro packed
  apply (Exec.free_okOr _ _).bind
  intro memory
  apply (Exec.free_orPanic _).bind
  intro resultBytes
  exact Exec.free_ofExcept _

/-- A call posts the queries of the exports it gets to run. -/
theorem WasmModule.posts_execute (module : WasmModule)
    (request : AttestationRequest) :
    (module.execute request : Exec C CraftSecError AttestationResult).Posts
      (module.queries request) := by
  apply module.instantiate.posts_run.mapErr_bind
  rintro ⟨_, state⟩
  cases hguestAlloc : module.guestAlloc with
  | none => exact Exec.Free.posts ⟨_, fun _ => rfl⟩
  | some guestAlloc =>
      apply (guestAlloc state
        (UInt32.ofNat request.toJson.length)).posts_run.mapErr_bind
      rintro ⟨value, state⟩
      cases value with
      | i64 n => exact Exec.Free.posts ⟨_, fun _ => rfl⟩
      | other => exact Exec.Free.posts ⟨_, fun _ => rfl⟩
      | i32 requestPtr =>
          have hunwrap : ∀ next : UInt32 → Exec C CraftSecError
              AttestationResult, ((Val.i32 requestPtr).unwrapI32 >>= next) =
                next requestPtr := fun _ => rfl
          simp only [hunwrap]
          cases hwrite : state.write requestPtr request.toJson.length
              request.toJson with
          | none =>
              cases hmemory : state.memory with
              | none => exact Exec.Free.posts ⟨_, fun _ => rfl⟩
              | some data => exact Exec.Free.posts ⟨_, fun _ => rfl⟩
          | some before =>
              obtain ⟨data, hmemory, -⟩ := Option.bind_eq_some_iff.mp hwrite
              rw [hmemory]
              cases hattest : module.attest with
              | none => exact Exec.Free.posts ⟨_, fun _ => rfl⟩
              | some attest =>
                  have hattested := (attest before requestPtr
                    (UInt32.ofNat request.toJson.length)).posts_run (C := C)
                      |>.mapErr fun e =>
                        CraftSecError.programError
                          s!"WASM execution failed: {e}"
                  exact hattested.bind_free fun result =>
                    free_readResult result.1 result.2

/-- Programs do not make databases. -/
theorem Run.create_of_mem_queries (run : Run) {databases : Databases C}
    {entry : String × DbCommand} (hentry : entry ∈ run.queries databases) :
    (databaseCell C).create entry.2 = none := by
  induction run generalizing databases with
  | returned value state => cases hentry
  | trapped message => cases hentry
  | diverges => cases hentry
  | hostLog state level msgPtr msgLen resume ih =>
      rw [Run.queries] at hentry
      split at hentry
      next => exact ih hentry
      next => cases hentry
  | hostSqlQuery state dbPtr dbLen sqlPtr sqlLen paramsPtr paramsLen guestAlloc
      resume ihAlloc ihResume =>
      rw [Run.queries] at hentry
      split at hentry
      next => cases hentry
      next dbName sql params _ =>
        rcases List.mem_append.mp hentry with hown | hentry
        · rw [(Databases.mem_posting_iff.mp hown).1]
          rfl
        obtain ⟨result, next, -, hentry⟩ := Exec.exists_of_mem_andThen hentry
        rcases List.mem_append.mp hentry with halloc | hlater
        · exact ihAlloc _ halloc
        · obtain ⟨answer, last, -, hresume⟩ := Exec.exists_of_mem_andThen hlater
          exact ihResume answer.1 answer.2 hresume

theorem WasmModule.create_of_mem_queries (module : WasmModule)
    {request : AttestationRequest} {databases : Databases C}
    {entry : String × DbCommand}
    (hentry : entry ∈ module.queries request databases) :
    (databaseCell C).create entry.2 = none := by
  rw [WasmModule.queries] at hentry
  rcases List.mem_append.mp hentry with hstart | hentry
  · exact Run.create_of_mem_queries _ hstart
  obtain ⟨start, started, -, hentry⟩ := Exec.exists_of_mem_andThen hentry
  cases hguestAlloc : module.guestAlloc with
  | none =>
      rw [hguestAlloc] at hentry
      cases hentry
  | some guestAlloc =>
      rw [hguestAlloc] at hentry
      rcases List.mem_append.mp hentry with halloc | hentry
      · exact Run.create_of_mem_queries _ halloc
      obtain ⟨⟨value, state⟩, allocated, -, hentry⟩ :=
        Exec.exists_of_mem_andThen hentry
      cases value with
      | i64 n => cases hentry
      | other => cases hentry
      | i32 requestPtr =>
          simp only at hentry
          split at hentry
          next => exact Run.create_of_mem_queries _ hentry
          next => cases hentry

end Calls

end CraftSec
