/-
The registry of WASM programs as a store.  Every database is the commands that
reached it, replayed, and every program the last module that compiled under its
CID; calls that name different databases may change places.
-/
import CraftSec.Node.Queries
import CraftSec.Node.ReadOnly

namespace CraftSec

namespace WasmProgramRegistry

variable {C : Type} [Sqlite C] [SerdeJson] [FloatFormat]

/-- The queries that a call posts. -/
def queries (registry : WasmProgramRegistry C) (request : AttestationRequest) :
    List (String × DbCommand) :=
  match registry.modules request.programCid with
  | some module => module.queries request registry.databases
  | none => []

/-- The registry with commands posted to its databases. -/
def postAll (registry : WasmProgramRegistry C)
    (entries : List (String × DbCommand)) : WasmProgramRegistry C :=
  { registry with
    databases := ⟨registry.databases.lock,
      (databaseCell C).postAll registry.databases.map entries⟩ }

/-- Calls on registries that agree in the modules, in the lock, and in the
databases that the program names, post the same and answer the same. -/
theorem execute_eq (registry other : WasmProgramRegistry C)
    (request : AttestationRequest) (hmodules : other.modules = registry.modules)
    (hlock : other.databases.lock = registry.databases.lock)
    (hagree : ∀ name ∈ (registry.queries request).map Prod.fst,
      other.databases.map name = registry.databases.map name) :
    other.execute request =
        ((registry.execute request).1, { other with
          databases := ⟨(registry.execute request).2.databases.lock,
            (databaseCell C).postAll other.databases.map
              (registry.queries request)⟩ }) ∧
      other.queries request = registry.queries request := by
  obtain ⟨modules, databases⟩ := other
  simp only at hmodules hlock hagree
  subst hmodules
  rw [queries] at hagree
  simp only [queries, execute]
  cases hmodule : registry.modules request.programCid with
  | none =>
      simp only [← hlock]
      exact ⟨rfl, trivial⟩
  | some module =>
      rw [hmodule] at hagree
      obtain ⟨hcall, hsame⟩ :=
        module.posts_execute request registry.databases databases hlock hagree
      simp only [hcall]
      exact ⟨rfl, hsame⟩

theorem execute_queries (registry : WasmProgramRegistry C)
    (request : AttestationRequest) :
    (registry.execute request).2 = { registry with
      databases := ⟨(registry.execute request).2.databases.lock,
        (databaseCell C).postAll registry.databases.map
          (registry.queries request)⟩ } :=
  congrArg Prod.snd
    (execute_eq registry registry request rfl rfl fun _ _ => rfl).1

/-- The call gives the lock back as it found it: none of its statements panics
or runs on for ever. -/
def ReleasesLock (registry : WasmProgramRegistry C)
    (request : AttestationRequest) : Prop :=
  (registry.execute request).2.databases.lock = registry.databases.lock

theorem execute_of_releasesLock {registry : WasmProgramRegistry C}
    {request : AttestationRequest} (hlock : registry.ReleasesLock request) :
    (registry.execute request).2 =
      registry.postAll (registry.queries request) := by
  rw [execute_queries, hlock]
  rfl

/-- The calls name no database in common. -/
def NamesApart (registry : WasmProgramRegistry C)
    (first second : AttestationRequest) : Prop :=
  ∀ name ∈ (registry.queries first).map Prod.fst,
    name ∉ (registry.queries second).map Prod.fst

theorem postAll_append (registry : WasmProgramRegistry C)
    (left right : List (String × DbCommand)) :
    registry.postAll (left ++ right) = (registry.postAll left).postAll right := by
  rw [postAll, Journal.Cell.postAll_append]
  rfl

/-- Calls that name no databases in common answer as each does alone, and post
one after the other what each posts alone. -/
theorem executeAll_of_namesApart (registry : WasmProgramRegistry C)
    {requests : List AttestationRequest}
    (hlock : ∀ request ∈ requests, registry.ReleasesLock request)
    (hapart : requests.Pairwise registry.NamesApart) :
    registry.executeAll requests =
      (requests.map fun request => (registry.execute request).1,
        registry.postAll (requests.flatMap registry.queries)) := by
  induction requests generalizing registry with
  | nil => rfl
  | cons first rest ih =>
      obtain ⟨hfirst, hrest⟩ := List.pairwise_cons.mp hapart
      obtain ⟨hlockFirst, hlockRest⟩ := List.forall_mem_cons.mp hlock
      let next := (registry.execute first).2
      have hnext : next = registry.postAll (registry.queries first) :=
        execute_of_releasesLock hlockFirst
      have hsame : ∀ request ∈ rest,
          (next.execute request).1 = (registry.execute request).1 ∧
            next.ReleasesLock request ∧
            next.queries request = registry.queries request := by
        intro request hrequest
        obtain ⟨hexecute, hqueries⟩ := execute_eq registry next request
          (by rw [hnext, postAll]) (by rw [hnext, postAll]) fun name hname => by
            rw [hnext]
            exact (databaseCell C).postAll_of_not_mem _ fun hown =>
              hfirst request hrequest name hown hname
        have hreleases : next.ReleasesLock request := by
          rw [ReleasesLock, hexecute, hnext]
          exact hlockRest request hrequest
        exact ⟨by rw [hexecute], hreleases, hqueries⟩
      have hapart' : rest.Pairwise next.NamesApart := by
        apply hrest.imp_of_mem
        intro x y hx hy hxy
        rwa [NamesApart, (hsame x hx).2.2, (hsame y hy).2.2]
      have hresults : rest.map (fun request => (next.execute request).1) =
          rest.map fun request => (registry.execute request).1 :=
        List.map_congr_left fun request hrequest => (hsame request hrequest).1
      have hqueries : rest.flatMap next.queries =
          rest.flatMap registry.queries :=
        List.flatMap_congr fun request hrequest =>
          (hsame request hrequest).2.2
      have hrun : registry.executeAll (first :: rest) =
          ((registry.execute first).1 :: (next.executeAll rest).1,
            (next.executeAll rest).2) := rfl
      rw [hrun, ih next (fun request hrequest => (hsame request hrequest).2.1)
          hapart', hresults, hqueries, List.map_cons, List.flatMap_cons,
        postAll_append, hnext]

/-- Calls that name no databases in common, and give the lock back, commute: in
every order each answers as it does alone, and the registry ends up the same. -/
theorem executions_commute (registry : WasmProgramRegistry C)
    {requests reordered : List AttestationRequest}
    (hlock : ∀ request ∈ requests, registry.ReleasesLock request)
    (hapart : requests.Pairwise registry.NamesApart)
    (hperm : requests.Perm reordered) :
    (registry.executeAll requests).1 =
        requests.map (fun request => (registry.execute request).1) ∧
      (registry.executeAll reordered).1 =
        reordered.map (fun request => (registry.execute request).1) ∧
      (registry.executeAll reordered).2 = (registry.executeAll requests).2 := by
  have hsymm : ∀ {first second : AttestationRequest},
      registry.NamesApart first second → registry.NamesApart second first :=
    fun hxy name hsecond hfirst => hxy name hfirst hsecond
  rw [registry.executeAll_of_namesApart hlock hapart,
    registry.executeAll_of_namesApart
      (fun request hmem => hlock request (hperm.mem_iff.mpr hmem))
      ((hperm.pairwise_iff hsymm).mp hapart)]
  refine ⟨rfl, rfl, ?_⟩
  simp only [postAll]
  rw [(databaseCell C).postAll_flatMap_perm hperm hapart]

end WasmProgramRegistry

section Archives

/-- The program that empties an account does so in a database of its own. -/
def archiveRegistry [FloatFormat] : WasmProgramRegistry Ledger where
  modules cid :=
    if cid = "Qm_drain" then
      some { ledgerGuest "UPDATE accounts SET balance = 0"
          (fun _ => refusal.write) with
        instantiate := .returned .other
          ⟨some (utf8 "archives" ++ utf8 "UPDATE accounts SET balance = 0" ++
            utf8 "[]"), []⟩ }
    else ledgerRegistry.modules cid
  databases := (ledgerRegistry.setupDatabase "archives"
    "CREATE TABLE accounts AS SELECT 1000 AS balance").2.databases

theorem archiveRegistry_queries :
    letI := floatFormatReference
    letI := parserOf [.array [], approval, refusal]
    (archiveRegistry.queries drainRequest).map Prod.fst = ["archives"] ∧
      (archiveRegistry.queries sampleRequest).map Prod.fst = ["balances"] ∧
      ∀ request ∈ [drainRequest, sampleRequest],
        (archiveRegistry.execute request).2.databases.lock =
          archiveRegistry.databases.lock := by
  decide +kernel

/-- Then the look at the balance does not depend on it. -/
theorem executions_commute_archives :
    letI := floatFormatReference
    letI := parserOf [.array [], approval, refusal]
    (archiveRegistry.executeAll [sampleRequest, drainRequest]).2 =
        (archiveRegistry.executeAll [drainRequest, sampleRequest]).2 ∧
      (archiveRegistry.executeAll [sampleRequest, drainRequest]).1 =
        [(archiveRegistry.execute sampleRequest).1,
          (archiveRegistry.execute drainRequest).1] := by
  let _ := floatFormatReference
  let _ := parserOf [.array [], approval, refusal]
  obtain ⟨hdrain, hsample, hlock⟩ := archiveRegistry_queries
  have hapart : [drainRequest, sampleRequest].Pairwise
      archiveRegistry.NamesApart := by
    rw [List.pairwise_pair, WasmProgramRegistry.NamesApart, hdrain, hsample]
    decide
  obtain ⟨-, hanswers, hsame⟩ := archiveRegistry.executions_commute
    hlock hapart (List.Perm.swap sampleRequest drainRequest [])
  exact ⟨hsame, hanswers⟩

end Archives

namespace WasmProgramRegistry

variable {C : Type} [Sqlite C] [SerdeJson] [FloatFormat]

/-- A registry is asked to do one of these. -/
inductive Op where
  | registerWasm (cid : String) (wasmBytes : Bytes)
  | setupDatabase (name sql : String)
  | execute (request : AttestationRequest)

variable [WasmCompiler]

/-- The registry after an operation, whatever its outcome. -/
def perform (registry : WasmProgramRegistry C) : Op → WasmProgramRegistry C
  | .registerWasm cid wasmBytes => (registry.registerWasm cid wasmBytes).2
  | .setupDatabase name sql => (registry.setupDatabase name sql).2
  | .execute request => (registry.execute request).2

def performAll (registry : WasmProgramRegistry C) (ops : List Op) :
    WasmProgramRegistry C :=
  ops.foldl perform registry

/-- The module that an operation installs. -/
def installed : Op → Option (String × WasmModule)
  | .registerWasm cid wasmBytes =>
      match WasmCompiler.compile wasmBytes with
      | .ok module => some (cid, module)
      | .error _ => none
  | .setupDatabase _ _ => none
  | .execute _ => none

/-- What an operation posts to the databases. -/
def posted (registry : WasmProgramRegistry C) :
    Op → List (String × DbCommand)
  | .registerWasm _ _ => []
  | .setupDatabase name sql => registry.databases.posting (name, .batch sql)
  | .execute request => registry.queries request

/-- What operations in turn post to the databases. -/
def journal (registry : WasmProgramRegistry C) :
    List Op → List (String × DbCommand)
  | [] => []
  | op :: rest => registry.posted op ++ (registry.perform op).journal rest

omit [WasmCompiler] in
theorem setupDatabase_map (registry : WasmProgramRegistry C)
    (name sql : String) :
    (registry.setupDatabase name sql).2.databases.map =
      (databaseCell C).postAll registry.databases.map
        (registry.databases.posting (name, .batch sql)) := by
  have hanswer : ∀ map others : DatabaseMap C, others name = map name →
      (setupIn name sql others).1 = (setupIn name sql map).1 := by
    intro map others hsame
    rw [setupIn, setupIn, hsame]
  have hposts := (posts_underLock (ε := CraftSecError)
    (setupIn_eq_post name sql) hanswer).bind_free fun result =>
      Exec.free_ofExcept (result.mapError fun e =>
        CraftSecError.programError s!"SQL setup error: {e}")
  exact hposts.map_eq registry.databases

/-- One operation, on the modules and on the databases. -/
theorem perform_databases (registry : WasmProgramRegistry C) (op : Op) :
    (registry.perform op).databases.map =
      (databaseCell C).postAll registry.databases.map
        (registry.posted op) := by
  cases op with
  | registerWasm cid wasmBytes =>
      rw [perform, registerWasm]
      split
      next => rfl
      next => rfl
  | setupDatabase name sql => exact registry.setupDatabase_map name sql
  | execute request =>
      rw [perform, execute_queries]
      rfl

theorem perform_modules (registry : WasmProgramRegistry C) (op : Op) :
    (registry.perform op).modules =
      (Journal.latest WasmModule).postAll registry.modules
        (installed op).toList := by
  cases op with
  | registerWasm cid wasmBytes =>
      rw [perform, registerWasm, installed]
      cases WasmCompiler.compile wasmBytes with
      | error e => rfl
      | ok module =>
        change Function.update registry.modules cid (some module) =
          (Journal.latest WasmModule).post registry.modules (cid, module)
        rw [Journal.Cell.post]
        cases registry.modules cid with
        | none => rfl
        | some old => rfl
  | setupDatabase name sql => rfl
  | execute request =>
      rw [perform, execute_queries]
      rfl

theorem performAll_databases (registry : WasmProgramRegistry C)
    (ops : List Op) :
    (registry.performAll ops).databases.map =
      (databaseCell C).postAll registry.databases.map
        (registry.journal ops) := by
  induction ops generalizing registry with
  | nil => rfl
  | cons op rest ih =>
      have hrest := ih (registry.perform op)
      rw [perform_databases] at hrest
      rw [journal, Journal.Cell.postAll_append]
      exact hrest

theorem performAll_modules (registry : WasmProgramRegistry C)
    (ops : List Op) :
    (registry.performAll ops).modules =
      (Journal.latest WasmModule).postAll registry.modules
        (ops.filterMap installed) := by
  induction ops generalizing registry with
  | nil => rfl
  | cons op rest ih =>
      have hrest := ih (registry.perform op)
      rw [perform_modules] at hrest
      refine hrest.trans ?_
      rw [← Journal.Cell.postAll_append, List.filterMap_cons]
      cases installed op with
      | none => rfl
      | some entry => rfl

omit [WasmCompiler] in
/-- Only a setup that gets the lock posts what can make a database. -/
theorem exists_create_in_posted_iff (registry : WasmProgramRegistry C) (op : Op)
    (name : String) :
    (∃ q, (name, q) ∈ registry.posted op ∧
        ((databaseCell C).create q).isSome) ↔
      ∃ sql, op = .setupDatabase name sql ∧
        registry.databases.lock = .free := by
  cases op with
  | registerWasm cid wasmBytes => simp [posted]
  | setupDatabase other sql =>
      simp only [posted, Databases.mem_posting_iff]
      constructor
      · rintro ⟨q, ⟨hentry, hfree⟩, -⟩
        cases hentry
        exact ⟨sql, rfl, hfree⟩
      · rintro ⟨own, hop, hfree⟩
        cases hop
        exact ⟨.batch sql, ⟨rfl, hfree⟩, rfl⟩
  | execute request =>
      refine iff_of_false ?_ (by simp)
      rintro ⟨q, hmem, hcreate⟩
      rw [posted, queries] at hmem
      split at hmem
      next module _ =>
        rw [module.create_of_mem_queries hmem] at hcreate
        cases hcreate
      next => cases hmem

/-- Some operation sets the database up while the lock is free. -/
def SetsUp (registry : WasmProgramRegistry C) (ops : List Op) (name : String) :
    Prop :=
  ∃ before sql after, ops = before ++ .setupDatabase name sql :: after ∧
    (registry.performAll before).databases.lock = .free

theorem setsUp_cons_iff (registry : WasmProgramRegistry C) (op : Op)
    (rest : List Op) (name : String) :
    registry.SetsUp (op :: rest) name ↔
      (∃ sql, op = .setupDatabase name sql ∧
        registry.databases.lock = .free) ∨
      (registry.perform op).SetsUp rest name := by
  constructor
  · rintro ⟨before, sql, after, hops, hfree⟩
    cases before with
    | nil =>
        cases hops
        exact Or.inl ⟨sql, rfl, hfree⟩
    | cons first before =>
        cases hops
        exact Or.inr ⟨before, sql, after, rfl, hfree⟩
  · rintro (⟨sql, rfl, hfree⟩ | ⟨before, sql, after, rfl, hfree⟩)
    · exact ⟨[], sql, rest, rfl, hfree⟩
    · exact ⟨op :: before, sql, after, rfl, hfree⟩

theorem exists_create_in_journal_iff (registry : WasmProgramRegistry C)
    (ops : List Op) (name : String) :
    (∃ q ∈ Journal.own name (registry.journal ops),
        ((databaseCell C).create q).isSome) ↔ registry.SetsUp ops name := by
  simp only [Journal.mem_own]
  induction ops generalizing registry with
  | nil => simp [journal, SetsUp]
  | cons op rest ih =>
      have hfirst := registry.exists_create_in_posted_iff op name
      have hrest := ih (registry.perform op)
      simp only [journal, List.mem_append, or_and_right, exists_or]
      rw [setsUp_cons_iff, hfirst, hrest]

/-- After any operations a program is the module that compiled last under its
CID, and a database is the commands posted to it, replayed in order; what is
posted to other databases leaves no trace in it.  Databases come from setups
alone, made while the lock is free, and none goes away. -/
theorem registry_replays_journal (registry : WasmProgramRegistry C)
    (ops : List Op) :
    (∀ cid, (registry.performAll ops).modules cid =
      (Journal.own cid (ops.filterMap installed)).getLast?.or
        (registry.modules cid)) ∧
    ∀ name,
      (registry.performAll ops).databases.map name =
        (databaseCell C).replay (registry.databases.map name)
          (Journal.own name (registry.journal ops)) ∧
      (((registry.performAll ops).databases.map name).isSome ↔
        (registry.databases.map name).isSome ∨ registry.SetsUp ops name) := by
  refine ⟨fun cid => ?_, fun name => ?_⟩
  · rw [performAll_modules, Journal.Cell.postAll_apply, Journal.latest_replay]
  · have hreplay : (registry.performAll ops).databases.map name =
        (databaseCell C).replay (registry.databases.map name)
          (Journal.own name (registry.journal ops)) := by
      rw [performAll_databases, Journal.Cell.postAll_apply]
    refine ⟨hreplay, ?_⟩
    rw [hreplay, Journal.Cell.isSome_replay, exists_create_in_journal_iff]

end WasmProgramRegistry

end CraftSec
