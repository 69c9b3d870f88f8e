import PgStatCh.Hooks.Truncation

/-!
# Hooks.BackendState — the hooks of one backend, with what they cache

The hooks of hooks.c build events in three places: at the end of a statement, at the end
of a utility statement, and for a log message. All of them read `backend_state`, where
the backend keeps the names of its session, and the texts that the parse hook has stored
for the statements (`Cache`).

To build an event and to enqueue it the hooks call into PostgreSQL. Such a call can emit
log messages, and each of them comes back through `PschEmitLogHook` and builds an event of
its own in between, which again calls into PostgreSQL; and it can raise an ERROR. A
`CallOut` is one such call with everything that happens in it.

The machine below has the hooks of `Executor` and `Normalize` and the log hook work on one
state. `memcpy` out of `backend_state` is undefined if it leaves the array.

Left out: what becomes of the events in the queue (see `Queue`). What the catalogue says
does not change while one event is built.
-/

namespace PgStatCh

open Lib Tla

/-! ## The session -/

/-- What PostgreSQL answers while an event is built. -/
structure Env where
  myDatabaseId : UInt32 := 1
  /-- `GetUserId()` -/
  userid : UInt32 := 10
  myProcPid : Int32 := 0
  /-- `IsTransactionState()` -/
  inTransaction : Bool := true
  /-- `get_database_name` -/
  databaseName : UInt32 → Option (List UInt8) := fun _ => none
  /-- `GetUserNameFromId` -/
  userName : UInt32 → Option (List UInt8) := fun _ => none
  /-- the setting `application_name` -/
  applicationName : Option (List UInt8) := none
  /-- of `MyProcPort`, if there is one: what `pg_getnameinfo_all` finds, unless it fails -/
  remoteHost : Option (Option (List UInt8)) := none

/-- `PschBackendState`. -/
structure PschBackendState where
  initialized : Bool := false
  datname : CharBuf 64 := .zero 64
  datnameLen : UInt8 := 0
  cachedUserid : UInt32 := 0
  username : CharBuf 64 := .zero 64
  usernameLen : UInt8 := 0
  clientAddr : CharBuf 46 := .zero 46
  clientAddrLen : UInt8 := 0
  normalizeCache : PschNormalizedQueryCache := {}

/-- `PschCopyName`: the buffer and the length. -/
def pschCopyName {n : ℕ} (dst : CharBuf n) (src : List UInt8) : CharBuf n × UInt8 :=
  (strlcpy dst src, UInt8.ofNat (min src.length (n - 1)))

def unknownName : List UInt8 := ascii "<unknown>"

def getApplicationName {n : ℕ} (env : Env) (buf : CharBuf n) : CharBuf n × ℕ :=
  match env.applicationName with
  | some (c :: cs) => pschCopyTrimmed buf (some (c :: cs))
  | _ => (buf.terminate 0, 0)

/-- The address that is reported for a host. -/
def hostAddress (host : List UInt8) : List UInt8 :=
  if host = ascii "[local]" then ascii "127.0.0.1" else host

def getClientAddress {n : ℕ} (env : Env) (buf : CharBuf n) : CharBuf n × ℕ :=
  let buf := buf.terminate 0
  match env.remoteHost with
  | some (some (c :: cs)) =>
    let src := hostAddress (c :: cs)
    (strlcpy buf src, min src.length (n - 1))
  | _ => (buf, 0)

/-! ## The state -/

/-- An event that was built. -/
structure Built where
  env : Env
  /-- the calls of the text cache before it, with its own lookup left out -/
  calls : List PschNormalizedQueryCache.CacheCall
  event : PschEvent

/-- The static variables of hooks.c, with those of the executor hooks in one of them. -/
structure BackendHooks where
  executor : Executor := {}
  disableErrorCapture : Bool := false
  backendState : PschBackendState := {}
  /-- history: the events so far -/
  built : List Built := []
  /-- history: where the catalogue was asked for names -/
  asked : List Env := []
  /-- history: the calls of the text cache that went through -/
  calls : List PschNormalizedQueryCache.CacheCall := []

/-- How a hook can end other than by returning. -/
inductive Raised where
  | error
  | undefined
  deriving DecidableEq

/-- The calls into PostgreSQL that are made for one event. -/
structure EventCalls (α : Type) where
  /-- of `ResolveNames` -/
  datname : α
  username : α
  /-- of `CopyClientContext` -/
  datnameAgain : α
  usernameAgain : α
  /-- in `PschEnqueueEvent` while the guard is set, and behind that -/
  guarded : α
  buffered : α

/-- What `PschEnqueueEvent` finds. -/
structure EnqueueAnswers where
  /-- `psch_shared_state != NULL && psch_enabled` -/
  enabled : Bool := true
  /-- does an ERROR in it pass the `PG_FINALLY` that gives the guard back? -/
  finallyRestores : Bool := true

/-- A log message, and what its capture finds. -/
structure Message where
  edata : ErrorData := {}
  /-- all conditions of `ShouldCaptureLog` but the guard -/
  eligible : Bool := true
  env : Env := {}
  now : Int64 := 0
  /-- what the stack has in the place of the two buffers -/
  errMessage : CharBuf pschMaxErrMsgLen := .zero _
  query : CharBuf pschMaxQueryLen := .zero _
  enqueue : EnqueueAnswers := {}

/-- A call into PostgreSQL, from here to its end. -/
inductive CallOut where
  | returned
  | raised
  /-- a message is emitted, with the calls that are made if it is captured -/
  | emitted (m : Message) (datname username datnameAgain usernameAgain guarded buffered : CallOut)
      (rest : CallOut)

namespace BackendHooks

abbrev M := EStateM Raised BackendHooks

/-! ## Names -/

/-- `memcpy(dst, src, len + 1)`. -/
def memcpyText {n : ℕ} (dst src : CharBuf n) (len : UInt8) : M (CharBuf n) :=
  if len.toNat + 1 ≤ n then pure (dst.write (src.bytes (len.toNat + 1))) else throw .undefined

def setUsername (userid : UInt32) (name : List UInt8) : M Unit :=
  modify fun s =>
    let copied := pschCopyName s.backendState.username name
    { s with backendState.username := copied.1
             backendState.usernameLen := copied.2
             backendState.cachedUserid := userid }

/-- The catalogue is asked; `during` is what happens in the call. -/
def ask (env : Env) (during : M Unit) : M Unit := do
  during
  modify fun s => { s with asked := s.asked ++ [env] }

def cacheUsername (env : Env) (fallbackOnNull : Bool) (during : M Unit) : M Unit := do
  ask env during
  match env.userName env.userid with
  | some name => setUsername env.userid name
  | none => if fallbackOnNull then setUsername env.userid unknownName else pure ()

/-- The first half of `EnsureBackendCache`, in a transaction. -/
def initBackendCache (env : Env) (datname username : M Unit) : M Unit := do
  ask env datname
  modify fun s =>
    let copied := pschCopyName s.backendState.datname
      ((env.databaseName env.myDatabaseId).getD unknownName)
    let addr := getClientAddress env s.backendState.clientAddr
    { s with backendState.datname := copied.1
             backendState.datnameLen := copied.2
             backendState.clientAddr := addr.1
             backendState.clientAddrLen := UInt8.ofNat addr.2 }
  cacheUsername env true username
  modify fun s => { s with backendState.initialized := true }

def ensureBackendCache (env : Env) (datname username : M Unit) : M Unit := do
  let s ← get
  if s.backendState.initialized = false then
    if env.inTransaction then initBackendCache env datname username else pure ()
  else if s.backendState.cachedUserid ≠ env.userid ∧ env.inTransaction = true then
    cacheUsername env false username
  else pure ()

/-- The lookups of `ResolveNames` without the cache. -/
def askFresh (env : Env) (datname username : M Unit) : M Unit :=
  if env.inTransaction then do
    ask env datname
    ask env username
  else pure ()

/-- `ResolveNames` without the cache. -/
def resolveFresh (env : Env) (datname username : M Unit) : M ClientContext := do
  askFresh env datname username
  let found (name : Option (List UInt8)) := if env.inTransaction then name else none
  let datname := pschCopyName (.zero 64) ((found (env.databaseName env.myDatabaseId)).getD
    unknownName)
  let username := pschCopyName (.zero 64) ((found (env.userName env.userid)).getD unknownName)
  pure { datname := datname.1, datnameLen := datname.2
         username := username.1, usernameLen := username.2 }

/-- `ResolveNames`: the names in a context that has nothing else. -/
def resolveNames (env : Env) (datname username : M Unit) : M ClientContext := do
  ensureBackendCache env datname username
  let s ← get
  if s.backendState.initialized then
    let datname ← memcpyText (.zero 64) s.backendState.datname s.backendState.datnameLen
    let username ← memcpyText (.zero 64) s.backendState.username s.backendState.usernameLen
    pure { datname, datnameLen := s.backendState.datnameLen
           username, usernameLen := s.backendState.usernameLen }
  else resolveFresh env datname username

/-- What `CopyClientContext` adds to the context. -/
def addClient (env : Env) (datname username : M Unit) (names : ClientContext) :
    M ClientContext := do
  let app := getApplicationName env (CharBuf.zero 64)
  let names := { names with applicationName := app.1, applicationNameLen := UInt8.ofNat app.2 }
  ensureBackendCache env datname username
  let s ← get
  if s.backendState.initialized then
    let clientAddr ← memcpyText (.zero 46) s.backendState.clientAddr s.backendState.clientAddrLen
    pure { names with clientAddr, clientAddrLen := s.backendState.clientAddrLen }
  else
    let addr := getClientAddress env (CharBuf.zero 46)
    pure { names with clientAddr := addr.1, clientAddrLen := UInt8.ofNat addr.2 }

/-- What `InitBaseEvent` and `CopyClientContext` find out about the session. -/
def clientContext (env : Env) (calls : EventCalls (M Unit)) : M ClientContext := do
  let names ← resolveNames env calls.datname calls.username
  let client ← addClient env calls.datnameAgain calls.usernameAgain names
  pure { client with dbid := env.myDatabaseId, userid := env.userid, pid := env.myProcPid }

/-! ## Events -/

def setGuard (suppress : Bool) : M Unit :=
  modify fun s => { s with disableErrorCapture := suppress }

/-- An ERROR in `PschEnqueueEvent`: only some of its paths give the guard back. -/
def leaveEnqueue (q : EnqueueAnswers) (saved : Bool) (r : Raised) : M Unit :=
  if q.finallyRestores then do
    setGuard saved
    throw r
  else throw r

/-- What a call of `PschEnqueueEvent` does in this backend. -/
def pschEnqueueEvent (q : EnqueueAnswers) (calls : EventCalls (M Unit)) : M Unit := do
  if q.enabled then
    let s ← get
    setGuard true
    tryCatch calls.guarded (leaveEnqueue q s.disableErrorCapture)
    setGuard s.disableErrorCapture
    calls.buffered
  else pure ()

/-- The event of a message is built. -/
def addMessage (m : Message) (client : ClientContext) : M Unit :=
  modify fun s => { s with
    built := s.built ++ [⟨m.env, s.calls, captureLogEvent client m.now s.executor.nestingLevel
      m.errMessage m.query m.edata⟩] }

/-- `CaptureLogEvent`. -/
def captureMessage (m : Message) (calls : EventCalls (M Unit)) : M Unit := do
  let client ← clientContext m.env calls
  addMessage m client
  pschEnqueueEvent m.enqueue calls

/-- The `PG_CATCH` of `PschEmitLogHook`. -/
def flushErrorState : Raised → M Unit
  | .error => pure ()
  | .undefined => throw .undefined

def pschEmitLogHook (m : Message) (calls : EventCalls (M Unit)) : M Unit := do
  let s ← get
  if m.eligible = true ∧ s.disableErrorCapture = false then
    setGuard true
    tryCatch (captureMessage m calls) flushErrorState
    setGuard false
  else pure ()

/-- A call into PostgreSQL. -/
def run : CallOut → M Unit
  | .returned => pure ()
  | .raised => throw .error
  | .emitted m datname username datnameAgain usernameAgain guarded buffered rest => do
    pschEmitLogHook m
      ⟨run datname, run username, run datnameAgain, run usernameAgain, run guarded, run buffered⟩
    run rest

/-- Running out of memory, and asking for a negative length, are ERRORs. -/
def raisedBy : Abort → Raised
  | .outOfMemory => .error
  | .invalidEnlargement _ => .error
  | .undefined => .undefined

/-- A call of the text cache. -/
def onCache {α : Type} (x : PschNormalizedQueryCache.M α) : M α := fun s =>
  match x s.backendState.normalizeCache with
  | .ok a c => .ok a { s with backendState.normalizeCache := c }
  | .error e c => .error (raisedBy e) { s with backendState.normalizeCache := c }

/-- The lookup of `CopyQueryText`. -/
def lookupText (queryId : UInt64) :
    PschNormalizedQueryCache.M (Option (CharBuf pschMaxQueryLen × UInt16)) :=
  PschNormalizedQueryCache.lookup queryId (.zero pschMaxQueryLen)

/-- The event of a statement is built, with a lookup. -/
def addStatement (env : Env) (queryId : UInt64) (event : PschEvent) : M Unit :=
  modify fun s => { s with
    executor.events := s.executor.events ++ [event]
    built := s.built ++ [⟨env, s.calls, event⟩]
    calls := s.calls ++ [.lookup queryId pschMaxQueryLen (.zero _)] }

/-- The event of a statement is built by `make`, from what is found out for it, and enqueued. -/
def statementEvent (env : Env) (q : EnqueueAnswers) (calls : EventCalls (M Unit))
    (queryId : UInt64)
    (make : ClientContext → Option (CharBuf pschMaxQueryLen × UInt16) → PschEvent) : M Unit := do
  let client ← clientContext env calls
  let queryText ← onCache (lookupText queryId)
  addStatement env queryId (make client queryText)
  pschEnqueueEvent q calls

/-- What is found while the event of a statement is built. -/
structure Ending where
  env : Env := {}
  enqueue : EnqueueAnswers := {}
  calls : EventCalls CallOut := ⟨.returned, .returned, .returned, .returned, .returned, .returned⟩

def Ending.programs (x : Ending) : EventCalls (M Unit) :=
  ⟨run x.calls.datname, run x.calls.username, run x.calls.datnameAgain, run x.calls.usernameAgain,
    run x.calls.guarded, run x.calls.buffered⟩

/-! ## The hooks -/

section Hooks

variable (isParallelWorker : Bool)

/-- The event of `PschExecutorEnd`, if there is one. -/
def executorEndEvent (desc : QueryDesc) (a : Measured) (x : Ending) : M Unit := do
  let s ← get
  if a.pschEnabled = false ∨ isParallelWorker = true ∨ desc.queryId = 0 then pure ()
  else if shouldSampleEvent a.sampling (queryDuration desc a.now s.executor.queryStartTs) = false
    then pure ()
  else
    statementEvent x.env x.enqueue x.programs desc.queryId fun client queryText =>
      buildEventFromQueryDesc desc { a with client, queryText } s.executor.queryStartTs
        s.executor.currentQueryIsTopLevel (cpuTimes s.executor.rusageStart a.rusageEnd)

/-- `PschExecutorEnd`, up to its call into PostgreSQL. -/
def pschExecutorEnd (desc : QueryDesc) (a : Measured) (x : Ending) : M Unit := do
  executorEndEvent isParallelWorker desc a x
  modify fun s => { s with executor.stack := .executorEnd :: s.executor.stack }

/-- The event of `PschProcessUtility`, if the hook `f` is one and tracks its statement. -/
def utilityEvent (a : Measured) (x : Ending) : HookFrame → M Unit
  | .processUtility (some u) =>
    if shouldSampleEvent a.sampling a.durationUs = false then pure ()
    else
      statementEvent x.env x.enqueue x.programs u.queryId fun client queryText =>
        buildEventForUtility { a with client, queryText } u.queryId u.startTs u.isTopLevel
          (cpuTimes u.rusageUtilStart a.rusageEnd)
  | _ => pure ()

/-- The call into PostgreSQL returns to the hook `f`. -/
def returnTo (a : Measured) (x : Ending) (f : HookFrame) (below : List HookFrame) : M Unit := do
  modify fun s => { s with executor := s.executor.leave isParallelWorker f below }
  utilityEvent a x f

/-- What the parse hook works on. -/
structure Parse where
  pschEnabled : Bool := true
  /-- `psch_normalize_cache_max`, in the range of the setting -/
  normalizeCacheMax : { m : ℤ // 64 ≤ m ∧ m ≤ 65536 }
  alloc : CacheAlloc := {}
  query : AnalyzedQuery
  jstate : Option JumbleState := none

def Parse.settings (p : Parse) : BackendSettings where
  pschEnabled := p.pschEnabled
  parallelWorker := isParallelWorker
  normalizeCacheMax := p.normalizeCacheMax

/-- The text that is remembered for a statement, if any. -/
def Parse.remembers (core : PgCore) (p : Parse) : Option PschNormalizedQueryCache.CacheCall :=
  if p.pschEnabled = false ∨ isParallelWorker = true ∨ p.query.queryId = 0 then none
  else
    match exportedQuery core p.query p.jstate with
    | .ok (some (text, len)) =>
      some (.remember p.query.queryId ⟨text.take len, (text.take len).length, le_rfl⟩)
    | _ => none

/-- `PschPostParseAnalyze`. -/
def postParseAnalyze (core : PgCore) (p : Parse) : M Unit := do
  onCache (pschPostParseAnalyze core (p.settings isParallelWorker) p.alloc p.query p.jstate)
  modify fun s => { s with calls := s.calls ++ (p.remembers isParallelWorker core).toList }

inductive Label where
  | parse (p : Parse)
  /-- a step of the executor hooks that builds no event -/
  | executor (l : Executor.Label)
  | executorEnd (started : ℕ) (desc : QueryDesc) (a : Measured) (x : Ending)
  | returned (a : Measured) (x : Ending)
  /-- PostgreSQL runs, outside of these hooks -/
  | callOut (c : CallOut)

/-- Does the label stand for itself? The ends of statements have labels of their own here. -/
def plain : Executor.Label → Bool
  | .executorEnd .. => false
  | .returned _ => false
  | _ => true

/-- What a label runs, when it is enabled. -/
def program (core : PgCore) (l : Label) (s : BackendHooks) : Option (M Unit) :=
  match l with
  | .parse p => if s.executor.raising then none else some (postParseAnalyze isParallelWorker core p)
  | .executor l =>
    if plain l then
      (Executor.step isParallelWorker l s.executor).map fun e =>
        modify fun s => { s with executor := e }
    else none
  | .executorEnd started desc a x =>
    if s.executor.raising = false ∧ started < s.executor.starts.length then
      some (pschExecutorEnd isParallelWorker desc a x)
    else none
  | .returned a x =>
    match s.executor.raising, s.executor.stack with
    | false, f :: below => some (returnTo isParallelWorker a x f below)
    | _, _ => none
  | .callOut c => if s.executor.raising then none else some (run c)

/-- The hook returns, or an ERROR leaves it. There is no going on from undefined behaviour. -/
def conclude (x : M Unit) (s : BackendHooks) : Option BackendHooks :=
  match x s with
  | .ok _ s' => some s'
  | .error .error s' => some { s' with executor.raising := !s'.executor.stack.isEmpty }
  | .error .undefined _ => none

/-- A backend from its start on. -/
def machine (core : PgCore) : Machine BackendHooks Label where
  Init := fun s => s = {}
  step := fun l s => (program isParallelWorker core l s).bind fun x => conclude x s

end Hooks

end BackendHooks

end PgStatCh
