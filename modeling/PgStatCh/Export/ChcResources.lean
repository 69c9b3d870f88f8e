import PgStatCh.Lib.Objects
import PgStatCh.Export.ChcInsert

/-!
# Export.ChcResources — what the ClickHouse exporter holds and releases

`ClickHouseExporter` once more, with the objects that it gets from outside: the socket, OpenSSL's
context and connection, the client, the parsed types, the block builder, the packets, and the two
memory contexts in which all but the first three are allocated. Each is released by hand, by the
destructor of a guard, or with its memory context.

A function of the exporter can be left in four ways. It returns; a C++ exception leaves it, and
runs the destructors on the way; an `ERROR` leaves it with `longjmp`, which runs none; or a log
statement finds that the worker has to end, and the exit callback destroys the exporter while its
function is still on the stack. An object that is released or used when it does not live is a
`fault`.

What the outside does is a script, as in `ChcInsert`; what is said on the connection is left out
here. Whether `chc_block_builder_destroy` looks at the types of the columns, which
`CloseConnection` may have destroyed before it, is a field of `Setup`. What is proved of all this is
in `ChcReleased`.
-/

namespace PgStatCh

open Lib Prog

namespace ChcResources

/-! ## Objects -/

/-- The two memory contexts. -/
inductive Cxt where
  | conn
  | batch
deriving DecidableEq, Repr

inductive Kind where
  | context (c : Cxt)
  | addrinfo
  | socket
  | sslCtx
  | ssl
  | client
  | type
  | builder
  | packet
deriving DecidableEq, Repr

/-- The objects of these kinds are allocated in memory context `c`. -/
def Kind.inside (c : Cxt) : Kind → Bool
  | .client | .type | .packet => c == .conn
  | .builder => c == .batch
  | .context _ | .addrinfo | .socket | .sslCtx | .ssl => false

/-- How a function is left that does not return. -/
inductive Stop where
  | exception (e : Exception)
  /-- `longjmp` out of `ereport(ERROR)` -/
  | error
  /-- `proc_exit` -/
  | exit
  /-- an object that does not live was used or released -/
  | fault
deriving DecidableEq, Repr

/-- Only an exception runs destructors. -/
def Stop.unwinds : Stop → Bool
  | .exception _ => true
  | _ => false

/-! ## State -/

/-- Where a field is a pointer or a descriptor, it is the object's identity. -/
structure Exporter where
  objects : Objects Kind := .empty
  connCxt : Option ℕ := none
  batchCxt : Option ℕ := none
  /-- the memory context of `conn_al_` -/
  connAl : Option ℕ := none
  batchAl : Option ℕ := none
  client : Option ℕ := none
  fd : Option ℕ := none
  sslCtx : Option ℕ := none
  ssl : Option ℕ := none
  /-- the socket that `SSL_set_fd` was given -/
  sslFd : Option ℕ := none
  /-- what `io_` reads from and writes to -/
  io : Option (Obj Kind) := none
  types : List (String × ℕ) := []
  bb : Option ℕ := none
  /-- the types that the columns of the builder point to -/
  bbTypes : List ℕ := []
  /-- the message of `build_err_`, if its code is not `CHC_OK` -/
  buildErr : Option String := none
  /-- the events in the columns -/
  columns : List PschEvent := []
  consecutiveFailures : ℕ := 0
  exportedCount : ℕ := 0

abbrev M := EStateM Stop (ExportState Exporter)

/-! ## The outside -/

/-- `psch_clickhouse_use_tls` and `psch_clickhouse_skip_tls_verify`. -/
structure Tls where
  useTls : Bool
  skipTlsVerify : Bool
deriving DecidableEq, Repr

/-- The settings, and what is to be known of the client library. -/
structure Setup extends Tls where
  /-- `chc_block_builder_destroy` looks at the types that the columns point to -/
  destroyReadsTypes : Bool
deriving DecidableEq, Repr

/-- What becomes of a log statement. -/
inductive Logged where
  | returns
  | error
  | exit
deriving DecidableEq, Repr

structure TcpScript where
  getaddrinfo : Bool := true
  /-- for each address whether there is a socket, and what `ConnectWithTimeout` returns -/
  addresses : List (Bool × Bool) := [(true, true)]
  warning : Logged := .returns

structure TlsScript where
  ctxNew : Bool := true
  verifyPaths : Bool := true
  sslNew : Bool := true
  sniHost : Bool := true
  verifyHost : Bool := true
  setFd : Bool := true
  connect : Bool := true
  warning : Logged := .returns

/-- What becomes of `chc_client_init`: where it fails there may be a client. -/
inductive ClientInit where
  | ok
  | fails (left : Bool)
deriving DecidableEq, Repr

structure ConnectScript where
  /-- `AllocSetContextCreate` returns -/
  connCxt : Bool := true
  batchCxt : Bool := true
  tcp : TcpScript := {}
  tls : TlsScript := {}
  clientInit : ClientInit := .ok
  warning : Logged := .returns
  connected : Logged := .returns

/-- What becomes of a column's `Crunch`. -/
structure CrunchScript where
  /-- the message of `chc_type_parse` -/
  parse : Option String := none
  /-- `types_.emplace` -/
  emplace : Option Exception := none
  /-- the message of `chc_block_builder_append_fixed` or `chc_block_builder_append_string` -/
  append : Option String := none

/-- What becomes of `chc_client_recv_packet`, and of the copying of an exception's text. -/
structure RecvScript where
  recv : Chc.Recv
  copy : Option Exception := none

/-- What becomes of the steps of `SendInsert`. A `throws` is the copying of a message. -/
structure InsertScript where
  buildInsertQuery : Option Exception := none
  query : Chc.Step := .ok
  header : ℕ → RecvScript
  data : Chc.Step := .ok
  terminator : Chc.Step := .ok
  reply : ℕ → RecvScript

structure CommitScript where
  /-- the message of `chc_block_builder_init` -/
  builderInit : Option String := none
  connect : ConnectScript := {}
  crunch : ℕ → CrunchScript := fun _ => {}
  inserting : Logged := .returns
  insert : InsertScript
  exported : Logged := .returns
  /-- the warning of `RecordFailure`, and that of a handler -/
  failed : Logged := .returns
  caught : Logged := .returns

/-! ## Using and releasing -/

def log : Logged → M Unit
  | .returns => pure ()
  | .error => throw .error
  | .exit => throw .exit

def throwing : Option Exception → M Unit
  | none => pure ()
  | some e => throw (.exception e)

def use (o : Obj Kind) : M Unit := do
  let s ← get
  if o ∈ s.exporter.objects.live then pure () else throw .fault

def release (o : Obj Kind) : M Unit := do
  use o
  modify fun s => { s with exporter.objects := s.exporter.objects.remove o }

/-- A new object. -/
def make (kind : Kind) : M ℕ := do
  let s ← get
  modify fun s => { s with exporter.objects := s.exporter.objects.add kind }
  pure s.exporter.objects.next

/-- A new object, allocated with an allocator of memory context `c`. -/
def allocate (c : Cxt) (al : Option ℕ) (kind : Kind) : M ℕ :=
  match al with
  | none => throw .fault
  | some cxt => do
    use ⟨.context c, cxt⟩
    make kind

def memoryContextReset (c : Cxt) (cxt : ℕ) : M Unit := do
  use ⟨.context c, cxt⟩
  modify fun s => { s with exporter.objects := s.exporter.objects.clear (Kind.inside c) }

def memoryContextDelete (c : Cxt) (cxt : ℕ) : M Unit := do
  memoryContextReset c cxt
  release ⟨.context c, cxt⟩

/-- `if (field != nullptr) { release(field); field = nullptr; }` -/
def closeField (kind : Kind) (field : Exporter → Option ℕ) (clear : Exporter → Exporter) :
    M Unit := do
  let s ← get
  match field s.exporter with
  | none => pure ()
  | some id =>
    release ⟨kind, id⟩
    modify fun s => { s with exporter := clear s.exporter }

/-! ## The connection -/

def Exporter.memoryContextsReady (x : Exporter) : Bool := x.connCxt.isSome && x.batchCxt.isSome

/-- `AllocSetContextCreate`. -/
def allocSetContextCreate (c : Cxt) (returns : Bool) : M ℕ :=
  if returns then make (.context c) else throw .error

/-- `if (field == nullptr) field = AllocSetContextCreate(...);` -/
def createContext (c : Cxt) (field : Option ℕ) (set : ℕ → Exporter → Exporter) (returns : Bool) :
    M Unit :=
  match field with
  | some _ => pure ()
  | none => do
    let cxt ← allocSetContextCreate c returns
    modify fun s => { s with exporter := set cxt s.exporter }

/-- The body of `EnsureMemoryContexts`'s `PG_TRY`. -/
def createContexts (io : ConnectScript) : M Unit := do
  let s ← get
  createContext .conn s.exporter.connCxt (fun cxt x => { x with connCxt := some cxt }) io.connCxt
  let s ← get
  createContext .batch s.exporter.batchCxt (fun cxt x => { x with batchCxt := some cxt })
    io.batchCxt

/-- `MemoryContextDelete`, if there is a context. -/
def deleteContext (c : Cxt) : Option ℕ → M Unit
  | none => pure ()
  | some cxt => memoryContextDelete c cxt

/-- Its `PG_CATCH`. -/
def deleteContexts : M Unit := do
  let s ← get
  deleteContext .batch s.exporter.batchCxt
  modify fun s => { s with exporter.batchCxt := none }
  deleteContext .conn s.exporter.connCxt
  modify fun s =>
    { s with exporter.connCxt := none, exporter.connAl := none, exporter.batchAl := none }

def ensureMemoryContexts (io : ConnectScript) : M Bool := do
  let s ← get
  if s.exporter.memoryContextsReady then pure true
  else
    tryCatch
      (do
        createContexts io
        modify fun s =>
          { s with exporter.connAl := s.exporter.connCxt, exporter.batchAl := s.exporter.batchCxt }
        pure true)
      (fun
        | .error => do
          deleteContexts
          pure false
        | e => throw e)

/-- The loop of `ClearTypes`. -/
def destroyTypes : List (String × ℕ) → M Unit
  | [] => pure ()
  | t :: rest => do
    release ⟨.type, t.2⟩
    destroyTypes rest

def clearTypes : M Unit := do
  let s ← get
  destroyTypes s.exporter.types
  modify fun s => { s with exporter.types := [] }

def resetBatchContext : M Unit := do
  let s ← get
  match s.exporter.batchCxt with
  | none => pure ()
  | some cxt =>
    memoryContextReset .batch cxt
    modify fun s => { s with exporter.batchAl := some cxt }

def resetConnectionContext : M Unit := do
  clearTypes
  let s ← get
  match s.exporter.connCxt with
  | none => pure ()
  | some cxt =>
    memoryContextReset .conn cxt
    modify fun s => { s with exporter.connAl := some cxt }

def closeClient : M Unit := closeField .client (·.client) ({ · with client := none })

/-- `SSL_shutdown` writes to the socket, if the connection has one. -/
def sslShutdown : M Unit := do
  let s ← get
  match s.exporter.ssl, s.exporter.sslFd with
  | some _, some f => use ⟨.socket, f⟩
  | _, _ => pure ()

def closeSsl : M Unit := do
  sslShutdown
  closeField .ssl (·.ssl) ({ · with ssl := none, sslFd := none })

def closeSslCtx : M Unit := closeField .sslCtx (·.sslCtx) ({ · with sslCtx := none })

def closeFd : M Unit := closeField .socket (·.fd) ({ · with fd := none })

def closeConnection : M Unit := do
  closeClient
  closeSsl
  closeSslCtx
  closeFd
  resetConnectionContext

/-- The loop of `TcpConnect`: a connected socket, if there is one. -/
def connectLoop (res : ℕ) : List (Bool × Bool) → M (Option ℕ)
  | [] => pure none
  | (socket, connected) :: rest => do
    use ⟨.addrinfo, res⟩
    if socket then
      let fd ← make .socket
      use ⟨.socket, fd⟩
      if connected then pure (some fd)
      else
        release ⟨.socket, fd⟩
        connectLoop res rest
    else connectLoop res rest

def warn (l : Logged) : M Bool := do
  log l
  pure false

def tcpConnect (io : TcpScript) : M Bool := do
  if io.getaddrinfo then
    let res ← make .addrinfo
    let fd ← connectLoop res io.addresses
    release ⟨.addrinfo, res⟩
    match fd with
    | none => warn io.warning
    | some fd =>
      use ⟨.socket, fd⟩
      modify fun s => { s with exporter.fd := some fd }
      pure true
  else warn io.warning

/-- `TlsConnect` from `SSL_set_fd` on. -/
def tlsHandshake (io : TlsScript) (ssl : ℕ) : M Bool := do
  if io.setFd then
    let s ← get
    match s.exporter.fd with
    | none => throw .fault
    | some fd =>
      use ⟨.socket, fd⟩
      use ⟨.ssl, ssl⟩
      modify fun s => { s with exporter.sslFd := some fd }
      if io.connect then pure true else warn io.warning
  else warn io.warning

def tlsConnect (cfg : Tls) (io : TlsScript) : M Bool := do
  if io.ctxNew then
    let ctx ← make .sslCtx
    modify fun s => { s with exporter.sslCtx := some ctx }
    use ⟨.sslCtx, ctx⟩
    if cfg.skipTlsVerify || io.verifyPaths then
      if io.sslNew then
        let ssl ← make .ssl
        modify fun s => { s with exporter.ssl := some ssl }
        use ⟨.ssl, ssl⟩
        if io.sniHost && (cfg.skipTlsVerify || io.verifyHost) then tlsHandshake io ssl
        else warn io.warning
      else warn io.warning
    else warn io.warning
  else warn io.warning

/-- The client that `chc_client_init` makes. -/
def makeClient : M Unit := do
  let s ← get
  let client ← allocate .conn s.exporter.connAl .client
  modify fun s => { s with exporter.client := some client }

/-- `EstablishNewConnection` from `chc_client_init` on. -/
def clientInit (io : ConnectScript) : M Bool := do
  let s ← get
  match s.exporter.io with
  | none => throw .fault
  | some target =>
    use target
    match io.clientInit with
    | .ok =>
      makeClient
      log io.connected
      pure true
    | .fails left =>
      if left then makeClient
      log io.warning
      closeClient
      closeConnection
      pure false

def establishNewConnection (cfg : Tls) (io : ConnectScript) : M Bool := do
  if ← ensureMemoryContexts io then
    closeConnection
    if ← tcpConnect io.tcp then
      if cfg.useTls then
        if ← tlsConnect cfg io.tls then
          modify fun s => { s with exporter.io := s.exporter.ssl.map (⟨.ssl, ·⟩) }
          clientInit io
        else
          closeConnection
          pure false
      else
        modify fun s => { s with exporter.io := s.exporter.fd.map (⟨.socket, ·⟩) }
        clientInit io
    else pure false
  else pure false

def recordFailure (message : String) (closeConn : Bool) (warning : Logged) : M Bool := do
  log warning
  modify fun s =>
    { s with exporter.consecutiveFailures := s.exporter.consecutiveFailures + 1
             sendFailures := s.sendFailures + 1, lastErrorText := message }
  if closeConn then
    closeConnection
    pure false
  else pure false

/-! ## `CommitBatch` -/

/-- `ResolveType`. -/
def resolveType (io : CrunchScript) (typeName : String) : M (Option ℕ) := do
  let s ← get
  match s.exporter.types.lookup typeName with
  | some t => pure (some t)
  | none =>
    match io.parse with
    | some message =>
      modify fun s => { s with exporter.buildErr := some message }
      pure none
    | none =>
      let t ← allocate .conn s.exporter.connAl .type
      throwing io.emplace
      modify fun s => { s with exporter.types := s.exporter.types ++ [(typeName, t)] }
      pure (some t)

/-- A call of the block builder `bb_`, for a column that points to these types. -/
def appendColumn (io : CrunchScript) (ts : List ℕ) : M Unit := do
  let s ← get
  match s.exporter.bb with
  | none => throw .fault
  | some bb =>
    use ⟨.builder, bb⟩
    match io.append with
    | some message => modify fun s => { s with exporter.buildErr := some message }
    | none => modify fun s => { s with exporter.bbTypes := s.exporter.bbTypes ++ ts }

/-- `AppendFixed` or `AppendString`. -/
def crunch (io : CrunchScript) (b : Chc.Buffer) : M Unit := do
  let s ← get
  match s.exporter.buildErr, b with
  | some _, _ => pure ()
  | none, .fixed typeName _ =>
    match ← resolveType io typeName with
    | none => pure ()
    | some t =>
      use ⟨.type, t⟩
      appendColumn io [t]
  | none, .strings _ => appendColumn io []

def crunchAll (io : ℕ → CrunchScript) : ℕ → List Chc.Column → M Unit
  | _, [] => pure ()
  | k, col :: rest => do
    crunch (io k) col.buffer
    crunchAll io (k + 1) rest

/-- The client, which reads from or writes to the connection. -/
def useClient : M Unit := do
  let s ← get
  match s.exporter.client, s.exporter.io with
  | some client, some target => do
    use ⟨.client, client⟩
    use target
  | _, _ => throw .fault

/-- A call of the client that sends: an error message, or none. -/
def send (step : Chc.Step) (text : String) : M (Option String) := do
  useClient
  match step with
  | .ok => pure none
  | .fails message => pure (some (orText message text))
  | .throws e => throw (.exception e)

/-- The loop of `RecvUntil`, from packet `i` on and for `n` packets. -/
def recvLoop (target : Chc.PacketKind) (io : ℕ → RecvScript) : ℕ → ℕ → M (Option String)
  | _, 0 => pure (some "too many packets awaiting response")
  | i, n + 1 => do
    useClient
    match (io i).recv with
    | .throws e => throw (.exception e)
    | .fails message => pure (some (orText message "recv_packet failed"))
    | .packet kind displayText =>
      let s ← get
      let packet ← allocate .conn s.exporter.connAl .packet
      let ended ← withCleanup Stop.unwinds (release ⟨.packet, packet⟩) (do
        if kind = .exception then
          throwing (io i).copy
          pure (some (some (displayText.getD "server exception")))
        else if kind = target then pure (some none)
        else pure none)
      match ended with
      | some result => pure result
      | none => recvLoop target io (i + 1) n

def recvUntil (target : Chc.PacketKind) (io : ℕ → RecvScript) : M (Option String) :=
  recvLoop target io 0 Chc.kMaxRecvPackets

def useTypes : List ℕ → M Unit
  | [] => pure ()
  | t :: rest => do
    use ⟨.type, t⟩
    useTypes rest

/-- `chc_client_send_data` reads the block with the types of its columns. -/
def useBlock (bb : ℕ) : M Unit := do
  use ⟨.builder, bb⟩
  let s ← get
  useTypes s.exporter.bbTypes

/-- `SendInsert`: an error message, or none. -/
def sendInsert (io : InsertScript) (bb : ℕ) : M (Option String) := do
  throwing io.buildInsertQuery
  match ← send io.query "send_query failed" with
  | some message => pure (some message)
  | none =>
    match ← recvUntil .data io.header with
    | some message => pure (some message)
    | none =>
      useBlock bb
      match ← send io.data "send_data failed" with
      | some message => pure (some message)
      | none =>
        match ← send io.terminator "send_data terminator failed" with
        | some message => pure (some message)
        | none => recvUntil .endOfStream io.reply

/-- `CommitBatch` from the check of the connection on. -/
def insertBlock (io : CommitScript) (cols : List Chc.Column) (bb : ℕ) : M Bool := do
  modify fun s => { s with exporter.buildErr := none }
  crunchAll io.crunch 0 cols
  let s ← get
  match s.exporter.buildErr with
  | some message => recordFailure (orText message "block build failed") false io.failed
  | none =>
    log io.inserting
    modify fun s => { s with sent := s.sent + 1 }
    match ← sendInsert io.insert bb with
    | some message => recordFailure message true io.failed
    | none =>
      modify fun s =>
        { s with acked := s.acked ++ [s.exporter.columns], exporter.consecutiveFailures := 0 }
      log io.exported
      pure true

/-- `client_ != nullptr`, or a connection could be established. -/
def ensureClient (cfg : Tls) (io : ConnectScript) : M Bool := do
  let s ← get
  if s.exporter.client.isSome then pure true
  else if ← establishNewConnection cfg io then
    let s ← get
    pure s.exporter.client.isSome
  else pure false

/-- `CommitBatch` with a block builder. -/
def commitBlock (cfg : Tls) (io : CommitScript) (cols : List Chc.Column) (bb : ℕ) : M Bool := do
  modify fun s => { s with exporter.bb := some bb, exporter.bbTypes := [] }
  withCleanup Stop.unwinds (modify fun s => { s with exporter.bb := none }) (do
    if ← ensureClient cfg io.connect then insertBlock io cols bb
    else recordFailure "connection not established" false io.failed)

/-- `ChcBlockBuilderDeleter`, the destructor of the builder's guard. -/
def blockBuilderDeleter (readsTypes : Bool) (bb : ℕ) : M Unit := do
  if readsTypes then useBlock bb
  release ⟨.builder, bb⟩

def commitBatch (cfg : Setup) (io : CommitScript) (cols : List Chc.Column) : M Bool :=
  tryCatch
    (do
      let s ← get
      if s.exporter.memoryContextsReady then
        withCleanup Stop.unwinds resetBatchContext (do
          match io.builderInit with
          | some message => recordFailure (orText message "OOM") false io.failed
          | none =>
            let bb ← allocate .batch s.exporter.batchAl .builder
            withCleanup Stop.unwinds (blockBuilderDeleter cfg.destroyReadsTypes bb)
              (commitBlock cfg.toTls io cols bb))
      else recordFailure "allocator not initialized" false io.failed)
    (fun
      | .exception .badAlloc => recordFailure "out of memory" true io.caught
      | .exception (.std what) => recordFailure what true io.caught
      | e => throw e)

/-! ## The life of a worker -/

/-- `~ClickHouseExporter`. -/
def destroy : M Unit := do
  closeConnection
  clearTypes
  let s ← get
  deleteContext .batch s.exporter.batchCxt
  deleteContext .conn s.exporter.connCxt

/-- What becomes of a call of `PschExportBatch`. -/
structure BatchScript where
  connect : ConnectScript := {}
  /-- the events of the batch, the columns that they are in, and what becomes of `CommitBatch`, if
  it comes to that -/
  commit : Option (List PschEvent × List Chc.Column × CommitScript) := none

/-- `PschExportBatch` from `DequeueEvents` on. -/
def exportRows (cfg : Setup) : Option (List PschEvent × List Chc.Column × CommitScript) → M Bool
  | none => pure false
  | some (rows, cols, io) => do
    modify fun s => { s with exporter.columns := rows, exporter.exportedCount := rows.length }
    commitBatch cfg io cols

/-- `PschExportBatch`, as far as the exporter is concerned. To be left in one of its own log
statements is as to be left between two calls. -/
def exportBatch (cfg : Setup) (io : BatchScript) : M Bool := do
  let s ← get
  if s.exporter.client.isSome then exportRows cfg io.commit
  else if ← establishNewConnection cfg.toTls io.connect then exportRows cfg io.commit
  else
    modify fun s =>
      { s with sendFailures := s.sendFailures + 1
               lastErrorText := "Failed to connect to exporter backend" }
    pure false

inductive Call where
  /-- in `PschExporterInit` -/
  | establishNewConnection (io : ConnectScript)
  | exportBatch (io : BatchScript)

def perform (cfg : Setup) : Call → M Bool
  | .establishNewConnection io => establishNewConnection cfg.toTls io
  | .exportBatch io => exportBatch cfg io

/-- A call, with an `ERROR` caught by `ExportBatchWithRecovery`: does the worker go on? -/
def attempt (x : M Bool) : M Bool :=
  tryCatch
    (do
      let _ ← x
      pure true)
    (fun
      | .error => pure true
      | .exit => pure false
      | e => throw e)

/-- The calls on the exporter, and its end: the worker is told to end between two calls or in a
log statement. -/
def serve (cfg : Setup) : List Call → M Unit
  | [] => destroy
  | c :: rest => do
    if ← attempt (perform cfg c) then serve cfg rest else destroy

end ChcResources

end PgStatCh
