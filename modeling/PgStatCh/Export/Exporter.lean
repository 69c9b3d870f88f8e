import Mathlib.Algebra.GroupWithZero.Nat
import PgStatCh.Lib.Prog
import PgStatCh.Queue.Event

/-!
# Export.Exporter — the two exporters

`StatsExporter` (exporter_interface.h) and what implements it: `ClickHouseExporter`
collects a batch in columns and inserts it as one block when the batch is committed;
`OTelExporter` writes log records into a request and sends the request whenever it
is full, and the rest when the batch is committed; it also sends ready-made Arrow
blocks. Everything that can go wrong on the way is asked of a `Plan`: a call
succeeds, fails with a message, throws, or is left by an ERROR.

The last is what PostgreSQL adds: whoever writes a message looks for interrupts after it, and
one that cancels makes an ERROR of it. It leaves with `longjmp`, past all handlers and
destructors of C++, and is caught by the worker's drain loop. So every log statement is a point
of the plan, too.

A request is the list of the events in it. The columns, log records and blocks that
encode them are left out here, with what they cost in bytes kept; the texts of log lines too.
-/

namespace PgStatCh

open Lib

/-! ## What the world answers -/

/-- A C++ exception. -/
inductive Exception where
  | badAlloc
  | std (what : String)
deriving DecidableEq, Repr

/-- `e.what()`. -/
def Exception.what : Exception → String
  | .badAlloc => "std::bad_alloc"
  | .std what => what

/-- How a function is left that does not return. -/
inductive Exit where
  | exception (e : Exception)
  /-- an ERROR of PostgreSQL, which no handler of C++ stops -/
  | error
deriving DecidableEq, Repr

/-- What becomes of a call that can go wrong. -/
inductive Reply where
  | ok
  | fails (message : String)
  | throws (e : Exception)
  /-- a message that is written there is left by an ERROR -/
  | raises
deriving DecidableEq, Repr

/-- The log statements of `PschExportBatch` and of what it calls. Those that only an event or
a step of the connection writes belong to its point. -/
inductive LogStatement where
  /-- "PschExportBatch() called" -/
  | called
  /-- "client is null, initializing" -/
  | initializing
  /-- ClickHouse's "failed to connect" after `chc_client_init` -/
  | connectFailed
  /-- "connected to ClickHouse" -/
  | connected
  /-- "OTel init failed" -/
  | otelInitFailed
  /-- "dequeuing events" -/
  | dequeuing
  /-- "no events to export" -/
  | noEvents
  /-- "exporting batch of ... events", or of ... "as Arrow IPC" -/
  | exporting
  /-- "ExportEventStatsInternal() called" -/
  | buildingRows
  /-- "finished processing ... events" -/
  | builtRows
  /-- in the handlers of `ExportEventStats` -/
  | eventStats
  /-- "Inserting Block to ClickHouse" -/
  | inserting
  /-- "exported ... events to ClickHouse" -/
  | inserted
  /-- in `RecordFailure` -/
  | recordFailure
  /-- "gRPC export failed" and "Arrow batch gRPC failed" -/
  | sendFailed
  /-- in the handlers of `OTelExporter`'s `CommitBatch` and `SendArrowBatch` -/
  | sendThrew
  /-- "failed to initialize Arrow batch builder" -/
  | arrowInitFailed
  /-- in the handlers of `ExportEventsAsArrow` -/
  | arrowExport
  /-- in the handlers of `PschExportBatch` -/
  | exportBatch
deriving DecidableEq, Repr

/-- Where a call of `PschExportBatch` can go wrong. -/
inductive Point where
  /-- `EnsureMemoryContexts` -/
  | memoryContexts
  /-- the rest of `EstablishNewConnection` -/
  | connect
  /-- whether `chc_client_init` leaves no client where it fails -/
  | noClient
  /-- `events.reserve` in `DequeueEvents` -/
  | reserve
  /-- `BeginBatch` and the column factories -/
  | beginBatch
  /-- what is built for event `i`: its log record, its appends to the columns -/
  | row (i : ℕ)
  /-- request `j` -/
  | send (j : ℕ)
  /-- `ResetChunk` or `ArrowBatchBuilder::Reset`, after `n` requests -/
  | reset (n : ℕ)
  /-- `ArrowBatchBuilder` and its `Init` -/
  | arrowInit
  /-- `ArrowBatchBuilder::Finish` for request `j` -/
  | finish (j : ℕ)
  /-- `chc_block_builder_init` -/
  | blockBuilderInit
  /-- the columns' `Crunch` -/
  | crunch
  | log (l : LogStatement)
deriving DecidableEq, Repr

abbrev Plan := Point → Reply

/-! ## State -/

/-- What the export code works on: the exporter, the shared counters, and as history
the requests sent in this call and those the backend has ever acknowledged. -/
structure ExportState (ε : Type) where
  exporter : ε
  /-- `psch_shared_state->exported` -/
  exported : UInt64 := 0
  /-- `psch_shared_state->send_failures` -/
  sendFailures : UInt64 := 0
  /-- `psch_shared_state->last_error_text`, before it is cut to the buffer -/
  lastErrorText : String := ""
  sent : ℕ := 0
  acked : List (List PschEvent) := []

abbrev ExportM (ε : Type) := EStateM Exit (ExportState ε)

namespace Plan

variable {ε : Type} (plan : Plan)

/-- A call that returns an error message, or none. -/
def call (p : Point) : ExportM ε (Option String) :=
  match plan p with
  | .ok => pure none
  | .fails message => pure (some message)
  | .throws e => throw (.exception e)
  | .raises => throw .error

/-- A call that returns no error. -/
def run (p : Point) : ExportM ε Unit :=
  match plan p with
  | .throws e => throw (.exception e)
  | .raises => throw .error
  | _ => pure ()

/-- A log statement. -/
def log (l : LogStatement) : ExportM ε Unit :=
  match plan (.log l) with
  | .raises => throw .error
  | _ => pure ()

/-- Send a request with the events `rows`. -/
def send (rows : List PschEvent) : ExportM ε (Option String) := do
  let s ← get
  modify fun s => { s with sent := s.sent + 1 }
  match ← plan.call (.send s.sent) with
  | some message => pure (some message)
  | none =>
    modify fun s => { s with acked := s.acked ++ [rows] }
    pure none

end Plan

/-- `try { body } catch (...) { handler }` for C++ exceptions: an ERROR passes. -/
def catching {ε α : Type} (body : ExportM ε α) (handler : Exception → ExportM ε α) :
    ExportM ε α :=
  tryCatch body fun
    | .exception e => handler e
    | .error => throw .error

/-- `RecordExporterFailure`, that is `PschRecordExportFailure`. -/
def recordExporterFailure {ε : Type} (message : String) : ExportM ε Unit :=
  modify fun s => { s with sendFailures := s.sendFailures + 1, lastErrorText := message }

/-- `err.msg[0] ? err.msg : text`. -/
def orText (message text : String) : String := if message = "" then text else message

/-- `StatsExporter`. `beginBatch` includes the column factories. -/
class StatsExporter (ε : Type) where
  /-- the value of `psch_use_otel` for which `PschExporterInit` makes this exporter -/
  useOtel : Bool
  /-- a new exporter -/
  Made : ε → Prop
  beginBatch : Plan → ExportM ε Unit
  beginRow : Plan → ExportM ε Unit
  /-- the appends of event `i` -/
  appendRow : Plan → ℕ → PschEvent → ExportM ε Unit
  commitBatch : Plan → ExportM ε Bool
  establishNewConnection : Plan → ExportM ε Bool
  isConnected : ε → Bool
  /-- an `int` in the source: that it overflows after `2 ^ 31 - 1` failures in a row, which is
  undefined, is left out -/
  numConsecutiveFailures : ε → ℕ
  numExported : ε → ℕ
  sendArrowBatch : Plan → List PschEvent → ExportM ε Bool := fun _ _ => pure false

/-! ## ClickHouse -/

structure ClickHouseExporter where
  /-- `conn_cxt_` and `batch_cxt_` are there -/
  memoryContextsReady : Bool := false
  /-- `client_ != nullptr` -/
  client : Bool := false
  /-- the events in the columns -/
  columns : List PschEvent := []
  /-- without the overflow of `numConsecutiveFailures` -/
  consecutiveFailures : ℕ := 0
  exportedCount : ℕ := 0

namespace ClickHouseExporter

abbrev M := ExportM ClickHouseExporter

def closeConnection : M Unit :=
  modify fun s => { s with exporter.client := false }

variable (plan : Plan)

def recordFailure (message : String) (closeConn : Bool) : M Bool := do
  plan.log .recordFailure
  modify fun s => { s with exporter.consecutiveFailures := s.exporter.consecutiveFailures + 1 }
  recordExporterFailure message
  if closeConn then
    closeConnection
    pure false
  else pure false

def ensureMemoryContexts : M Bool := do
  let s ← get
  if s.exporter.memoryContextsReady then pure true
  else
    match ← plan.call .memoryContexts with
    | some _ => pure false
    | none =>
      modify fun s => { s with exporter.memoryContextsReady := true }
      pure true

def establishNewConnection : M Bool := do
  if ← ensureMemoryContexts plan then
    closeConnection
    match ← plan.call .connect with
    | some _ =>
      -- where `chc_client_init` fails there may be a client, until it is closed
      modify fun s => { s with exporter.client := decide (plan .noClient ≠ .ok) }
      plan.log .connectFailed
      closeConnection
      pure false
    | none =>
      modify fun s => { s with exporter.client := true }
      plan.log .connected
      pure true
  else pure false

def beginBatch : M Unit := do
  modify fun s => { s with exporter.columns := [], exporter.exportedCount := 0 }
  plan.run .beginBatch

def beginRow : M Unit :=
  modify fun s => { s with exporter.exportedCount := s.exporter.exportedCount + 1 }

def appendRow (i : ℕ) (ev : PschEvent) : M Unit := do
  plan.run (.row i)
  modify fun s => { s with exporter.columns := s.exporter.columns ++ [ev] }

/-- `CommitBatch` from the check of the connection on. -/
def insertBlock : M Bool := do
  match ← plan.call .crunch with
  | some message => recordFailure plan (orText message "block build failed") false
  | none =>
    plan.log .inserting
    let s ← get
    match ← plan.send s.exporter.columns with
    | some message => recordFailure plan message true
    | none =>
      modify fun s => { s with exporter.consecutiveFailures := 0 }
      plan.log .inserted
      pure true

/-- `client_ != nullptr`, or a connection could be established. -/
def ensureClient : M Bool := do
  let s ← get
  if s.exporter.client then pure true
  else if ← establishNewConnection plan then
    let s ← get
    pure s.exporter.client
  else pure false

def commitBatch : M Bool :=
  catching
    (do
      let s ← get
      if s.exporter.memoryContextsReady then
        match ← plan.call .blockBuilderInit with
        | some message => recordFailure plan (orText message "OOM") false
        | none =>
          if ← ensureClient plan then insertBlock plan
          else recordFailure plan "connection not established" false
      else recordFailure plan "allocator not initialized" false)
    (fun
      | .badAlloc => recordFailure plan "out of memory" true
      | .std what => recordFailure plan what true)

instance : StatsExporter ClickHouseExporter where
  useOtel := false
  Made := fun c => c = {}
  beginBatch := beginBatch
  beginRow := fun _ => beginRow
  appendRow := appendRow
  commitBatch := commitBatch
  establishNewConnection := establishNewConnection
  isConnected := client
  numConsecutiveFailures := consecutiveFailures
  numExported := exportedCount

end ClickHouseExporter

/-! ## OpenTelemetry -/

section Sizes

def kMinBytesPerRecord : ℕ := 1200

def kRequestOverheadBytes : ℕ := 512

def kLogRecordOverheadBytes : ℕ := 128

def kAttrOverheadBytes : ℕ := 24

/-- `EstimateStringAttrBytes`, for a value of `len` bytes. -/
def estimateStringAttrBytes (key : String) (len : ℕ) : ℕ :=
  kAttrOverheadBytes + key.utf8ByteSize + len

def estimateScalarAttrBytes (key : String) : ℕ := kAttrOverheadBytes + key.utf8ByteSize + 8

/-- `IntColumn::Append`: zeros are left out. -/
def intColumnBytes (key : String) (nonzero : Bool) : ℕ :=
  if nonzero then estimateScalarAttrBytes key else 0

/-- `ClampFieldLen`. -/
def clampFieldLen (len max : ℕ) : ℕ := if len ≤ max then len else max

theorem clampFieldLen_eq_min (len max : ℕ) : clampFieldLen len max = min len max := by
  unfold clampFieldLen
  split <;> omega

/-- `PSCH_MAX_APP_NAME_LEN`. -/
def pschMaxAppNameLen : ℕ := 63

/-- `PSCH_MAX_CLIENT_ADDR_LEN`. -/
def pschMaxClientAddrLen : ℕ := 45

/-- `PschCmdTypeToString`. -/
def pschCmdTypeToString : PschCmdType → String
  | .select => "SELECT"
  | .update => "UPDATE"
  | .insert => "INSERT"
  | .delete => "DELETE"
  | .merge => "MERGE"
  | .utility => "UTILITY"
  | .nothing => "NOTHING"
  | .unknown => "UNKNOWN"

/-- `strnlen(b, max)`. -/
def strnlen {n : ℕ} (b : CharBuf n) (max : ℕ) : ℕ :=
  ((List.range max).takeWhile fun i => b.byteAt i != 0).length

/-- What the appends of one event add to `chunk_bytes_`. -/
def appendBytes (ev : PschEvent) : ℕ :=
  let f := ev.fixed
  [estimateScalarAttrBytes "ts" + 8,
   estimateScalarAttrBytes "db.client.operation.duration" + estimateScalarAttrBytes "duration_us",
   estimateStringAttrBytes "db.name" f.datnameLen.toNat,
   estimateStringAttrBytes "db.user" f.usernameLen.toNat,
   intColumnBytes "pid" (f.pid != 0),
   intColumnBytes "query_id" (f.queryid != 0),
   estimateStringAttrBytes "db.operation.name" (pschCmdTypeToString f.cmdType).utf8ByteSize,
   intColumnBytes "rows" (f.rows != 0),
   estimateStringAttrBytes "db.query.text" (clampFieldLen ev.queryLen.toNat pschMaxQueryLen),
   intColumnBytes "shared_blks_hit" (f.sharedBlksHit != 0),
   intColumnBytes "shared_blks_read" (f.sharedBlksRead != 0),
   intColumnBytes "shared_blks_dirtied" (f.sharedBlksDirtied != 0),
   intColumnBytes "shared_blks_written" (f.sharedBlksWritten != 0),
   intColumnBytes "local_blks_hit" (f.localBlksHit != 0),
   intColumnBytes "local_blks_read" (f.localBlksRead != 0),
   intColumnBytes "local_blks_dirtied" (f.localBlksDirtied != 0),
   intColumnBytes "local_blks_written" (f.localBlksWritten != 0),
   intColumnBytes "temp_blks_read" (f.tempBlksRead != 0),
   intColumnBytes "temp_blks_written" (f.tempBlksWritten != 0),
   intColumnBytes "shared_blk_read_time_us" (f.sharedBlkReadTimeUs != 0),
   intColumnBytes "shared_blk_write_time_us" (f.sharedBlkWriteTimeUs != 0),
   intColumnBytes "local_blk_read_time_us" (f.localBlkReadTimeUs != 0),
   intColumnBytes "local_blk_write_time_us" (f.localBlkWriteTimeUs != 0),
   intColumnBytes "temp_blk_read_time_us" (f.tempBlkReadTimeUs != 0),
   intColumnBytes "temp_blk_write_time_us" (f.tempBlkWriteTimeUs != 0),
   intColumnBytes "wal_records" (f.walRecords != 0),
   intColumnBytes "wal_fpi" (f.walFpi != 0),
   intColumnBytes "wal_bytes" (f.walBytes != 0),
   intColumnBytes "cpu_user_time_us" (f.cpuUserTimeUs != 0),
   intColumnBytes "cpu_sys_time_us" (f.cpuSysTimeUs != 0),
   intColumnBytes "jit_functions" (f.jitFunctions != 0),
   intColumnBytes "jit_generation_time_us" (f.jitGenerationTimeUs != 0),
   intColumnBytes "jit_deform_time_us" (f.jitDeformTimeUs != 0),
   intColumnBytes "jit_inlining_time_us" (f.jitInliningTimeUs != 0),
   intColumnBytes "jit_optimization_time_us" (f.jitOptimizationTimeUs != 0),
   intColumnBytes "jit_emission_time_us" (f.jitEmissionTimeUs != 0),
   intColumnBytes "parallel_workers_planned" (f.parallelWorkersPlanned != 0),
   intColumnBytes "parallel_workers_launched" (f.parallelWorkersLaunched != 0),
   estimateStringAttrBytes "err_sqlstate" (strnlen f.errSqlstate 5),
   intColumnBytes "err_elevel" (f.errElevel != 0),
   estimateStringAttrBytes "err_message"
     (clampFieldLen ev.errMessageLen.toNat pschMaxErrMsgLen),
   estimateStringAttrBytes "app" (clampFieldLen f.applicationNameLen.toNat pschMaxAppNameLen),
   estimateStringAttrBytes "client_addr"
     (clampFieldLen f.clientAddrLen.toNat pschMaxClientAddrLen)].sum

end Sizes

structure OTelExporter where
  /-- `psch_otel_log_max_bytes` -/
  logMaxBytes : ℕ := 3 * 1024 * 1024
  /-- `psch_otel_log_batch_size` -/
  logBatchSize : ℕ := 8192
  /-- `stub_ != nullptr` -/
  stub : Bool := false
  maxChunkRecords : ℕ := 1
  maxChunkBytes : ℕ := kMinBytesPerRecord
  /-- without the overflow of `numConsecutiveFailures` -/
  consecutiveFailures : ℕ := 0
  exportedCount : ℕ := 0
  batchFailed : Bool := false
  /-- the events in the records of `request_` -/
  request : List PschEvent := []
  /-- `current_record_ != nullptr` -/
  currentRecord : Bool := false
  chunkCount : ℕ := 0
  chunkBytes : ℕ := 0

namespace OTelExporter

abbrev M := ExportM OTelExporter

def chunkFull (o : OTelExporter) : Prop :=
  o.maxChunkRecords ≤ o.chunkCount ∨ o.maxChunkBytes ≤ o.chunkBytes

instance (o : OTelExporter) : Decidable o.chunkFull := inferInstanceAs (Decidable (_ ∨ _))

/-- The limits of a request, from the settings. -/
def configureLogExport (o : OTelExporter) : OTelExporter :=
  let maxChunkBytes := max kMinBytesPerRecord o.logMaxBytes
  { o with maxChunkBytes := maxChunkBytes
           maxChunkRecords := max 1 (min o.logBatchSize (maxChunkBytes / kMinBytesPerRecord)) }

variable (plan : Plan)

/-- `ResetChunk`, whose allocations are point `p`. -/
def resetChunk (p : Point) : M Unit := do
  plan.run p
  modify fun s =>
    { s with exporter.request := [], exporter.chunkCount := 0
             exporter.chunkBytes := kRequestOverheadBytes, exporter.currentRecord := false }

/-- A failure is recorded and counted. -/
def countFailure (message : String) : M Bool := do
  recordExporterFailure message
  modify fun s => { s with exporter.consecutiveFailures := s.exporter.consecutiveFailures + 1 }
  pure false

def flushChunk : M Bool := do
  let s ← get
  if s.exporter.stub = false ∨ s.exporter.chunkCount = 0 then pure true
  else
    match ← plan.send s.exporter.request with
    | none =>
      modify fun s =>
        { s with exporter.request := [], exporter.currentRecord := false
                 exporter.exportedCount := s.exporter.exportedCount + s.exporter.chunkCount
                 exporter.chunkCount := 0, exporter.chunkBytes := 0 }
      pure true
    | some message =>
      modify fun s => { s with exporter.request := [], exporter.currentRecord := false }
      plan.log .sendFailed
      countFailure message

def beginBatch : M Unit := do
  modify fun s => { s with exporter.exportedCount := 0, exporter.batchFailed := false }
  resetChunk plan .beginBatch

/-- `scope_logs_->add_log_records()`. -/
def addLogRecord : M Unit :=
  modify fun s =>
    { s with exporter.currentRecord := true, exporter.chunkCount := s.exporter.chunkCount + 1
             exporter.chunkBytes := s.exporter.chunkBytes + kLogRecordOverheadBytes }

def beginRow : M Unit := do
  let s ← get
  if s.exporter.batchFailed then pure ()
  else if s.exporter.chunkFull then
    if ← flushChunk plan then
      let s ← get
      resetChunk plan (.reset s.sent)
      addLogRecord
    else modify fun s => { s with exporter.batchFailed := true }
  else addLogRecord

def appendRow (i : ℕ) (ev : PschEvent) : M Unit := do
  plan.run (.row i)
  let s ← get
  if s.exporter.currentRecord then
    modify fun s =>
      { s with exporter.request := s.exporter.request ++ [ev]
               exporter.chunkBytes := s.exporter.chunkBytes + appendBytes ev }
  else pure ()

def resetFailures : M Unit := modify fun s => { s with exporter.consecutiveFailures := 0 }

def commitBatch : M Bool := do
  let s ← get
  if s.exporter.batchFailed then pure false
  else if s.exporter.stub then
    catching
      (do
        if ← flushChunk plan then
          resetFailures
          pure true
        else pure false)
      (fun e => do
        plan.log .sendThrew
        countFailure e.what)
  else do
    resetFailures
    pure true

def establishNewConnection : M Bool :=
  catching
    (do
      modify fun s => { s with exporter := s.exporter.configureLogExport }
      match ← plan.call .connect with
      | some _ =>
        plan.log .otelInitFailed
        modify fun s => { s with exporter.stub := false }
        pure false
      | none =>
        modify fun s => { s with exporter.stub := true }
        pure true)
    (fun _ => do
      plan.log .otelInitFailed
      modify fun s => { s with exporter.stub := false }
      pure false)

/-- `SendArrowBatch` of a block with these rows. -/
def sendArrowBatch (rows : List PschEvent) : M Bool := do
  let s ← get
  if s.exporter.stub = false ∨ rows = [] then pure false
  else
    catching
      (do
        match ← plan.send rows with
        | none =>
          modify fun s =>
            { s with exporter.exportedCount := s.exporter.exportedCount + rows.length
                     exporter.consecutiveFailures := 0 }
          pure true
        | some message =>
          plan.log .sendFailed
          countFailure message)
      (fun e => do
        plan.log .sendThrew
        countFailure e.what)

instance : StatsExporter OTelExporter where
  useOtel := true
  Made := fun o => ∃ bytes size, o = { logMaxBytes := bytes, logBatchSize := size }
  beginBatch := beginBatch
  beginRow := beginRow
  appendRow := appendRow
  commitBatch := commitBatch
  establishNewConnection := establishNewConnection
  isConnected := stub
  numConsecutiveFailures := consecutiveFailures
  numExported := exportedCount
  sendArrowBatch := sendArrowBatch

end OTelExporter

end PgStatCh
