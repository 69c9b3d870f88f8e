import PgStatCh.Export.Batch
import PgStatCh.Export.EventColumns
import PgStatCh.Lib.Wire

/-!
# Export.Otlp — log records and requests of the OpenTelemetry exporter

The exporter of otel_exporter.cc once more, this time with what it writes: an
`ExportLogsServiceRequest` with a resource, a scope and one log record per event, whose
attributes are added by the columns' `Append`. An exception may strike between any two appends.

The state of `OTelExporter` is kept as a part of the state here; its `request` is history. That
the two do the same is in `OtlpRefines`.
-/

namespace PgStatCh

open Lib

/-! ## The messages -/

namespace Otlp

/-- `AnyValue`. -/
inductive AnyValue where
  | string (v : List UInt8)
  | int (v : Int64)
  | double (v : Float)

structure KeyValue where
  key : String
  value : AnyValue

structure LogRecord where
  timeUnixNano : UInt64 := 0
  attributes : List KeyValue := []

/-- `ExportLogsServiceRequest`, with one `ResourceLogs` and one `ScopeLogs` in it. -/
structure Request where
  /-- `resource.attributes` -/
  resource : List KeyValue
  scopeName : String
  scopeVersion : List UInt8
  logRecords : List LogRecord := []

open Wire

/-- The `oneof` is written also when its value is a default. -/
def AnyValue.encode : AnyValue → List UInt8
  | .string v => delimitedField 1 v
  | .int v => varintField 3 v.toUInt64.toNat
  | .double v => fixed64Field 4 v.toBits

def KeyValue.encode (kv : KeyValue) : List UInt8 :=
  unlessDefault (kv.key == "") (delimitedField 1 (utf8 kv.key)) ++
    delimitedField 2 kv.value.encode

def LogRecord.encode (r : LogRecord) : List UInt8 :=
  unlessDefault (r.timeUnixNano == 0) (fixed64Field 1 r.timeUnixNano) ++
    r.attributes.flatMap fun kv => delimitedField 6 kv.encode

namespace Request

def encodeResource (m : Request) : List UInt8 :=
  m.resource.flatMap fun kv => delimitedField 1 kv.encode

/-- `InstrumentationScope`. -/
def encodeScope (m : Request) : List UInt8 :=
  unlessDefault (m.scopeName == "") (delimitedField 1 (utf8 m.scopeName)) ++
    unlessDefault m.scopeVersion.isEmpty (delimitedField 2 m.scopeVersion)

def encodeScopeLogs (m : Request) : List UInt8 :=
  delimitedField 1 m.encodeScope ++ m.logRecords.flatMap fun r => delimitedField 2 r.encode

def encodeResourceLogs (m : Request) : List UInt8 :=
  delimitedField 1 m.encodeResource ++ delimitedField 2 m.encodeScopeLogs

/-- The request in the wire format. -/
def encode (m : Request) : List UInt8 := delimitedField 1 m.encodeResourceLogs

/-- Change the record that `current_record_` points to, the last one. -/
def modifyCurrent (f : LogRecord → LogRecord) (m : Request) : Request :=
  { m with logRecords := m.logRecords.dropLast ++ (m.logRecords.getLast?.map f).toList }

theorem modifyCurrent_append (f : LogRecord → LogRecord) (m : Request) (rs : List LogRecord)
    (r : LogRecord) :
    ({ m with logRecords := rs ++ [r] } : Request).modifyCurrent f =
      { m with logRecords := rs ++ [f r] } := by
  simp [modifyCurrent]

end Request

def setString (key : String) (val : List UInt8) : KeyValue := ⟨key, .string val⟩

def setInt (key : String) (val : Int64) : KeyValue := ⟨key, .int val⟩

def setDouble (key : String) (val : Float) : KeyValue := ⟨key, .double val⟩

/-- `*AddAttr(rec) = kv`. -/
def LogRecord.addAttr (r : LogRecord) (kv : KeyValue) : LogRecord :=
  { r with attributes := r.attributes ++ [kv] }

/-! ## The columns -/

/-- The column classes of the exporter, with the name they hold. -/
inductive Column where
  | intColumn (name : String)
  | svColumn (name : String)
  | strColumn (name : String)
  | dateTimeCol (name : String)
  | durationCol

/-- The column factories. -/
def makeColumn : Factory → Column
  | .statLCString name => .strColumn name
  | .statLCUInt8 name => .intColumn name
  | .statLCInt16 name => .intColumn name
  | .statLCInt32 name => .intColumn name
  | .statHCString name => .svColumn name
  | .statHCInt64 name => .intColumn name
  | .statHCUInt64 name => .intColumn name
  | .statTimestamp name => .dateTimeCol name
  | .dbNameColumn => .strColumn "db.name"
  | .dbUserColumn => .strColumn "db.user"
  | .dbDurationColumn => .durationCol
  | .dbOperationColumn => .strColumn "db.operation.name"
  | .dbQueryTextColumn => .svColumn "db.query.text"

/-- `static_cast<int64_t>(v)`. -/
def toInt64 : Cell → Int64
  | .uint8 v => v.toUInt64.toInt64
  | .int16 v => v.toInt64
  | .int32 v => v.toInt64
  | .int64 v => v
  | .uint64 v => v.toInt64
  | _ => 0

/-- `v` as a text. -/
def toBytes : Cell → List UInt8
  | .string v => v
  | .stringView v => v
  | _ => []

/-- What `Append(v)` does to the current record. -/
def Column.write (v : Cell) (r : LogRecord) : Column → LogRecord
  | .intColumn name => if toInt64 v = 0 then r else r.addAttr (setInt name (toInt64 v))
  | .svColumn name => r.addAttr (setString name (toBytes v))
  | .strColumn name => r.addAttr (setString name (toBytes v))
  | .dateTimeCol name =>
    { r with timeUnixNano := (toInt64 v).toUInt64 * 1000 }.addAttr (setInt name (toInt64 v))
  | .durationCol =>
    let seconds := (toInt64 v).toUInt64.toFloat / 1e6
    (r.addAttr (setDouble "db.client.operation.duration" seconds)).addAttr
      (setInt "duration_us" (toInt64 v))

/-- What `Append(v)` adds to `chunk_bytes_`. -/
def Column.estimate (v : Cell) : Column → ℕ
  | .intColumn name => if toInt64 v = 0 then 0 else estimateScalarAttrBytes name
  | .svColumn name => estimateStringAttrBytes name (toBytes v).length
  | .strColumn name => estimateStringAttrBytes name (toBytes v).length
  | .dateTimeCol name => estimateScalarAttrBytes name + 8
  | .durationCol =>
    estimateScalarAttrBytes "db.client.operation.duration" + estimateScalarAttrBytes "duration_us"

end Otlp

/-! ## The exporter -/

open Otlp

structure OtlpExporter extends OTelExporter where
  /-- `PG_STAT_CH_VERSION` -/
  version : List UInt8
  /-- `GetAHostname("postgres-primary")` -/
  hostname : List UInt8
  /-- after how many appends event `i` breaks off, when an exception or an ERROR strikes there -/
  cut : ℕ → ℕ := fun _ => 0
  /-- `request_` -/
  message : Option Request := none
  /-- history: the requests that were handed to the client -/
  requests : List Request := []

namespace OtlpExporter

abbrev M := ExportM OtlpExporter

/-- `PopulateResource`. -/
def populateResource (o : OtlpExporter) : List KeyValue :=
  [setString "service.name" (utf8 "pg_stat_ch"), setString "service.version" o.version,
    setString "host.name" o.hostname]

/-- The request that `ResetChunk` creates. -/
def newRequest (o : OtlpExporter) : Request where
  resource := o.populateResource
  scopeName := "pg_stat_ch"
  scopeVersion := o.version

variable (plan : Plan)

def resetChunk (p : Point) : M Unit := do
  plan.run p
  modify fun s =>
    { s with exporter.message := some s.exporter.newRequest, exporter.request := []
             exporter.chunkCount := 0, exporter.chunkBytes := kRequestOverheadBytes
             exporter.currentRecord := false }

/-- A failure is recorded and counted. -/
def countFailure (message : String) : M Bool := do
  recordExporterFailure message
  modify fun s => { s with exporter.consecutiveFailures := s.exporter.consecutiveFailures + 1 }
  pure false

def flushChunk : M Bool := do
  let s ← get
  if s.exporter.stub = false ∨ s.exporter.chunkCount = 0 then pure true
  else
    modify fun s =>
      { s with exporter.requests := s.exporter.requests ++ s.exporter.message.toList }
    match ← plan.send s.exporter.request with
    | none =>
      modify fun s =>
        { s with exporter.message := none, exporter.request := []
                 exporter.currentRecord := false
                 exporter.exportedCount := s.exporter.exportedCount + s.exporter.chunkCount
                 exporter.chunkCount := 0, exporter.chunkBytes := 0 }
      pure true
    | some message =>
      modify fun s =>
        { s with exporter.message := none, exporter.request := []
                 exporter.currentRecord := false }
      plan.log .sendFailed
      countFailure message

def beginBatch : M Unit := do
  modify fun s => { s with exporter.exportedCount := 0, exporter.batchFailed := false }
  resetChunk plan .beginBatch

/-- `scope_logs_->add_log_records()`. -/
def addLogRecord : M Unit :=
  modify fun s =>
    { s with exporter.message := s.exporter.message.map fun m =>
               { m with logRecords := m.logRecords ++ [{}] }
             exporter.currentRecord := true, exporter.chunkCount := s.exporter.chunkCount + 1
             exporter.chunkBytes := s.exporter.chunkBytes + kLogRecordOverheadBytes }

def beginRow : M Unit := do
  let s ← get
  if s.exporter.batchFailed then pure ()
  else if s.exporter.chunkFull then
    if ← flushChunk plan then
      let s ← get
      resetChunk plan (.reset s.sent)
      addLogRecord
    else modify fun s => { s with exporter.batchFailed := true }
  else addLogRecord

/-- `Append(v)` of a column. -/
def append (c : Column) (v : Cell) : M Unit := do
  let s ← get
  if s.exporter.currentRecord then
    modify fun s =>
      { s with exporter.message := s.exporter.message.map (Request.modifyCurrent fun r => c.write v r)
               exporter.chunkBytes := s.exporter.chunkBytes + c.estimate v }
  else pure ()

/-- The appends of an event to these columns. -/
def appendCols (ev : PschEvent) : List Col → M Unit
  | [] => pure ()
  | c :: cs => do
    append (makeColumn c.factory) (c.cell ev)
    appendCols ev cs

/-- History: the event belongs to the record that was begun. -/
def noteRow (ev : PschEvent) : M Unit :=
  modify fun s =>
    { s with exporter.request :=
        if s.exporter.currentRecord then s.exporter.request ++ [ev] else s.exporter.request }

/-- The appends of event `i`, as many as were made when an exception or an ERROR struck. -/
def appendCut (i : ℕ) (ev : PschEvent) (e : Exit) : M Unit := do
  let s ← get
  appendCols ev (Col.appended.take (s.exporter.cut i))
  throw e

/-- The appends of event `i`, all of them or those before it broke off. -/
def appendRow (i : ℕ) (ev : PschEvent) : M Unit := do
  noteRow ev
  match plan (.row i) with
  | .throws e => appendCut i ev (.exception e)
  | .raises => appendCut i ev .error
  | _ => appendCols ev Col.appended

def resetFailures : M Unit := modify fun s => { s with exporter.consecutiveFailures := 0 }

def commitBatch : M Bool := do
  let s ← get
  if s.exporter.batchFailed then pure false
  else if s.exporter.stub then
    catching
      (do
        if ← flushChunk plan then
          resetFailures
          pure true
        else pure false)
      (fun e => do
        plan.log .sendThrew
        countFailure e.what)
  else do
    resetFailures
    pure true

def establishNewConnection : M Bool :=
  catching
    (do
      modify fun s =>
        { s with exporter.toOTelExporter := s.exporter.toOTelExporter.configureLogExport }
      match ← plan.call .connect with
      | some _ =>
        plan.log .otelInitFailed
        modify fun s => { s with exporter.stub := false }
        pure false
      | none =>
        modify fun s => { s with exporter.stub := true }
        pure true)
    (fun _ => do
      plan.log .otelInitFailed
      modify fun s => { s with exporter.stub := false }
      pure false)

/-- `SendArrowBatch` of a block with these rows. -/
def sendArrowBatch (rows : List PschEvent) : M Bool := do
  let s ← get
  if s.exporter.stub = false ∨ rows = [] then pure false
  else
    catching
      (do
        match ← plan.send rows with
        | none =>
          modify fun s =>
            { s with exporter.exportedCount := s.exporter.exportedCount + rows.length
                     exporter.consecutiveFailures := 0 }
          pure true
        | some message =>
          plan.log .sendFailed
          countFailure message)
      (fun e => do
        plan.log .sendThrew
        countFailure e.what)

instance : StatsExporter OtlpExporter where
  useOtel := true
  Made := fun o => ∃ bytes size version hostname cut,
    o = { logMaxBytes := bytes, logBatchSize := size, version := version, hostname := hostname,
          cut := cut }
  beginBatch := beginBatch
  beginRow := beginRow
  appendRow := appendRow
  commitBatch := commitBatch
  establishNewConnection := establishNewConnection
  isConnected := fun o => o.stub
  numConsecutiveFailures := fun o => o.consecutiveFailures
  numExported := fun o => o.exportedCount
  sendArrowBatch := sendArrowBatch

end OtlpExporter

end PgStatCh
