import PgStatCh.Export.Exporter

/-!
# Export.Batch — one call of `PschExportBatch`

stats_exporter.cc, around the dequeuing of the batch: `beginExport` is what comes
before (the connection and the vector), `exportEvents` what comes after, for the
three ways a batch can take: through an exporter's rows and `CommitBatch`
(ClickHouse, OpenTelemetry records), or as Arrow blocks. Exceptions stop at the
barriers the source puts up; an ERROR passes them all.
-/

namespace PgStatCh

open Lib

/-- The worker's settings that can change while it runs. -/
structure Settings where
  pschEnabled : Bool := true
  /-- `psch_batch_max` -/
  batchMax : ℕ := 200000
  batchMax_range : 1 ≤ batchMax ∧ batchMax ≤ 1000000 := by decide
  /-- `psch_otel_arrow_passthrough` -/
  arrowPassthrough : Bool := false
  /-- `psch_otel_max_block_bytes` -/
  otelMaxBlockBytes : ℕ := 3 * 1024 * 1024
  /-- the bytes of the service version and of the extra attributes, which every row
  of an Arrow block carries -/
  extraBytes : ℕ := 0

variable {ε : Type} [StatsExporter ε] (plan : Plan)

open StatsExporter

/-! ## Rows -/

/-- The loop over the events, from event `i` on. -/
def exportRows : ℕ → List PschEvent → ExportM ε Unit
  | _, [] => pure ()
  | i, ev :: rest => do
    beginRow plan
    appendRow plan i ev
    exportRows (i + 1) rest

def exportEventStatsInternal (events : List PschEvent) : ExportM ε Unit := do
  plan.log .buildingRows
  beginBatch plan
  exportRows plan 0 events
  plan.log .builtRows

/-- What the handlers of a barrier do: `oom` stands for the text of `std::bad_alloc`. -/
def handleException {α : Type} (l : LogStatement) (oom : String) (stop : α) (e : Exception) :
    ExportM ε α := do
  plan.log l
  recordExporterFailure (match e with | .badAlloc => oom | .std what => what)
  pure stop

def exportEventStats (events : List PschEvent) : ExportM ε Bool :=
  catching
    (do
      exportEventStatsInternal plan events
      pure true)
    (handleException plan .eventStats "event stats OOM" false)

/-! ## Arrow blocks -/

def kFixedBytesPerRow : ℕ := 512

def kIpcEnvelopeBytes : ℕ := 1024

structure ArrowBatchBuilder where
  /-- the events in the column builders -/
  rows : List PschEvent := []
  estimatedBytes : ℕ := kIpcEnvelopeBytes

namespace ArrowBatchBuilder

/-- What one event adds to `estimated_bytes`. -/
def rowBytes (extraBytes : ℕ) (ev : PschEvent) : ℕ :=
  kFixedBytesPerRow + clampFieldLen ev.fixed.datnameLen.toNat 63 +
    clampFieldLen ev.fixed.usernameLen.toNat 63 +
    clampFieldLen ev.fixed.applicationNameLen.toNat pschMaxAppNameLen +
    clampFieldLen ev.fixed.clientAddrLen.toNat pschMaxClientAddrLen +
    clampFieldLen ev.queryLen.toNat pschMaxQueryLen +
    clampFieldLen ev.errMessageLen.toNat pschMaxErrMsgLen +
    strnlen ev.fixed.errSqlstate 5 + extraBytes

/-- `Append`, when all column builders took the event. -/
def append (extraBytes : ℕ) (b : ArrowBatchBuilder) (ev : PschEvent) : ArrowBatchBuilder where
  rows := b.rows ++ [ev]
  estimatedBytes := b.estimatedBytes + rowBytes extraBytes ev

end ArrowBatchBuilder

/-- `flush_builder`, less the count. -/
def flushBuilder (b : ArrowBatchBuilder) : ExportM ε Bool := do
  let s ← get
  match ← plan.call (.finish s.sent) with
  | some _ => pure false
  | none => if b.rows = [] then pure false else sendArrowBatch plan b.rows

/-- The loop over the events, from event `i` on: the builder at its end,
`total_exported` and `export_failed`. -/
def exportArrowRows (settings : Settings) :
    ℕ → List PschEvent → ArrowBatchBuilder → ℕ → ExportM ε (ArrowBatchBuilder × ℕ × Bool)
  | _, [], b, total => pure (b, total, false)
  | i, ev :: rest, b, total => do
    match ← plan.call (.row i) with
    | some _ => pure (b, total, true)
    | none =>
      let b := b.append settings.extraBytes ev
      if max 65536 settings.otelMaxBlockBytes ≤ b.estimatedBytes then
        if ← flushBuilder plan b then
          let s ← get
          plan.run (.reset s.sent)
          exportArrowRows settings (i + 1) rest {} (total + b.rows.length)
        else pure (b, total, true)
      else exportArrowRows settings (i + 1) rest b total

/-- What is left in the builder after the loop. -/
def flushRest (b : ArrowBatchBuilder) (total : ℕ) (failed : Bool) : ExportM ε (ℕ × Bool) := do
  if failed = false ∧ b.rows ≠ [] then
    if ← flushBuilder plan b then pure (total + b.rows.length, false)
    else pure (total, true)
  else pure (total, failed)

/-- Count the events of a batch as exported. -/
def addExported (n : ℕ) : ExportM ε Unit :=
  modify fun s => { s with exported := s.exported + UInt64.ofNat n }

def exportEventsAsArrowInternal (settings : Settings) (events : List PschEvent) :
    ExportM ε ℕ := do
  match ← plan.call .arrowInit with
  | some _ =>
    plan.log .arrowInitFailed
    recordExporterFailure "Arrow batch builder init failed"
    pure 0
  | none =>
    let (b, total, failed) ← exportArrowRows plan settings 0 events {} 0
    let (total, failed) ← flushRest plan b total failed
    if failed then
      recordExporterFailure "Arrow batch build/send failed"
      pure total
    else if 0 < total then
      addExported total
      pure total
    else pure total

def exportEventsAsArrow (settings : Settings) (events : List PschEvent) : ExportM ε ℕ :=
  catching (exportEventsAsArrowInternal plan settings events)
    (handleException plan .arrowExport "Arrow export OOM" 0)

/-! ## The batch -/

/-- The handler of `PschExportBatch`, around either part of it. -/
def exportBarrier {α : Type} (stop : α) (x : ExportM ε α) : ExportM ε α :=
  catching x (handleException plan .exportBatch "export batch OOM" stop)

/-- `DequeueEvents`, before the first `PschDequeueEvent`. -/
def beginDequeue : ExportM ε Bool := do
  plan.log .dequeuing
  plan.run .reserve
  pure true

/-- `PschExportBatch` up to the first `PschDequeueEvent`: is there one, or does it
return 0? -/
def beginExport : ExportM ε Bool :=
  exportBarrier plan false do
    plan.log .called
    let s ← get
    if isConnected s.exporter then beginDequeue plan
    else
      plan.log .initializing
      if ← establishNewConnection plan then beginDequeue plan
      else
        recordExporterFailure "Failed to connect to exporter backend"
        pure false

/-- A batch that goes through the exporter's rows. -/
def exportAsRows (events : List PschEvent) : ExportM ε ℕ := do
  if ← exportEventStats plan events then
    if ← commitBatch plan then
      let s ← get
      addExported (numExported s.exporter)
      pure (numExported s.exporter)
    else
      let s ← get
      pure (numExported s.exporter)
  else pure 0

/-- `PschExportBatch` after `DequeueEvents`. -/
def exportEvents (settings : Settings) (events : List PschEvent) : ExportM ε ℕ :=
  exportBarrier plan 0 do
    if events = [] then
      plan.log .noEvents
      pure 0
    else
      plan.log .exporting
      if useOtel ε && settings.arrowPassthrough then exportEventsAsArrow plan settings events
      else exportAsRows plan events

end PgStatCh
