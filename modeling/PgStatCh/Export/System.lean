import PgStatCh.Export.Batch
import PgStatCh.Queue.Backends

/-!
# Export.System — the worker beside the producers

The background worker (bgworker.c): it sleeps, wakes up, and drains the queue with
`ExportBatchWithRecovery`, one `PschExportBatch` after the other, until a batch is
not full. The dequeuing of a batch runs step by step beside the producers of
`Queue`; what is then done with the events (`exportEvents`) touches nothing they
touch and is one step. Settings are reloaded between two batches.

An ERROR that leaves `PschExportBatch` is caught there and reported, and counts as a
batch of which nothing was exported.

Left out: that this report is itself left by an ERROR, which ends the process; its
exit and restart, and how long it sleeps.
-/

namespace PgStatCh

open Lib Tla

/-- Where the worker is. -/
inductive WorkerPc where
  /-- in `WaitLatch` -/
  | sleeping
  /-- in `ExportBatchWithRecovery`, about to call `PschExportBatch` -/
  | calling
  /-- in `DequeueEvents`, with the events dequeued so far -/
  | dequeuing (events : List PschEvent)
  /-- about to export the batch -/
  | exporting (events : List PschEvent)
  /-- `PschExportBatch` returned -/
  | returned (exported : ℕ)

/-- What the next step of `PschDequeueEvent` returns: nothing yet, false, or true with
an event. -/
def Shmem.dequeueReturns {cfg : Config} (s : Shmem cfg) : Option (Option PschEvent) :=
  match s.worker with
  | .readTail _ head => if head = s.tail then some none else none
  | .reading _ out (.release .done) => some (some out)
  | _ => none

structure System (ε : Type) (cfg : Config) where
  queue : Queue cfg
  exportState : ExportState ε
  settings : Settings := {}
  pc : WorkerPc := .sleeping
  /-- history: events of the last call that were acknowledged -/
  lastAcked : ℕ := 0
  /-- history: has a call failed since the worker last slept? -/
  failed : Bool := false

namespace System

variable {ε : Type} [StatsExporter ε] {cfg : Config}

inductive Label (cfg : Config) where
  /-- anyone but the worker -/
  | queue (l : Queue.Label cfg)
  /-- the latch is set or the time is over, and pending signals are processed -/
  | wake (settings : Settings)
  | beginExport (plan : Plan)
  /-- on to the next `PschDequeueEvent`, with this in the local variable -/
  | dequeue (buf : PschEvent)
  | dequeueStep
  | exportEvents (plan : Plan)
  /-- back in the loop; if it goes on, pending signals are processed -/
  | loop (settings : Settings)

/-- What the drain loop makes of a call: where an ERROR was caught, `exported` still has its
initial value. -/
def recovered {α : Type} (initial : α) : EStateM.Result Exit (ExportState ε) α → α × ExportState ε
  | .ok exported x => (exported, x)
  | .error _ x => (initial, x)

/-- `if (psch_enabled)` go on, with new settings. -/
def goOn (s : System ε cfg) (settings : Settings) : System ε cfg :=
  { s with settings := settings, pc := if settings.pschEnabled then .calling else .sleeping }

def step : Label cfg → System ε cfg → Option (System ε cfg)
  | .queue l, s =>
    if l.isDequeue then none else (Queue.step l s.queue).map fun q => { s with queue := q }
  | .wake settings, s =>
    match s.pc with
    | .sleeping => some { s.goOn settings with failed := false }
    | _ => none
  | .beginExport plan, s =>
    match s.pc with
    | .calling =>
      match recovered false (PgStatCh.beginExport plan s.exportState) with
      | (true, x) => some { s with exportState := x, pc := .dequeuing [] }
      | (false, x) => some { s with exportState := x, pc := .returned 0, lastAcked := 0, failed := true }
    | _ => none
  | .dequeue buf, s =>
    match s.pc with
    | .dequeuing events =>
      if events.length < s.settings.batchMax then
        (Queue.step (.beginDequeue buf) s.queue).map fun q => { s with queue := q }
      else some { s with pc := .exporting events }
    | _ => none
  | .dequeueStep, s =>
    match s.pc with
    | .dequeuing events =>
      (Queue.step .dequeueStep s.queue).map fun q =>
        match s.queue.shmem.dequeueReturns with
        | none => { s with queue := q }
        | some none => { s with queue := q, pc := .exporting events }
        | some (some out) => { s with queue := q, pc := .dequeuing (events ++ [out]) }
    | _ => none
  | .exportEvents plan, s =>
    match s.pc with
    | .exporting events =>
      let (exported, x) := recovered 0
        (PgStatCh.exportEvents plan s.settings events { s.exportState with sent := 0 })
      let acked := x.acked.flatten.length - s.exportState.acked.flatten.length
      some { s with exportState := x, pc := .returned exported, lastAcked := acked
                    failed := s.failed || decide (acked < events.length) }
    | _ => none
  | .loop settings, s =>
    match s.pc with
    | .returned exported =>
      if exported < s.settings.batchMax then some { s with pc := .sleeping }
      else some (s.goOn settings)
    | _ => none

/-- The ring is empty, all backends are idle, and the worker has made its exporter and
tried to connect (`PschExporterInit`). -/
def Init (s : System ε cfg) : Prop :=
  Queue.Init s.queue ∧ s.pc = .sleeping ∧ s.lastAcked = 0 ∧ s.failed = false ∧
  ∃ x plan ok, StatsExporter.Made x ∧
    StatsExporter.establishNewConnection plan { exporter := x } = .ok ok s.exportState

def machine (ε : Type) [StatsExporter ε] (cfg : Config) : Machine (System ε cfg) (Label cfg) where
  Init := Init
  step := step

end System

end PgStatCh
