import PgStatCh.Export.Delivery

/-!
# Export.Bgworker — the process that the worker runs in

bgworker.c around the drain loop of `System`: the process is started by the postmaster, stores
its pid in shared memory, makes its exporter, and then waits on its latch, looks at the signals
that came in, and drains the queue. A SIGTERM ends it at one of these looks; the postmaster then
starts another. `pg_stat_ch_flush()` in any backend reads the stored pid and sends SIGUSR2.

Signals arrive between any two steps. What PostgreSQL does is taken from it: a handler sets its
flag and the latch; a message that is written checks for interrupts, so that SIGTERM can end the
process inside `PschExportBatch` too, but not inside `PschDequeueEvent`, which writes none. An
ERROR that leaves `PschExportBatch` at a message is caught in `ExportBatchWithRecovery`: the
worker goes on, and nobody has the batch any more. An ERROR elsewhere ends the process, and so
does one at the message of the `PG_CATCH` block. A process that is killed without its exit
callbacks takes the server with it, so no other is started after that.

Left out: how long the worker waits.
-/

namespace PgStatCh

open Lib Tla StatsExporter

/-! ## The process -/

/-- Where the process is in `PschBgworkerMain`. -/
inductive MainPc where
  /-- before `PschSetBgworkerPid(MyProcPid)` -/
  | starting
  /-- before `PschExporterInit` -/
  | initializing
  /-- in `WaitLatch` -/
  | waitLatch
  /-- before `ResetLatch` -/
  | resetLatch
  /-- in `ProcessPendingSignals`: `if (ProcSignalBarrierPending)` -/
  | barriers
  /-- `CHECK_FOR_INTERRUPTS()` -/
  | interrupts
  /-- `HandleConfigReload()`, and then `if (psch_enabled)` -/
  | configReload
  /-- in `ExportBatchWithRecovery` -/
  | draining
  /-- in `proc_exit`, before `PschBgworkerShutdown` -/
  | exiting
  /-- after its `PschSetBgworkerPid(0)` -/
  | exited
deriving DecidableEq, Repr

/-- Is the process between its start and its end, with its exit callback registered, and outside
`PschExportBatch`? -/
def MainPc.outside : MainPc → Bool
  | .starting | .draining | .exiting | .exited => false
  | _ => true

/-- Has `PschExportBatch` returned, or was its ERROR caught? -/
def WorkerPc.hasReturned : WorkerPc → Bool
  | .returned _ => true
  | _ => false

theorem WorkerPc.eq_returned {pc : WorkerPc} (h : pc.hasReturned = true) :
    ∃ n, pc = .returned n := by
  cases pc with
  | returned n => exact ⟨n, rfl⟩
  | _ => cases h

structure WorkerProcess where
  myProcPid : UInt32
  /-- `MyLatch` -/
  latch : Bool := false
  procSignalBarrierPending : Bool := false
  procDiePending : Bool := false
  configReloadPending : Bool := false
  pc : MainPc := .starting
deriving DecidableEq, Repr

/-- The signals of PostgreSQL that the worker has handlers for. -/
inductive Signal where
  | sighup | sigterm
  /-- SIGUSR1 with `PROCSIG_BARRIER` -/
  | barrier
deriving DecidableEq, Repr

/-- `SignalHandlerForConfigReload`, `die` and `procsignal_sigusr1_handler`. -/
def WorkerProcess.handle (p : WorkerProcess) : Signal → WorkerProcess
  | .sighup => { p with configReloadPending := true, latch := true }
  | .sigterm => { p with procDiePending := true, latch := true }
  | .barrier => { p with procSignalBarrierPending := true, latch := true }

/-- `HandleFlushSignal`. -/
def WorkerProcess.handleFlushSignal (p : WorkerProcess) : WorkerProcess :=
  { p with latch := true }

/-! ## `PschSignalFlush` -/

/-- Where a call is. -/
inductive FlushPc where
  | idle
  /-- `kill(bgworker_pid, SIGUSR2)` -/
  | kill (bgworkerPid : UInt32)
  /-- `errno == ESRCH`: `pg_atomic_compare_exchange_u32` -/
  | clear (expected : UInt32)
deriving DecidableEq, Repr

/-! ## All of it together -/

/-- The export counters in shared memory. -/
structure Counters where
  exported : UInt64
  sendFailures : UInt64
  lastErrorText : String

structure Bgworker (ε : Type) (cfg : Config) where
  sys : System ε cfg
  /-- `psch_shared_state->bgworker_pid` -/
  bgworkerPid : UInt32 := 0
  process : Option WorkerProcess := none
  /-- the process was killed without its exit callbacks -/
  crashed : Bool := false
  /-- the calls of `PschSignalFlush` in the backends -/
  flush : cfg.Proc → FlushPc := fun _ => .idle
  /-- history: the pids of all processes so far -/
  pids : List UInt32 := []
  /-- history: how many events were published when SIGUSR2 last reached the process -/
  requested : ℕ := 0
  /-- history: how many were published when the worker last turned to the ring -/
  seen : ℕ := 0
  /-- history: how often `PschExportBatch` was called since the barrier was raised -/
  callsSince : ℕ := 0
  /-- history: the events that were in the worker's hands when an ERROR left `PschExportBatch`, or
  when a process ended -/
  abandoned : List PschEvent := []
  /-- history: how often an ERROR left `PschExportBatch` with a batch, a process ended in it, or
  was killed -/
  cuts : ℕ := 0

namespace Bgworker

variable {ε : Type} [StatsExporter ε] {cfg : Config}

inductive Label (ε : Type) [StatsExporter ε] (cfg : Config) where
  /-- anyone but the worker -/
  | queue (l : Queue.Label cfg)
  /-- the postmaster starts the worker, with the settings of the moment -/
  | start (pid : UInt32) (settings : Settings)
  | startupFails
  | storePid
  /-- `PschExporterInit`, with the exporter that is made, if it can be made -/
  | exporterInit (made : Option { x : ε // Made x }) (plan : Plan)
  /-- `WaitLatch` returns, perhaps because the time is over -/
  | wait (timedOut : Bool)
  | resetLatch
  | processBarrier
  | checkForInterrupts
  /-- with the settings that the file has now -/
  | handleConfigReload (file : Settings)
  /-- a step inside `PschExportBatch` -/
  | work (l : System.Label cfg)
  /-- `PschExportBatch` has returned: `if (exported < psch_batch_max) break` -/
  | batchDone
  /-- an ERROR that nothing catches, the death of the postmaster, or SIGTERM, outside
  `PschExportBatch` -/
  | procExit
  /-- SIGTERM at a message inside `PschExportBatch`, after `k` requests of the batch -/
  | dieInside (plan : Plan) (k : ℕ) (counters : Counters)
  /-- a message is written, and a barrier absorbed -/
  | errfinish
  | setBgworkerPid
  | exporterShutdown
  | signal (sig : Signal)
  /-- killed by a signal that cannot be handled -/
  | vanish (plan : Plan) (k : ℕ) (counters : Counters)
  /-- `pg_stat_ch_flush()` -/
  | flush (b : cfg.Proc)
  /-- `recycled`: is there another process with the pid, or one not yet reaped? -/
  | kill (b : cfg.Proc) (recycled : Bool)
  | clear (b : cfg.Proc)

/-- A step of the worker's process, from this place. -/
def fromPc (s : Bgworker ε cfg) (pc : MainPc) (f : WorkerProcess → Option (Bgworker ε cfg)) :
    Option (Bgworker ε cfg) :=
  match s.process with
  | none => none
  | some p => if p.pc = pc then f p else none

def setProcess (s : Bgworker ε cfg) (p : WorkerProcess) : Bgworker ε cfg :=
  { s with process := some p }

def setFlush (s : Bgworker ε cfg) (b : cfg.Proc) (pc : FlushPc) : Bgworker ε cfg :=
  { s with flush := Function.update s.flush b pc }

/-- The labels of `System` for the inside of `PschExportBatch`. -/
def isWork : System.Label cfg → Bool
  | .beginExport _ => true
  | .dequeue _ => true
  | .dequeueStep => true
  | .exportEvents _ => true
  | _ => false

/-- What the worker loses of its batch where an ERROR leaves the export: all that the backend has
not acknowledged. -/
def dropped (plan : Plan) (sys : System ε cfg) : Option (List PschEvent) :=
  match sys.pc with
  | .exporting events =>
    match PgStatCh.exportEvents plan sys.settings events { sys.exportState with sent := 0 } with
    | .ok _ _ => none
    | .error _ x =>
      some (events.drop (x.acked.flatten.length - sys.exportState.acked.flatten.length))
  | _ => none

/-- What `work` adds to the history. -/
def noteWork (l : System.Label cfg) (s : Bgworker ε cfg) : Bgworker ε cfg :=
  match l with
  | .beginExport _ => { s with callsSince := s.callsSince + 1 }
  | .dequeue _ => { s with seen := s.sys.queue.shmem.published.length }
  | .exportEvents plan =>
    { s with
      abandoned := s.abandoned ++ (dropped plan s.sys).getD []
      cuts := if (dropped plan s.sys).isSome then s.cuts + 1 else s.cuts }
  | _ => s

/-- The settings after `HandleConfigReload`. -/
def reloaded (s : Bgworker ε cfg) (p : WorkerProcess) (file : Settings) : Settings :=
  if p.configReloadPending then file else s.sys.settings

/-- What `System` calls the way on from `ProcessPendingSignals`, after the wait or between two
batches. -/
def resume (pc : WorkerPc) (settings : Settings) : System.Label cfg :=
  match pc with
  | .returned _ => .loop settings
  | _ => .wake settings

/-- The system when the process ends: of a batch that is being exported, the first `k` requests
that the backend acknowledges have been acknowledged, and the rest is in the worker's hands. -/
def cutShort (plan : Plan) (k : ℕ) (c : Counters) (sys : System ε cfg) : System ε cfg :=
  match sys.pc with
  | .exporting events =>
    let (_, x) := System.recovered 0
      (PgStatCh.exportEvents plan sys.settings events { sys.exportState with sent := 0 })
    let new := (x.acked.drop sys.exportState.acked.length).take k
    { sys with
      pc := .exporting (events.drop new.flatten.length)
      exportState := { sys.exportState with
        acked := sys.exportState.acked ++ new
        exported := c.exported
        sendFailures := c.sendFailures
        lastErrorText := c.lastErrorText } }
  | _ => sys

def step : Label ε cfg → Bgworker ε cfg → Option (Bgworker ε cfg)
  | .queue l, s => (System.step (.queue l) s.sys).map fun sys => { s with sys := sys }
  | .start pid settings, s =>
    match s.process with
    | some _ => none
    | none =>
      if pid ≠ 0 ∧ s.crashed = false then
        some { s with
          process := some { myProcPid := pid }
          pids := s.pids ++ [pid]
          requested := 0
          abandoned := s.abandoned ++ s.sys.pc.events
          sys.pc := .sleeping
          sys.settings := settings }
      else none
  | .startupFails, s => s.fromPc .starting fun _ => some { s with process := none }
  | .storePid, s =>
    s.fromPc .starting fun p =>
      some { s.setProcess { p with pc := .initializing } with bgworkerPid := p.myProcPid }
  | .exporterInit made plan, s =>
    s.fromPc .initializing fun p =>
      match made with
      | none => some (s.setProcess { p with pc := .exiting })
      | some x =>
        match establishNewConnection plan { s.sys.exportState with exporter := x.1 } with
        | .ok _ x' => some { s.setProcess { p with pc := .waitLatch } with sys.exportState := x' }
        | .error _ x' => some { s.setProcess { p with pc := .exiting } with sys.exportState := x' }
  | .wait timedOut, s =>
    s.fromPc .waitLatch fun p =>
      if p.latch ∨ timedOut then some (s.setProcess { p with pc := .resetLatch }) else none
  | .resetLatch, s =>
    s.fromPc .resetLatch fun p => some (s.setProcess { p with latch := false, pc := .barriers })
  | .processBarrier, s =>
    s.fromPc .barriers fun p =>
      some (s.setProcess { p with procSignalBarrierPending := false, pc := .interrupts })
  | .checkForInterrupts, s =>
    s.fromPc .interrupts fun p =>
      if p.procDiePending then some (s.setProcess { p with pc := .exiting })
      else some (s.setProcess { p with procSignalBarrierPending := false, pc := .configReload })
  | .handleConfigReload file, s =>
    s.fromPc .configReload fun p =>
      (System.step (resume s.sys.pc (s.reloaded p file)) s.sys).map fun sys =>
        { s.setProcess { p with
            configReloadPending := false
            pc := if sys.settings.pschEnabled then .draining else .waitLatch } with sys := sys }
  | .work l, s =>
    s.fromPc .draining fun _ =>
      if isWork l then (System.step l s.sys).map fun sys => { s.noteWork l with sys := sys }
      else none
  | .batchDone, s =>
    s.fromPc .draining fun p =>
      match s.sys.pc with
      | .returned exported =>
        if exported < s.sys.settings.batchMax then
          some { s.setProcess { p with pc := .waitLatch } with sys.pc := .sleeping }
        else some (s.setProcess { p with pc := .barriers })
      | _ => none
  | .procExit, s =>
    match s.process with
    | none => none
    | some p =>
      -- the `PG_CATCH` block writes a message, too, after `PschExportBatch` was left
      if p.pc.outside ∨ p.pc = .draining ∧ s.sys.pc.hasReturned then
        some (s.setProcess { p with pc := .exiting })
      else none
  | .dieInside plan k c, s =>
    s.fromPc .draining fun p =>
      match s.sys.queue.shmem.worker with
      | .idle =>
        if p.procDiePending then
          some { s.setProcess { p with pc := .exiting } with
            sys := cutShort plan k c s.sys
            cuts := s.cuts + 1 }
        else none
      | _ => none
  | .errfinish, s =>
    s.process.map fun p => s.setProcess { p with procSignalBarrierPending := false }
  | .setBgworkerPid, s =>
    s.fromPc .exiting fun p => some { s.setProcess { p with pc := .exited } with bgworkerPid := 0 }
  | .exporterShutdown, s => s.fromPc .exited fun _ => some { s with process := none }
  | .signal sig, s =>
    s.process.map fun p =>
      { s.setProcess (p.handle sig) with
        callsSince := if sig = .barrier ∧ p.procSignalBarrierPending = false then 0
          else s.callsSince }
  | .vanish plan k c, s =>
    s.process.map fun _ =>
      { s with
        process := none
        crashed := true
        sys := cutShort plan k c s.sys
        cuts := s.cuts + 1 }
  | .flush b, s =>
    match s.flush b with
    | .idle => if s.bgworkerPid = 0 then some s else some (s.setFlush b (.kill s.bgworkerPid))
    | _ => none
  | .kill b recycled, s =>
    match s.flush b with
    | .kill pid =>
      match s.process with
      | some p =>
        if p.myProcPid = pid then
          some { (s.setFlush b .idle).setProcess p.handleFlushSignal with
            requested := s.sys.queue.shmem.published.length }
        else if recycled then some (s.setFlush b .idle) else some (s.setFlush b (.clear pid))
      | none => if recycled then some (s.setFlush b .idle) else some (s.setFlush b (.clear pid))
    | _ => none
  | .clear b, s =>
    match s.flush b with
    | .clear expected =>
      some { s.setFlush b .idle with
        bgworkerPid := if s.bgworkerPid = expected then 0 else s.bgworkerPid }
    | _ => none

/-- The server has just been started: the ring is empty, the worker not yet there. The exporter
stands for none; `exporterInit` replaces it before it is used. -/
def Init (s : Bgworker ε cfg) : Prop :=
  ∃ queue exporter settings, Queue.Init queue ∧ Made exporter ∧
    s = { sys := { queue, exportState := { exporter }, settings } }

def machine (ε : Type) [StatsExporter ε] (cfg : Config) :
    Machine (Bgworker ε cfg) (Label ε cfg) where
  Init := Init
  step := step

/-! ## What a step can do -/

variable {s s' : Bgworker ε cfg}

/-- A step of the process `p` that only it takes part in. -/
inductive Moves (s : Bgworker ε cfg) (p : WorkerProcess) : Bgworker ε cfg → Prop where
  | startupFails : p.pc = .starting → Moves s p { s with process := none }
  | storePid : p.pc = .starting →
    Moves s p { s.setProcess { p with pc := .initializing } with bgworkerPid := p.myProcPid }
  | notMade : p.pc = .initializing → Moves s p (s.setProcess { p with pc := .exiting })
  | made (x : ε) (plan : Plan) (ok : Bool) (x' : ExportState ε) : p.pc = .initializing → Made x →
    establishNewConnection plan { s.sys.exportState with exporter := x } = .ok ok x' →
    Moves s p { s.setProcess { p with pc := .waitLatch } with sys.exportState := x' }
  | notInitialized (x : ε) (plan : Plan) (e : Exit) (x' : ExportState ε) :
    p.pc = .initializing → Made x →
    establishNewConnection plan { s.sys.exportState with exporter := x } = .error e x' →
    Moves s p { s.setProcess { p with pc := .exiting } with sys.exportState := x' }
  | wait : p.pc = .waitLatch → Moves s p (s.setProcess { p with pc := .resetLatch })
  | resetLatch : p.pc = .resetLatch →
    Moves s p (s.setProcess { p with latch := false, pc := .barriers })
  | processBarrier : p.pc = .barriers →
    Moves s p (s.setProcess { p with procSignalBarrierPending := false, pc := .interrupts })
  | die : p.pc = .interrupts → Moves s p (s.setProcess { p with pc := .exiting })
  | live : p.pc = .interrupts → p.procDiePending = false →
    Moves s p (s.setProcess { p with procSignalBarrierPending := false, pc := .configReload })
  | batchLast (n : ℕ) : p.pc = .draining → s.sys.pc = .returned n →
    n < s.sys.settings.batchMax →
    Moves s p { s.setProcess { p with pc := .waitLatch } with sys.pc := .sleeping }
  | batchNext (n : ℕ) : p.pc = .draining → s.sys.pc = .returned n →
    s.sys.settings.batchMax ≤ n → Moves s p (s.setProcess { p with pc := .barriers })
  | procExit : p.pc.outside = true → Moves s p (s.setProcess { p with pc := .exiting })
  | notReported (n : ℕ) : p.pc = .draining → s.sys.pc = .returned n →
    Moves s p (s.setProcess { p with pc := .exiting })
  | errfinish : Moves s p (s.setProcess { p with procSignalBarrierPending := false })
  | setBgworkerPid : p.pc = .exiting →
    Moves s p { s.setProcess { p with pc := .exited } with bgworkerPid := 0 }
  | exporterShutdown : p.pc = .exited → Moves s p { s with process := none }

/-- What a step can do. -/
inductive Step (s : Bgworker ε cfg) : Label ε cfg → Bgworker ε cfg → Prop where
  | queue (l : Queue.Label cfg) (q : Queue cfg) : l.isDequeue = false →
    Queue.step l s.sys.queue = some q → Step s (.queue l) { s with sys.queue := q }
  | start (pid : UInt32) (settings : Settings) : s.process = none → pid ≠ 0 →
    s.crashed = false →
    Step s (.start pid settings) { s with
      process := some { myProcPid := pid }
      pids := s.pids ++ [pid]
      requested := 0
      abandoned := s.abandoned ++ s.sys.pc.events
      sys.pc := .sleeping
      sys.settings := settings }
  | moves (l : Label ε cfg) (p : WorkerProcess) (s' : Bgworker ε cfg) : s.process = some p →
    Moves s p s' → Step s l s'
  | reload (file : Settings) (p : WorkerProcess) (sys : System ε cfg) : s.process = some p →
    p.pc = .configReload →
    System.step (resume s.sys.pc (s.reloaded p file)) s.sys = some sys →
    Step s (.handleConfigReload file) { s.setProcess { p with
      configReloadPending := false
      pc := if sys.settings.pschEnabled then .draining else .waitLatch } with sys := sys }
  | work (l : System.Label cfg) (p : WorkerProcess) (sys : System ε cfg) : s.process = some p →
    p.pc = .draining → isWork l = true → System.step l s.sys = some sys →
    Step s (.work l) { s.noteWork l with sys := sys }
  | signal (sig : Signal) (p : WorkerProcess) : s.process = some p →
    Step s (.signal sig) { s.setProcess (p.handle sig) with
      callsSince := if sig = .barrier ∧ p.procSignalBarrierPending = false then 0
        else s.callsSince }
  | dieInside (plan : Plan) (k : ℕ) (c : Counters) (p : WorkerProcess) : s.process = some p →
    p.pc = .draining → s.sys.queue.shmem.worker = .idle → p.procDiePending = true →
    Step s (.dieInside plan k c) { s.setProcess { p with pc := .exiting } with
      sys := cutShort plan k c s.sys
      cuts := s.cuts + 1 }
  | vanish (plan : Plan) (k : ℕ) (c : Counters) (p : WorkerProcess) : s.process = some p →
    Step s (.vanish plan k c) { s with
      process := none
      crashed := true
      sys := cutShort plan k c s.sys
      cuts := s.cuts + 1 }
  | notRunning (b : cfg.Proc) : s.bgworkerPid = 0 → Step s (.flush b) s
  | flush (b : cfg.Proc) : s.bgworkerPid ≠ 0 →
    Step s (.flush b) (s.setFlush b (.kill s.bgworkerPid))
  | killed (b : cfg.Proc) (recycled : Bool) (p : WorkerProcess) : s.process = some p →
    s.flush b = .kill p.myProcPid →
    Step s (.kill b recycled) { (s.setFlush b .idle).setProcess p.handleFlushSignal with
      requested := s.sys.queue.shmem.published.length }
  | strayed (b : cfg.Proc) : Step s (.kill b true) (s.setFlush b .idle)
  | noSuchProcess (b : cfg.Proc) (recycled : Bool) (pid : UInt32) : s.flush b = .kill pid →
    (∀ p, s.process = some p → p.myProcPid ≠ pid) →
    Step s (.kill b recycled) (s.setFlush b (.clear pid))
  | clear (b : cfg.Proc) (expected : UInt32) : s.flush b = .clear expected →
    Step s (.clear b) { s.setFlush b .idle with
      bgworkerPid := if s.bgworkerPid = expected then 0 else s.bgworkerPid }

omit [StatsExporter ε] in
theorem fromPc_eq_some {pc : MainPc} {f : WorkerProcess → Option (Bgworker ε cfg)}
    (h : s.fromPc pc f = some s') : ∃ p, s.process = some p ∧ p.pc = pc ∧ f p = some s' := by
  unfold fromPc at h
  split at h
  · cases h
  · next p hp =>
    split at h
    · next hpc => exact ⟨p, hp, hpc, h⟩
    · cases h

theorem step_cases {l : Label ε cfg} (h : step l s = some s') : Step s l s' := by
  cases l with
  | queue l =>
    simp only [step, System.step, Option.map_eq_some_iff] at h
    obtain ⟨sys, hsys, rfl⟩ := h
    split at hsys
    · cases hsys
    · next hl =>
      simp only [Option.map_eq_some_iff] at hsys
      obtain ⟨q, hq, rfl⟩ := hsys
      exact .queue l q (by simpa using hl) hq
  | start pid settings =>
    simp only [step] at h
    split at h
    · cases h
    · next hp =>
      split at h
      · next hpid =>
        cases h
        exact .start pid settings hp hpid.1 hpid.2
      · cases h
  | startupFails =>
    obtain ⟨p, hp, hpc, h⟩ := fromPc_eq_some h
    cases h
    exact .moves _ p _ hp (.startupFails hpc)
  | storePid =>
    obtain ⟨p, hp, hpc, h⟩ := fromPc_eq_some h
    cases h
    exact .moves _ p _ hp (.storePid hpc)
  | exporterInit made plan =>
    obtain ⟨p, hp, hpc, h⟩ := fromPc_eq_some h
    cases made with
    | none =>
      cases h
      exact .moves _ p _ hp (.notMade hpc)
    | some x =>
      simp only at h
      split at h
      · next ok x' hx =>
        cases h
        exact .moves _ p _ hp (.made x.1 plan ok x' hpc x.2 hx)
      · next e x' hx =>
        cases h
        exact .moves _ p _ hp (.notInitialized x.1 plan e x' hpc x.2 hx)
  | wait timedOut =>
    obtain ⟨p, hp, hpc, h⟩ := fromPc_eq_some h
    split at h
    · cases h
      exact .moves _ p _ hp (.wait hpc)
    · cases h
  | resetLatch =>
    obtain ⟨p, hp, hpc, h⟩ := fromPc_eq_some h
    cases h
    exact .moves _ p _ hp (.resetLatch hpc)
  | processBarrier =>
    obtain ⟨p, hp, hpc, h⟩ := fromPc_eq_some h
    cases h
    exact .moves _ p _ hp (.processBarrier hpc)
  | checkForInterrupts =>
    obtain ⟨p, hp, hpc, h⟩ := fromPc_eq_some h
    split at h
    · cases h
      exact .moves _ p _ hp (.die hpc)
    · next hlive =>
      cases h
      exact .moves _ p _ hp (.live hpc (by simpa using hlive))
  | handleConfigReload file =>
    obtain ⟨p, hp, hpc, h⟩ := fromPc_eq_some h
    simp only [Option.map_eq_some_iff] at h
    obtain ⟨sys, hsys, rfl⟩ := h
    exact .reload file p sys hp hpc hsys
  | work l =>
    obtain ⟨p, hp, hpc, h⟩ := fromPc_eq_some h
    split at h
    · next hl =>
      simp only [Option.map_eq_some_iff] at h
      obtain ⟨sys, hsys, rfl⟩ := h
      exact .work l p sys hp hpc hl hsys
    · cases h
  | batchDone =>
    obtain ⟨p, hp, hpc, h⟩ := fromPc_eq_some h
    split at h
    · next n hn =>
      split at h
      · next hlt =>
        cases h
        exact .moves _ p _ hp (.batchLast n hpc hn hlt)
      · next hge =>
        cases h
        exact .moves _ p _ hp (.batchNext n hpc hn (Nat.le_of_not_lt hge))
    · cases h
  | procExit =>
    simp only [step] at h
    split at h
    · cases h
    · next p hp =>
      split at h
      · next hwhere =>
        cases h
        rcases hwhere with hout | ⟨hpc, hreturned⟩
        · exact .moves _ p _ hp (.procExit hout)
        · obtain ⟨n, hn⟩ := WorkerPc.eq_returned hreturned
          exact .moves _ p _ hp (.notReported n hpc hn)
      · cases h
  | dieInside plan k c =>
    obtain ⟨p, hp, hpc, h⟩ := fromPc_eq_some h
    split at h
    · next hw =>
      split at h
      · next hdie =>
        cases h
        exact .dieInside plan k c p hp hpc hw hdie
      · cases h
    · cases h
  | errfinish =>
    simp only [step, Option.map_eq_some_iff] at h
    obtain ⟨p, hp, rfl⟩ := h
    exact .moves _ p _ hp .errfinish
  | setBgworkerPid =>
    obtain ⟨p, hp, hpc, h⟩ := fromPc_eq_some h
    cases h
    exact .moves _ p _ hp (.setBgworkerPid hpc)
  | exporterShutdown =>
    obtain ⟨p, hp, hpc, h⟩ := fromPc_eq_some h
    cases h
    exact .moves _ p _ hp (.exporterShutdown hpc)
  | signal sig =>
    simp only [step, Option.map_eq_some_iff] at h
    obtain ⟨p, hp, rfl⟩ := h
    exact .signal sig p hp
  | vanish plan k c =>
    simp only [step, Option.map_eq_some_iff] at h
    obtain ⟨p, hp, rfl⟩ := h
    exact .vanish plan k c p hp
  | flush b =>
    simp only [step] at h
    split at h
    · split at h
      · next hpid =>
        cases h
        exact .notRunning b hpid
      · next hpid =>
        cases h
        exact .flush b hpid
    · cases h
  | kill b recycled =>
    simp only [step] at h
    split at h
    · next pid hpid =>
      split at h
      · next p hp =>
        split at h
        · next heq =>
          cases h
          subst heq
          exact .killed b recycled p hp hpid
        · next hne =>
          split at h
          · next hrecycled =>
            cases h
            subst hrecycled
            exact .strayed b
          · cases h
            refine .noSuchProcess b recycled pid hpid fun p' hp' => ?_
            rw [hp] at hp'
            cases hp'
            exact hne
      · next hp =>
        split at h
        · next hrecycled =>
          cases h
          subst hrecycled
          exact .strayed b
        · cases h
          refine .noSuchProcess b recycled pid hpid fun p' hp' => ?_
          rw [hp] at hp'
          cases hp'
    · cases h
  | clear b =>
    simp only [step] at h
    split at h
    · next expected hexpected =>
      cases h
      exact .clear b expected hexpected
    · cases h

/-! ## The queue -/

theorem Moves.queue {p : WorkerProcess} (h : Moves s p s') : s'.sys.queue = s.sys.queue := by
  cases h <;> rfl

theorem cutShort_queue (plan : Plan) (k : ℕ) (c : Counters) (sys : System ε cfg) :
    (cutShort plan k c sys).queue = sys.queue := by
  unfold cutShort
  split <;> rfl

theorem cutShort_settings (plan : Plan) (k : ℕ) (c : Counters) (sys : System ε cfg) :
    (cutShort plan k c sys).settings = sys.settings := by
  unfold cutShort
  split <;> rfl

/-- The queue sees nothing of the process. -/
theorem refines_queue (ε : Type) [StatsExporter ε] (cfg : Config) :
    Refinement (machine ε cfg).toSpec (Queue.machine cfg).toSpec (fun s => s.sys.queue) where
  init := by
    rintro s ⟨queue, exporter, settings, hqueue, -, rfl⟩
    exact hqueue
  next := by
    rintro s s' - ⟨l, hl⟩
    have hsys : ∀ {l : System.Label cfg} {sys : System ε cfg}, System.step l s.sys = some sys →
        (Queue.machine cfg).toSpec.StutNext s.sys.queue sys.queue := by
      intro l sys hstep
      rcases System.step_queue hstep with hsame | ⟨l', hl'⟩
      · exact Or.inr hsame
      · exact Or.inl ⟨l', hl'⟩
    cases step_cases hl with
    | queue l q hl hq => exact Or.inl ⟨l, hq⟩
    | moves l p s' hp h => exact Or.inr h.queue
    | reload file p sys hp hpc hsys' => exact hsys hsys'
    | work l p sys hp hpc hl hsys' => exact hsys hsys'
    | dieInside plan k c | vanish plan k c => exact Or.inr (cutShort_queue plan k c s.sys)
    | _ => exact Or.inr rfl

theorem shmem_reachable (hs : (machine ε cfg).toSpec.Reachable s) :
    (Shmem.machine cfg).toSpec.Reachable s.sys.queue.shmem :=
  Queue.shmem_reachable ((refines_queue ε cfg).reachable hs)

theorem shmem_inv (hs : (machine ε cfg).toSpec.Reachable s) : Shmem.Inv s.sys.queue.shmem :=
  Shmem.inv_reachable (shmem_reachable hs)

end Bgworker

end PgStatCh
