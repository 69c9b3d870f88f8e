import Mathlib.Data.Rat.Defs
import Mathlib.Algebra.Order.Ring.Unbundled.Rat
import PgStatCh.Tla.Core
import PgStatCh.Queue.Event

/-!
# Hooks.Executor — the executor and utility hooks of one backend

`PschExecutorStart`, `PschExecutorRun`, `PschExecutorFinish`, `PschExecutorEnd` and
`PschProcessUtility` (hooks.c) each wrap a call into PostgreSQL, which can run further
statements and so come back to the hooks: functions, triggers, SPI. Statements can
also be open side by side, as the portals of a client are. What is known about the
start of a statement is kept in static variables of the backend.

The machine below is the stack of these hooks with the static variables. While a hook
is in its call into PostgreSQL, any hook can be entered, and an ERROR can be raised; it
takes the frames off the stack until some `PG_TRY` of PostgreSQL, or the main loop,
stops it. What PostgreSQL knows and measures is part of the label.

The branches for PostgreSQL 18 are modelled. What the buffers of an event hold behind
the texts is left out: it is the stack's garbage in the source.
-/

namespace PgStatCh

open Tla

/-! ## What PostgreSQL knows about a statement -/

inductive CmdType where
  | unknown | select | update | insert | delete | merge | utility | nothing
deriving DecidableEq

structure Timeval where
  tvSec : Int64 := 0
  tvUsec : Int64 := 0

structure Rusage where
  ruUtime : Timeval := {}
  ruStime : Timeval := {}

/-- The counters, and the times in microseconds. -/
structure BufferUsage where
  sharedBlksHit : Int64 := 0
  sharedBlksRead : Int64 := 0
  sharedBlksDirtied : Int64 := 0
  sharedBlksWritten : Int64 := 0
  localBlksHit : Int64 := 0
  localBlksRead : Int64 := 0
  localBlksDirtied : Int64 := 0
  localBlksWritten : Int64 := 0
  tempBlksRead : Int64 := 0
  tempBlksWritten : Int64 := 0
  sharedBlkReadTime : Int64 := 0
  sharedBlkWriteTime : Int64 := 0
  localBlkReadTime : Int64 := 0
  localBlkWriteTime : Int64 := 0
  tempBlkReadTime : Int64 := 0
  tempBlkWriteTime : Int64 := 0

structure WalUsage where
  walRecords : Int64 := 0
  walFpi : Int64 := 0
  walBytes : UInt64 := 0

/-- `total` in microseconds. -/
structure Instrumentation where
  total : UInt64 := 0
  bufusage : BufferUsage := {}
  walusage : WalUsage := {}

/-- The times in microseconds. -/
structure JitInstrumentation where
  createdFunctions : Int32 := 0
  generationCounter : Int32 := 0
  deformCounter : Int32 := 0
  inliningCounter : Int32 := 0
  optimizationCounter : Int32 := 0
  emissionCounter : Int32 := 0

structure QueryDesc where
  operation : CmdType := .select
  queryId : UInt64 := 0
  esProcessed : UInt64 := 0
  totaltime : Option Instrumentation := none
  esJit : Option JitInstrumentation := none
  esParallelWorkersToLaunch : Int16 := 0
  esParallelWorkersLaunched : Int16 := 0

/-- The nodes that `ShouldTrackUtility` tells apart. -/
inductive UtilityStmt where
  | execute | prepare | deallocate | transaction | other
deriving DecidableEq

/-- The command tags that `GetUtilityRowCount` tells apart. -/
inductive CommandTag where
  | copy | fetch | select | refreshMaterializedView | other
deriving DecidableEq

structure QueryCompletion where
  commandTag : CommandTag := .other
  nprocessed : UInt64 := 0

/-- What `InitBaseEvent`, `ResolveNames` and `CopyClientContext` find out about the
session. -/
structure ClientContext where
  dbid : UInt32 := 0
  userid : UInt32 := 0
  pid : Int32 := 0
  datname : CharBuf 64 := .zero 64
  datnameLen : UInt8 := 0
  username : CharBuf 64 := .zero 64
  usernameLen : UInt8 := 0
  applicationName : CharBuf 64 := .zero 64
  applicationNameLen : UInt8 := 0
  clientAddr : CharBuf 46 := .zero 46
  clientAddrLen : UInt8 := 0

/-- `psch_min_duration_us`, `psch_sample_rate` and the next random number. -/
structure Sampling where
  minDurationUs : UInt64 := 0
  sampleRate : ℚ := 1
  draw : ℚ := 0

/-! ## Building events -/

def convertCmdType : CmdType → PschCmdType
  | .select => .select
  | .update => .update
  | .insert => .insert
  | .delete => .delete
  | .merge => .merge
  | .utility => .utility
  | .nothing => .nothing
  | .unknown => .unknown

def timeDiffMicrosec (e s : Timeval) : Int64 :=
  (e.tvSec - s.tvSec) * 1000000 + (e.tvUsec - s.tvUsec)

def shouldSampleEvent (g : Sampling) (durationUs : UInt64) : Bool :=
  if g.minDurationUs = 0 ∧ 1 ≤ g.sampleRate then true
  else if g.minDurationUs ≤ durationUs then true
  else if g.sampleRate ≤ 0 then false
  else if 1 ≤ g.sampleRate then true
  else decide (g.draw < g.sampleRate)

def copyBufferUsage (buf : BufferUsage) (f : FixedPrefix) : FixedPrefix :=
  { f with
    sharedBlksHit := buf.sharedBlksHit
    sharedBlksRead := buf.sharedBlksRead
    sharedBlksDirtied := buf.sharedBlksDirtied
    sharedBlksWritten := buf.sharedBlksWritten
    localBlksHit := buf.localBlksHit
    localBlksRead := buf.localBlksRead
    localBlksDirtied := buf.localBlksDirtied
    localBlksWritten := buf.localBlksWritten
    tempBlksRead := buf.tempBlksRead
    tempBlksWritten := buf.tempBlksWritten }

def copyIoTiming (buf : BufferUsage) (f : FixedPrefix) : FixedPrefix :=
  { f with
    sharedBlkReadTimeUs := buf.sharedBlkReadTime
    sharedBlkWriteTimeUs := buf.sharedBlkWriteTime
    localBlkReadTimeUs := buf.localBlkReadTime
    localBlkWriteTimeUs := buf.localBlkWriteTime
    tempBlkReadTimeUs := buf.tempBlkReadTime
    tempBlkWriteTimeUs := buf.tempBlkWriteTime }

def copyWalUsage (wal : WalUsage) (f : FixedPrefix) : FixedPrefix :=
  { f with walRecords := wal.walRecords, walFpi := wal.walFpi, walBytes := wal.walBytes }

def copyJitInstrumentation (jit : Option JitInstrumentation) (f : FixedPrefix) : FixedPrefix :=
  match jit with
  | none => f
  | some jit =>
    { f with
      jitFunctions := jit.createdFunctions
      jitGenerationTimeUs := jit.generationCounter
      jitInliningTimeUs := jit.inliningCounter
      jitOptimizationTimeUs := jit.optimizationCounter
      jitEmissionTimeUs := jit.emissionCounter
      jitDeformTimeUs := jit.deformCounter }

def copyParallelWorkerInfo (desc : QueryDesc) (f : FixedPrefix) : FixedPrefix :=
  { f with
    parallelWorkersPlanned := desc.esParallelWorkersToLaunch
    parallelWorkersLaunched := desc.esParallelWorkersLaunched }

def copyClientContext (c : ClientContext) (f : FixedPrefix) : FixedPrefix :=
  { f with
    applicationName := c.applicationName
    applicationNameLen := c.applicationNameLen
    clientAddr := c.clientAddr
    clientAddrLen := c.clientAddrLen }

def initBaseEvent (c : ClientContext) (tsStart : Int64) (topLevel : Bool) (cmdType : PschCmdType) :
    FixedPrefix :=
  { tsStart, topLevel, cmdType
    dbid := c.dbid, userid := c.userid, pid := c.pid
    datname := c.datname, datnameLen := c.datnameLen
    username := c.username, usernameLen := c.usernameLen }

/-- `CopyQueryText`, with what `PschLookupNormalizedQuery` found. -/
def copyQueryText (found : Option (CharBuf pschMaxQueryLen × UInt16)) (f : FixedPrefix) :
    PschEvent :=
  match found with
  | none => { fixed := f }
  | some (query, queryLen) => { fixed := f, query, queryLen }

/-- What is measured and looked up when a statement ends. -/
structure Measured where
  pschEnabled : Bool := true
  now : Int64 := 0
  /-- nothing if `getrusage` fails -/
  rusageEnd : Option Rusage := none
  sampling : Sampling := {}
  client : ClientContext := {}
  queryText : Option (CharBuf pschMaxQueryLen × UInt16) := none
  /-- of a utility statement -/
  durationUs : UInt64 := 0
  bufusageDelta : BufferUsage := {}
  walusageDelta : WalUsage := {}
  qc : Option QueryCompletion := none

/-- The duration that `PschExecutorEnd` and `BuildEventFromQueryDesc` both compute. -/
def queryDuration (desc : QueryDesc) (now queryStartTs : Int64) : UInt64 :=
  match desc.totaltime with
  | some totaltime => totaltime.total
  | none => (now - queryStartTs).toUInt64

def cpuTimes (rusageStart : Rusage) : Option Rusage → Int64 × Int64
  | none => (0, 0)
  | some rusageEnd =>
    (timeDiffMicrosec rusageEnd.ruUtime rusageStart.ruUtime,
      timeDiffMicrosec rusageEnd.ruStime rusageStart.ruStime)

def buildEventFromQueryDesc (desc : QueryDesc) (a : Measured) (queryStartTs : Int64)
    (currentQueryIsTopLevel : Bool) (cpu : Int64 × Int64) : PschEvent :=
  let f := initBaseEvent a.client queryStartTs currentQueryIsTopLevel (convertCmdType desc.operation)
  let f := { f with
    queryid := desc.queryId, rows := desc.esProcessed, cpuUserTimeUs := cpu.1, cpuSysTimeUs := cpu.2
    durationUs := queryDuration desc a.now queryStartTs }
  let f := match desc.totaltime with
    | some totaltime =>
      copyWalUsage totaltime.walusage
        (copyIoTiming totaltime.bufusage (copyBufferUsage totaltime.bufusage f))
    | none => f
  let f := copyParallelWorkerInfo desc (copyJitInstrumentation desc.esJit f)
  copyQueryText a.queryText (copyClientContext a.client f)

def getUtilityRowCount : Option QueryCompletion → UInt64
  | none => 0
  | some qc =>
    match qc.commandTag with
    | .copy => qc.nprocessed
    | .fetch => qc.nprocessed
    | .select => qc.nprocessed
    | .refreshMaterializedView => qc.nprocessed
    | .other => 0

def buildEventForUtility (a : Measured) (queryId : UInt64) (startTs : Int64) (isTopLevel : Bool)
    (cpu : Int64 × Int64) : PschEvent :=
  let f := initBaseEvent a.client startTs isTopLevel .utility
  let f := { f with
    queryid := queryId, durationUs := a.durationUs, rows := getUtilityRowCount a.qc
    cpuUserTimeUs := cpu.1, cpuSysTimeUs := cpu.2 }
  let f := copyWalUsage a.walusageDelta
    (copyIoTiming a.bufusageDelta (copyBufferUsage a.bufusageDelta f))
  copyQueryText a.queryText (copyClientContext a.client f)

/-! ## The hooks -/

/-- What `PschProcessUtility` keeps in its local variables. -/
structure UtilityStart where
  isTopLevel : Bool
  startTs : Int64
  queryId : UInt64
  rusageUtilStart : Rusage

/-- A hook in its call into PostgreSQL. -/
inductive HookFrame where
  | executorStart
  | executorRun
  | executorFinish
  | executorEnd
  /-- nothing to remember if the statement is not tracked -/
  | processUtility (tracked : Option UtilityStart)

/-- Run, Finish and tracked utility statements. -/
def HookFrame.nests : HookFrame → Bool
  | executorRun => true
  | executorFinish => true
  | processUtility tracked => tracked.isSome
  | _ => false

/-- A call of `PschExecutorStart`: the nesting level and the time. -/
structure Start where
  level : ℤ
  now : Int64

/-- The static variables of hooks.c, and the stack with the running hook in front. -/
structure Executor where
  nestingLevel : ℤ := 0
  rusageStart : Rusage := {}
  currentQueryIsTopLevel : Bool := false
  queryStartTs : Int64 := 0
  stack : List HookFrame := []
  /-- an ERROR is on its way up the stack -/
  raising : Bool := false
  /-- the events built so far -/
  events : List PschEvent := []
  /-- history: the calls of `PschExecutorStart` so far. A `QueryDesc` is started once, so its
  place in this list stands for it. -/
  starts : List Start := []

namespace Executor

def pschExecutorStart (isParallelWorker pschEnabled : Bool) (now : Int64) (usage : Rusage)
    (s : Executor) : Executor :=
  let s' := { s with stack := .executorStart :: s.stack
                     starts := s.starts ++ [⟨s.nestingLevel, now⟩] }
  if isParallelWorker then s'
  else if s.nestingLevel = 0 then
    { s' with currentQueryIsTopLevel := true, queryStartTs := now
              rusageStart := if pschEnabled then usage else s.rusageStart }
  else { s' with currentQueryIsTopLevel := false }

/-- `PschExecutorRun` and `PschExecutorFinish` differ in what they call. -/
def enterNested (isParallelWorker : Bool) (f : HookFrame) (s : Executor) : Executor :=
  { s with stack := f :: s.stack
           nestingLevel := if isParallelWorker then s.nestingLevel else s.nestingLevel + 1 }

def pschExecutorRun (isParallelWorker : Bool) : Executor → Executor :=
  enterNested isParallelWorker .executorRun

def pschExecutorFinish (isParallelWorker : Bool) : Executor → Executor :=
  enterNested isParallelWorker .executorFinish

def pschExecutorEnd (isParallelWorker : Bool) (desc : QueryDesc) (a : Measured) (s : Executor) :
    Executor :=
  let s' := { s with stack := .executorEnd :: s.stack }
  if a.pschEnabled = false ∨ isParallelWorker = true ∨ desc.queryId = 0 then s'
  else if shouldSampleEvent a.sampling (queryDuration desc a.now s.queryStartTs) = false then s'
  else
    { s' with events := s.events ++ [buildEventFromQueryDesc desc a s.queryStartTs
        s.currentQueryIsTopLevel (cpuTimes s.rusageStart a.rusageEnd)] }

def shouldTrackUtility (isParallelWorker pschEnabled : Bool) (stmt : UtilityStmt) : Bool :=
  if pschEnabled = false ∨ isParallelWorker = true then false
  else
    match stmt with
    | .execute => false
    | .prepare => false
    | .deallocate => false
    | .transaction => false
    | .other => true

def pschProcessUtility (isParallelWorker pschEnabled : Bool) (stmt : UtilityStmt)
    (queryId : UInt64) (now : Int64) (usage : Rusage) (s : Executor) : Executor :=
  if shouldTrackUtility isParallelWorker pschEnabled stmt then
    { s with nestingLevel := s.nestingLevel + 1
             stack := .processUtility (some ⟨decide (s.nestingLevel = 0), now, queryId, usage⟩) ::
               s.stack }
  else { s with stack := .processUtility none :: s.stack }

/-- The hook `f` goes, with its `PG_FINALLY` block if it has one. -/
def leave (isParallelWorker : Bool) (f : HookFrame) (below : List HookFrame) (s : Executor) :
    Executor :=
  { s with stack := below
           nestingLevel := if isParallelWorker = false ∧ f.nests = true then s.nestingLevel - 1
             else s.nestingLevel }

/-- The call into PostgreSQL returns to the hook `f`, and the hook returns. -/
def returnTo (isParallelWorker : Bool) (a : Measured) (f : HookFrame) (below : List HookFrame)
    (s : Executor) : Executor :=
  let s' := leave isParallelWorker f below s
  match f with
  | .processUtility (some u) =>
    if shouldSampleEvent a.sampling a.durationUs = false then s'
    else
      { s' with events := s.events ++ [buildEventForUtility a u.queryId u.startTs u.isTopLevel
          (cpuTimes u.rusageUtilStart a.rusageEnd)] }
  | _ => s'

inductive Label where
  | executorStart (pschEnabled : Bool) (now : Int64) (usage : Rusage)
  | executorRun
  | executorFinish
  /-- for the `QueryDesc` of the start at this place of the history -/
  | executorEnd (started : ℕ) (desc : QueryDesc) (a : Measured)
  | processUtility (pschEnabled : Bool) (stmt : UtilityStmt) (queryId : UInt64) (now : Int64)
      (usage : Rusage)
  /-- the running hook's call into PostgreSQL returns -/
  | returned (a : Measured)
  /-- an ERROR is raised -/
  | raise
  /-- the ERROR leaves the running hook -/
  | unwind
  /-- the ERROR is caught by PostgreSQL code that the running hook has called -/
  | caught

def step (isParallelWorker : Bool) (l : Label) (s : Executor) : Option Executor :=
  if s.raising then
    match l, s.stack with
    | .unwind, f :: below =>
      some { leave isParallelWorker f below s with raising := !below.isEmpty }
    | .caught, _ :: _ => some { s with raising := false }
    | _, _ => none
  else
    match l, s.stack with
    | .executorStart enabled now usage, _ =>
      some (pschExecutorStart isParallelWorker enabled now usage s)
    | .executorRun, _ => some (pschExecutorRun isParallelWorker s)
    | .executorFinish, _ => some (pschExecutorFinish isParallelWorker s)
    | .executorEnd started desc a, _ =>
      if started < s.starts.length then some (pschExecutorEnd isParallelWorker desc a s) else none
    | .processUtility enabled stmt queryId now usage, _ =>
      some (pschProcessUtility isParallelWorker enabled stmt queryId now usage s)
    | .returned a, f :: below => some (returnTo isParallelWorker a f below s)
    | .raise, _ :: _ => some { s with raising := true }
    | _, _ => none

/-- A backend from its start on. -/
def machine (isParallelWorker : Bool) : Machine Executor Label where
  Init := fun s => s = {}
  step := step isParallelWorker

end Executor

end PgStatCh
