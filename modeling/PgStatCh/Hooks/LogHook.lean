import PgStatCh.Tla.Core
import PgStatCh.Queue.Event

/-!
# Hooks.LogHook — enqueuing and log capture in one backend

`PschEnqueueEvent`, `PschEnqueueBatch` (shmem.c), the local batch (local_batch.c) and
`PschEmitLogHook` with `CaptureLogEvent` (hooks.c) call each other: enqueuing can emit
a log message, every log message goes through the hook, and the hook enqueues an
event. All of them also call into PostgreSQL, and such a call can emit log messages
and can raise an ERROR.

The machine below is the stack of these calls in one backend, with its static
variables. A raised ERROR takes the frames off the stack one by one; `PG_TRY` blocks
stop it. What the shared memory, the other backends and PostgreSQL answer is part of
the label. Plain statements of the C code neither report nor raise.

Left out: what the enqueuing does to the ring (see `Queue`), log hooks of other
extensions that enqueue events themselves, and FATAL errors.
-/

namespace PgStatCh

open Tla

/-- What a call of `PschEnqueueEvent` or `PschEnqueueBatch` is about. -/
inductive EnqueueCall where
  | event (e : PschEvent)
  /-- the first `count` entries of `local_batch` -/
  | batch (count : ℕ)

def EnqueueCall.count : EnqueueCall → ℕ
  | event _ => 1
  | batch count => count

/-- Where such a call is, once `disable_error_capture` is set. -/
inductive EnqueuePc where
  /-- `head - tail >= capacity`, without the lock -/
  | fastCheck
  /-- `HandleOverflow()` without the lock, so many times still -/
  | fastOverflow (left : ℕ)
  /-- in its `ereport(WARNING)` -/
  | fastWarning (left : ℕ)
  /-- in `LWLockConditionalAcquire` or `LWLockAcquire` -/
  | acquire
  /-- `TryEnqueueLocked`, for event `i`: the check for overflow -/
  | tryEnqueue (i : ℕ)
  /-- `HandleOverflow()` under the lock -/
  | overflow (i : ℕ)
  /-- in its `ereport(WARNING)` -/
  | warning (i : ℕ)
  /-- in `PschDsaAllocString` or `PschQueryInternAcquire` -/
  | strings (i : ℕ)
  /-- `PG_FINALLY`; does an ERROR go on from here? -/
  | pgFinally (rethrow : Bool)
  /-- the lock was taken; in `PschLocalBatchAdd` -/
  | contended

/-- Where a call of `PschLocalBatchAdd` is. -/
inductive AddPc where
  /-- in `PschLocalBatchInit` -/
  | init
  /-- `local_batch_count >= PSCH_LOCAL_BATCH_CAPACITY` -/
  | check
  /-- back from the flush, if there was one -/
  | copy

/-- Where a call of `PschEmitLogHook` is. -/
inductive HookPc where
  /-- in `prev_emit_log_hook` -/
  | prev
  /-- in `PG_TRY`, or just behind it -/
  | capturing

/-- A call on the stack. `saved` is `saved_capture`, the guard at the beginning of the
call. -/
inductive Frame where
  | enqueue (c : EnqueueCall) (saved : Bool) (pc : EnqueuePc)
  | localBatchAdd (e : PschEvent) (pc : AddPc)
  | emitLogHook (pc : HookPc)
  /-- `CaptureLogEvent`; has it called `PschEnqueueEvent`? -/
  | captureLogEvent (enqueued : Bool)

/-- The static variables of hooks.c and local_batch.c, the queue lock as this backend
sees it, and the stack with the running call in front. -/
structure Session where
  disableErrorCapture : Bool := false
  /-- does this backend hold `psch_shared_state->lock`? -/
  holdsLock : Bool := false
  localBatch : ℕ → PschEvent := fun _ => {}
  localBatchCount : ℕ := 0
  localBatchInitialized : Bool := false
  stack : List Frame := []
  /-- an ERROR is on its way up the stack -/
  raising : Bool := false

namespace EnqueuePc

/-- Inside `PG_TRY`. -/
def inTry : EnqueuePc → Bool
  | tryEnqueue _ => true
  | overflow _ => true
  | warning _ => true
  | strings _ => true
  | _ => false

/-- With the queue lock held. -/
def locks : EnqueuePc → Bool
  | pgFinally _ => true
  | pc => pc.inTry

/-- Between the two calls of `PschSuppressErrorCapture`. -/
def guards : EnqueuePc → Bool
  | contended => false
  | _ => true

/-- In a call into PostgreSQL. -/
def callsOut : EnqueuePc → Bool
  | fastWarning _ => true
  | acquire => true
  | warning _ => true
  | strings _ => true
  | _ => false

/-- After `TryEnqueueLocked` for event `i`. -/
def nextEvent (count i : ℕ) : EnqueuePc :=
  if i + 1 < count then tryEnqueue (i + 1) else pgFinally false

end EnqueuePc

/-- In a call into PostgreSQL, which can emit log messages and raise errors. -/
def Frame.callsOut : Frame → Bool
  | enqueue _ _ pc => pc.callsOut
  | localBatchAdd _ .init => true
  | localBatchAdd _ _ => false
  | emitLogHook .prev => true
  | emitLogHook .capturing => false
  | captureLogEvent enqueued => !enqueued

namespace Session

/-- What the rest of the world answers to a step. -/
structure Answers where
  /-- `head - tail >= capacity`, or the debug switch -/
  full : Bool := false
  /-- `pg_atomic_test_set_flag(&psch_shared_state->overflow_logged)` -/
  firstOverflow : Bool := false
  /-- no other process holds the lock -/
  lockFree : Bool := true
  /-- `psch_shared_state != NULL && psch_enabled` -/
  enabled : Bool := true
  /-- all conditions of `ShouldCaptureLog` but the guard -/
  eligible : Bool := true
  /-- the event that `CaptureLogEvent` has built -/
  event : PschEvent := {}

inductive Label where
  /-- an executor hook calls `PschEnqueueEvent` -/
  | enqueueEvent (e : PschEvent) (enabled : Bool)
  /-- the end of a transaction or of the process calls `PschLocalBatchFlush` -/
  | flush (enabled : Bool)
  /-- a log message goes to `emit_log_hook` -/
  | emit
  /-- an ERROR is raised -/
  | raise
  /-- the ERROR arrives at the running call -/
  | unwind
  | step (a : Answers)

/-- `PschEnqueueEvent` or `PschEnqueueBatch` sets the guard. -/
def beginEnqueue (s : Session) (c : EnqueueCall) : Session :=
  { s with disableErrorCapture := true
           stack := .enqueue c s.disableErrorCapture .fastCheck :: s.stack }

def pschEnqueueEvent (s : Session) (enabled : Bool) (e : PschEvent) : Session :=
  if enabled then s.beginEnqueue (.event e) else s

def pschEnqueueBatch (s : Session) (enabled : Bool) (count : ℕ) : Session :=
  if enabled = false ∨ count = 0 then s else s.beginEnqueue (.batch count)

def pschLocalBatchFlush (s : Session) (enabled : Bool) : Session :=
  if s.localBatchCount = 0 then s
  else { s with localBatchCount := 0 }.pschEnqueueBatch enabled s.localBatchCount

def pschLocalBatchAdd (s : Session) (e : PschEvent) : Session :=
  { s with stack :=
      .localBatchAdd e (if s.localBatchInitialized then .check else .init) :: s.stack }

/-- `PSCH_LOCAL_BATCH_CAPACITY`. -/
def localBatchCapacity : ℕ := 8

/-- The steps of `PschEnqueueEvent` and `PschEnqueueBatch` that change nothing else. -/
def nextPc (count : ℕ) (a : Answers) : EnqueuePc → Option EnqueuePc
  | .fastCheck => some (if a.full then .fastOverflow count else .acquire)
  | .fastOverflow (left + 1) =>
    some (if a.firstOverflow then .fastWarning left else .fastOverflow left)
  | .fastWarning left => some (.fastOverflow left)
  | .tryEnqueue i => some (if a.full then .overflow i else .strings i)
  | .overflow i => some (if a.firstOverflow then .warning i else .nextEvent count i)
  | .warning i => some (.nextEvent count i)
  | .strings i => some (.nextEvent count i)
  | _ => none

/-- The next step of the enqueuing call in front of `below`. -/
def stepEnqueue (a : Answers) (c : EnqueueCall) (saved : Bool) (pc : EnqueuePc)
    (below : List Frame) (s : Session) : Option Session :=
  match pc with
  | .fastOverflow 0 => some { s with disableErrorCapture := saved, stack := below }
  | .acquire =>
    if a.lockFree = true ∧ s.holdsLock = false then
      some { s with holdsLock := true, stack := .enqueue c saved (.tryEnqueue 0) :: below }
    else
      match c with
      | .event e =>
        -- the guard is given back before the event is buffered
        some ({ s with disableErrorCapture := saved
                       stack := .enqueue c saved .contended :: below }.pschLocalBatchAdd e)
      | .batch _ => none
  | .pgFinally rethrow =>
    some { s with holdsLock := false, disableErrorCapture := saved, stack := below
                  raising := rethrow && !below.isEmpty }
  | .contended => some { s with stack := below }
  | pc => (nextPc c.count a pc).map fun pc' => { s with stack := .enqueue c saved pc' :: below }

/-- The next step of `PschLocalBatchAdd` in front of `below`. -/
def stepAdd (a : Answers) (e : PschEvent) (pc : AddPc) (below : List Frame) (s : Session) :
    Session :=
  match pc with
  | .init => { s with localBatchInitialized := true, stack := .localBatchAdd e .check :: below }
  | .check =>
    let s' := { s with stack := .localBatchAdd e .copy :: below }
    if localBatchCapacity ≤ s.localBatchCount then s'.pschLocalBatchFlush a.enabled else s'
  | .copy =>
    { s with localBatch := Function.update s.localBatch s.localBatchCount e
             localBatchCount := s.localBatchCount + 1, stack := below }

/-- The next step of `PschEmitLogHook` in front of `below`. -/
def stepHook (a : Answers) (pc : HookPc) (below : List Frame) (s : Session) : Session :=
  match pc with
  | .prev =>
    -- `ShouldCaptureLog`
    if a.eligible = true ∧ s.disableErrorCapture = false then
      { s with disableErrorCapture := true
               stack := .captureLogEvent false :: .emitLogHook .capturing :: below }
    else { s with stack := below }
  | .capturing => { s with disableErrorCapture := false, stack := below }

/-- The next step of `CaptureLogEvent` in front of `below`. -/
def stepCapture (a : Answers) (enqueued : Bool) (below : List Frame) (s : Session) : Session :=
  if enqueued then { s with stack := below }
  else { s with stack := .captureLogEvent true :: below }.pschEnqueueEvent a.enabled a.event

def stepFrame (a : Answers) (f : Frame) (below : List Frame) (s : Session) : Option Session :=
  match f with
  | .enqueue c saved pc => stepEnqueue a c saved pc below s
  | .localBatchAdd e pc => some (stepAdd a e pc below s)
  | .emitLogHook pc => some (stepHook a pc below s)
  | .captureLogEvent enqueued => some (stepCapture a enqueued below s)

/-- The ERROR arrives at the call `f`: `PG_FINALLY`, `PG_CATCH`, or out of it. -/
def unwindFrame (f : Frame) (below : List Frame) (s : Session) : Session :=
  match f with
  | .emitLogHook .capturing => { s with raising := false }
  | .enqueue c saved pc =>
    if pc.inTry then
      { s with stack := .enqueue c saved (.pgFinally true) :: below, raising := false }
    else { s with stack := below, raising := !below.isEmpty }
  | _ => { s with stack := below, raising := !below.isEmpty }

/-- Can the running code, or the rest of PostgreSQL, report something? -/
def mayReport (s : Session) : Bool :=
  match s.stack with
  | [] => true
  | f :: _ => f.callsOut && !s.raising

def step (l : Label) (s : Session) : Option Session :=
  match l, s.stack with
  | .enqueueEvent e enabled, [] => some (s.pschEnqueueEvent enabled e)
  | .flush enabled, [] => some (s.pschLocalBatchFlush enabled)
  | .emit, stack =>
    if s.mayReport then some { s with stack := .emitLogHook .prev :: stack } else none
  | .raise, _ :: _ => if s.mayReport then some { s with raising := true } else none
  | .unwind, f :: below => if s.raising then some (unwindFrame f below s) else none
  | .step a, f :: below => if s.raising then none else stepFrame a f below s
  | _, _ => none

/-- Nothing is running, and no guard or lock is left from before. -/
def Init (s : Session) : Prop :=
  s.stack = [] ∧ s.disableErrorCapture = false ∧ s.holdsLock = false ∧ s.raising = false ∧
  s.localBatchCount = 0

def machine : Machine Session Label where
  Init := Init
  step := step

end Session

end PgStatCh
