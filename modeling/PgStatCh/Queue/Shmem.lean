import PgStatCh.Lib.Ring
import PgStatCh.Tla.Core
import PgStatCh.Queue.Slot

/-!
# Queue.Shmem — the shared ring buffer

The shared memory of shmem.c and the two functions that move events through it:
`TryEnqueueLocked`, which a producer runs while it holds the queue lock, and
`PschDequeueEvent`, which the single consumer runs without any lock. A step is
one access to `head`, `tail`, a counter, the lock, the slot or the string area;
steps of different processes interleave freely. `head` and `tail` are `uint64`
and wrap; they may start anywhere.

When a producer takes the lock and what it enqueues is up to its callers, which
are in `Backends`.
-/

namespace PgStatCh

open Lib Tla

/-! ## The state -/

/-- Who holds the queue lock: a producer, or `PschGetStats`, `PschResetStats` or
one of the `PschRecordExport*` functions, which do not touch the ring. -/
inductive Holder (cfg : Config) where
  | producer (b : cfg.Proc)
  | other

/-- A producer, as far as the ring is concerned. -/
inductive Phase where
  /-- not holding the lock -/
  | out
  /-- holding it, between two calls of `TryEnqueueLocked` -/
  | locked
  /-- `head = pg_atomic_read_u64(&psch_shared_state->head)` -/
  | readHead (e : PschEvent)
  /-- `tail = pg_atomic_read_u64(&psch_shared_state->tail)` and the check -/
  | readTail (e : PschEvent) (head : UInt64)
  /-- `HandleOverflow(); return false` -/
  | overflow
  /-- fill the slot, then store `head + 1` -/
  | build (e : PschEvent) (head : UInt64) (pc : BuildPc)
  /-- `pg_atomic_fetch_add_u64(&psch_shared_state->enqueued, 1); return true` -/
  | bump

/-- The consumer. -/
inductive Worker where
  | idle
  /-- `head` is read, `tail` not yet -/
  | readTail (buf : PschEvent) (head : UInt64)
  /-- reading the slot at `tail`, then storing `tail + 1` -/
  | reading (tail : UInt64) (out : PschEvent) (pc : ConsumePc)

/-- How often a process has incremented `enqueued` and `dropped`. -/
structure Tally where
  enqueued : ℕ := 0
  dropped : ℕ := 0
deriving DecidableEq

structure Shmem (cfg : Config) where
  head : UInt64
  tail : UInt64
  enqueued : UInt64 := 0
  dropped : UInt64 := 0
  overflowLogged : Bool := false
  lock : Option (Holder cfg) := none
  /-- `GetRingBuffer()` -/
  slots : UInt64 → PschRingEntry
  mem : Mem := {}
  phase : cfg.Proc → Phase := fun _ => .out
  worker : Worker := .idle
  /-- history: where `head` and `tail` started -/
  start : UInt64
  /-- history: the events `head` was advanced over -/
  published : List Published := []
  /-- history: the events `PschDequeueEvent` returned -/
  returned : List PschEvent := []
  /-- history: each process's increments of the counters -/
  tally : cfg.Proc → Tally := fun _ => {}

namespace Shmem

variable {cfg : Config}

/-- The slot for a position. -/
def slotAt (s : Shmem cfg) (p : UInt64) : PschRingEntry := s.slots (slotIndex cfg.capacity p)

def setPhase (s : Shmem cfg) (b : cfg.Proc) (ph : Phase) : Shmem cfg :=
  { s with phase := Function.update s.phase b ph }

/-! ## The producers -/

/-- `LWLockAcquire(psch_shared_state->lock, LW_EXCLUSIVE)`. -/
def acquire (s : Shmem cfg) (b : cfg.Proc) : Option (Shmem cfg) :=
  match s.phase b, s.lock with
  | .out, none => some { s.setPhase b .locked with lock := some (.producer b) }
  | _, _ => none

/-- `LWLockRelease(psch_shared_state->lock)`. -/
def release (s : Shmem cfg) (b : cfg.Proc) : Option (Shmem cfg) :=
  match s.phase b with
  | .locked => some { s.setPhase b .out with lock := none }
  | _ => none

/-- `HandleOverflow`. The flag keeps the warning from being logged twice; nothing
else reads it. -/
def handleOverflow (s : Shmem cfg) (b : cfg.Proc) : Shmem cfg :=
  { s with
    dropped := s.dropped + 1
    overflowLogged := true
    tally := Function.update s.tally b
      { s.tally b with dropped := (s.tally b).dropped + 1 } }

/-- Call `TryEnqueueLocked`. -/
def beginEnqueue (s : Shmem cfg) (b : cfg.Proc) (e : PschEvent) : Option (Shmem cfg) :=
  match s.phase b with
  | .locked => some (s.setPhase b (.readHead e))
  | _ => none

/-- One step of `TryEnqueueLocked`, with the value it returns when it does.
`force` is `psch_debug_force_locked_overflow`. -/
def tryStep (s : Shmem cfg) (b : cfg.Proc) (a : Answer) (force : Bool) :
    Option (Shmem cfg × Option Bool) :=
  match s.phase b with
  | .out => none
  | .locked => none
  | .readHead e => some (s.setPhase b (.readTail e s.head), none)
  | .readTail e head =>
    if cfg.capacity.toUInt64 ≤ head - s.tail ∨ force then some (s.setPhase b .overflow, none)
    else some (s.setPhase b (.build e head .copyPrefix), none)
  | .overflow => some ((s.handleOverflow b).setPhase b .locked, some false)
  | .build e head (.ready errBlock met) =>
    some ({ s.setPhase b .bump with
              head := head + 1
              published := s.published ++ [⟨e, s.slotAt head, errBlock, met⟩] }, none)
  | .build e head pc =>
    (buildStep cfg e a s.mem (s.slotAt head) pc).map fun (m', slot', pc') =>
      ({ s.setPhase b (.build e head pc') with
           mem := m'
           slots := Function.update s.slots (slotIndex cfg.capacity head) slot' }, none)
  | .bump =>
    some ({ s.setPhase b .locked with
              enqueued := s.enqueued + 1
              tally := Function.update s.tally b
                { s.tally b with enqueued := (s.tally b).enqueued + 1 } }, some true)

/-! ## The consumer -/

/-- Call `PschDequeueEvent` with a buffer; it reads `head` first. -/
def beginDequeue (s : Shmem cfg) (buf : PschEvent) : Option (Shmem cfg) :=
  match s.worker with
  | .idle => some { s with worker := .readTail buf s.head }
  | _ => none

/-- One further step of `PschDequeueEvent`. -/
def dequeueStep (s : Shmem cfg) : Option (Shmem cfg) :=
  match s.worker with
  | .idle => none
  | .readTail buf head =>
    if head = s.tail then some { s with worker := .idle }
    else some { s with worker := .reading s.tail buf .copyPrefix }
  | .reading tail out (.release .done) =>
    some { s with tail := tail + 1, worker := .idle, returned := s.returned ++ [out] }
  | .reading tail out pc =>
    (consumeStep s.mem (s.slotAt tail) out pc).map fun (m', out', pc') =>
      { s with mem := m', worker := .reading tail out' pc' }

/-! ## The machine -/

inductive Label (cfg : Config) where
  | acquire (b : cfg.Proc)
  | release (b : cfg.Proc)
  | acquireOther
  | releaseOther
  | beginEnqueue (b : cfg.Proc) (e : PschEvent)
  | tryStep (b : cfg.Proc) (a : Answer) (force : Bool)
  /-- `HandleOverflow` on the lock-free path -/
  | handleOverflow (b : cfg.Proc)
  | beginDequeue (buf : PschEvent)
  | dequeueStep

/-- Is this a step of `PschDequeueEvent`? -/
def Label.isDequeue : Label cfg → Bool
  | .beginDequeue _ => true
  | .dequeueStep => true
  | _ => false

def step : Label cfg → Shmem cfg → Option (Shmem cfg)
  | .acquire b, s => s.acquire b
  | .release b, s => s.release b
  | .acquireOther, s =>
    match s.lock with
    | none => some { s with lock := some .other }
    | some _ => none
  | .releaseOther, s =>
    match s.lock with
    | some .other => some { s with lock := none }
    | _ => none
  | .beginEnqueue b e, s => s.beginEnqueue b e
  | .tryStep b a force, s => (s.tryStep b a force).map Prod.fst
  | .handleOverflow b, s => some (s.handleOverflow b)
  | .beginDequeue buf, s => s.beginDequeue buf
  | .dequeueStep, s => s.dequeueStep

/-- `head = tail` anywhere, slots with any contents, nothing enqueued yet. -/
def Init (s : Shmem cfg) : Prop :=
  ∃ start slots, s = { head := start, tail := start, start := start, slots := slots }

def machine (cfg : Config) : Machine (Shmem cfg) (Label cfg) where
  Init := Init
  step := step

end Shmem

end PgStatCh
