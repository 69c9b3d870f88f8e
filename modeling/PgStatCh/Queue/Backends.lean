import PgStatCh.Queue.Shmem
import PgStatCh.Tla.Rules

/-!
# Queue.Backends — the producers: enqueue, local batch and flush

What runs in each backend (shmem.c, local_batch.c): `PschEnqueueEvent` with its
lock-free overflow check, its attempt on the queue lock and, when that is taken,
the local batch; `PschEnqueueBatch`, which flushes the batch when it is full, at
the end of a transaction and when the backend exits. `psch_enabled` and the debug
switch are settings of each process and may change at any time. The consumer and
the other users of the queue lock run beside them.

Left out: stats resets, and errors raised out of these functions.
-/

namespace PgStatCh

open Lib Tla

/-! ## A backend -/

/-- `PSCH_LOCAL_BATCH_CAPACITY`. -/
def pschLocalBatchCapacity : ℕ := 8

/-- Who asked for the flush, and what happens after it. -/
inductive Cont where
  /-- `PschLocalBatchAdd` found the batch full; it appends the event next -/
  | add (e : PschEvent)
  /-- `PschXactCallback` -/
  | xact
  /-- `PschLocalBatchShutdown` -/
  | shutdown

/-- A call of `PschEnqueueEvent`, or of `PschEnqueueBatch` with `count > 0`.
`before` is history: the process's increments before the call. -/
inductive Caller where
  | event (e : PschEvent) (before : Tally)
  | batch (e : PschEvent) (rest : List PschEvent) (k : Cont) (before : Tally)

namespace Caller

def first : Caller → PschEvent
  | event e _ => e
  | batch e _ _ _ => e

def rest : Caller → List PschEvent
  | event _ _ => []
  | batch _ rest _ _ => rest

/-- The number of events the call is about. -/
def count (c : Caller) : ℕ := c.rest.length + 1

def before : Caller → Tally
  | event _ before => before
  | batch _ _ _ before => before

end Caller

/-- Where a backend is. -/
inductive Pc where
  | idle
  | exited
  /-- `head = pg_atomic_read_u64(&psch_shared_state->head)`, without the lock -/
  | fastHead (c : Caller)
  /-- `tail = pg_atomic_read_u64(&psch_shared_state->tail)` and the check -/
  | fastTail (c : Caller) (head : UInt64)
  /-- `HandleOverflow()`, so many times still -/
  | fastOverflow (c : Caller) (left : ℕ)
  /-- `LWLockConditionalAcquire` for one event, `LWLockAcquire` for a batch -/
  | acquire (c : Caller)
  /-- about to call `TryEnqueueLocked(e)`; `n` events were enqueued so far -/
  | enqueue (c : Caller) (e : PschEvent) (rest : List PschEvent) (n : ℕ)
  /-- inside `TryEnqueueLocked` -/
  | trying (c : Caller) (rest : List PschEvent) (n : ℕ)
  /-- `LWLockRelease` -/
  | unlock (c : Caller) (n : ℕ)
  /-- `PschLocalBatchAdd(event)` -/
  | add (e : PschEvent)
  /-- `PschEnqueueEvent` returns; `before` unless the event was buffered -/
  | returnEvent (e : PschEvent) (ret : Bool) (before : Option Tally)
  /-- `PschEnqueueBatch` returns; was `psch_enabled` on? -/
  | returnBatch (k : Cont) (count ret : ℕ) (enabled : Bool) (before : Tally)

structure Backend where
  pschEnabled : Bool := true
  /-- `psch_debug_force_locked_overflow` -/
  forceLockedOverflow : Bool := false
  /-- the first `local_batch_count` entries of `local_batch` -/
  localBatch : List PschEvent := []
  pc : Pc := .idle
  /-- history: calls of `PschEnqueueEvent` that passed its guard -/
  calls : ℕ := 0
  /-- history: events that a flush threw away because `psch_enabled` was off -/
  discarded : ℕ := 0

/-- What the call returns after `n` events were enqueued. -/
def Caller.ret (n : ℕ) : Caller → Pc
  | event e before => .returnEvent e (decide (n = 1)) (some before)
  | batch _ rest k before => .returnBatch k (rest.length + 1) n true before

/-- On to the next event of the batch. -/
def Caller.next (c : Caller) (n : ℕ) : List PschEvent → Pc
  | [] => .unlock c n
  | e :: rest => .enqueue c e rest n

namespace Backend

/-- What follows a flush. -/
def resume (be : Backend) : Cont → Backend
  | .add e => { be with localBatch := be.localBatch ++ [e], pc := .returnEvent e true none }
  | .xact => { be with pc := .idle }
  | .shutdown => { be with pc := .exited }

/-- `PschLocalBatchFlush`, up to the fast path of `PschEnqueueBatch`. -/
def flush (be : Backend) (tally : Tally) (k : Cont) : Backend :=
  match be.localBatch with
  | [] => be.resume k
  | e :: rest =>
    if be.pschEnabled then
      { be with localBatch := [], pc := .fastHead (.batch e rest k tally) }
    else
      { be with localBatch := [], discarded := be.discarded + (rest.length + 1)
                pc := .returnBatch k (rest.length + 1) 0 false tally }

/-- `PschEnqueueEvent(e)`, up to its fast path. -/
def call (be : Backend) (tally : Tally) (e : PschEvent) : Backend :=
  if be.pschEnabled then
    { be with calls := be.calls + 1, pc := .fastHead (.event e tally) }
  else be

variable {cfg : Config}

/-- The backend's next step, on the shared memory as it is. -/
def step (b : cfg.Proc) (a : Answer) (sh : Shmem cfg) (be : Backend) :
    Option (Shmem cfg × Backend) :=
  match be.pc with
  | .idle => none
  | .exited => none
  | .fastHead c => some (sh, { be with pc := .fastTail c sh.head })
  | .fastTail c head =>
    if cfg.capacity.toUInt64 ≤ head - sh.tail then
      some (sh, { be with pc := .fastOverflow c c.count })
    else some (sh, { be with pc := .acquire c })
  | .fastOverflow c 0 => some (sh, { be with pc := c.ret 0 })
  | .fastOverflow c (left + 1) =>
    some (sh.handleOverflow b, { be with pc := .fastOverflow c left })
  | .acquire c =>
    match sh.acquire b with
    | some sh' => some (sh', { be with pc := .enqueue c c.first c.rest 0 })
    | none =>
      match c with
      | .event e _ => some (sh, { be with pc := .add e })
      | .batch .. => none
  | .enqueue c e rest n =>
    (sh.beginEnqueue b e).map fun sh' => (sh', { be with pc := .trying c rest n })
  | .trying c rest n =>
    (sh.tryStep b a be.forceLockedOverflow).map fun (sh', ret) =>
      match ret with
      | none => (sh', be)
      | some true => (sh', { be with pc := c.next (n + 1) rest })
      | some false => (sh', { be with pc := c.next n rest })
  | .unlock c n => (sh.release b).map fun sh' => (sh', { be with pc := c.ret n })
  | .add e =>
    if pschLocalBatchCapacity ≤ be.localBatch.length then
      some (sh, be.flush (sh.tally b) (.add e))
    else some (sh, be.resume (.add e))
  | .returnEvent _ _ _ => some (sh, { be with pc := .idle })
  | .returnBatch k _ _ _ _ => some (sh, be.resume k)

/-- What the next step of a backend can do. -/
inductive Step (b : cfg.Proc) (a : Answer) (sh : Shmem cfg) (be : Backend) :
    Shmem cfg → Backend → Prop where
  | fastHead (c : Caller) : be.pc = .fastHead c →
    Step b a sh be sh { be with pc := .fastTail c sh.head }
  | fastFull (c : Caller) (head : UInt64) : be.pc = .fastTail c head →
    cfg.capacity.toUInt64 ≤ head - sh.tail →
    Step b a sh be sh { be with pc := .fastOverflow c c.count }
  | fastRoom (c : Caller) (head : UInt64) : be.pc = .fastTail c head →
    ¬ cfg.capacity.toUInt64 ≤ head - sh.tail → Step b a sh be sh { be with pc := .acquire c }
  | fastDone (c : Caller) : be.pc = .fastOverflow c 0 →
    Step b a sh be sh { be with pc := c.ret 0 }
  | fastDrop (c : Caller) (left : ℕ) : be.pc = .fastOverflow c (left + 1) →
    Step b a sh be (sh.handleOverflow b) { be with pc := .fastOverflow c left }
  | acquired (c : Caller) (sh' : Shmem cfg) : be.pc = .acquire c → sh.acquire b = some sh' →
    Step b a sh be sh' { be with pc := .enqueue c c.first c.rest 0 }
  | contended (e : PschEvent) (before : Tally) : be.pc = .acquire (.event e before) →
    Step b a sh be sh { be with pc := .add e }
  | enqueue (c : Caller) (e : PschEvent) (rest : List PschEvent) (n : ℕ) (sh' : Shmem cfg) :
    be.pc = .enqueue c e rest n → sh.beginEnqueue b e = some sh' →
    Step b a sh be sh' { be with pc := .trying c rest n }
  | inside (c : Caller) (rest : List PschEvent) (n : ℕ) (sh' : Shmem cfg) :
    be.pc = .trying c rest n → sh.tryStep b a be.forceLockedOverflow = some (sh', none) →
    Step b a sh be sh' be
  | enqueued (c : Caller) (rest : List PschEvent) (n : ℕ) (sh' : Shmem cfg) :
    be.pc = .trying c rest n → sh.tryStep b a be.forceLockedOverflow = some (sh', some true) →
    Step b a sh be sh' { be with pc := c.next (n + 1) rest }
  | dropped (c : Caller) (rest : List PschEvent) (n : ℕ) (sh' : Shmem cfg) :
    be.pc = .trying c rest n → sh.tryStep b a be.forceLockedOverflow = some (sh', some false) →
    Step b a sh be sh' { be with pc := c.next n rest }
  | unlock (c : Caller) (n : ℕ) (sh' : Shmem cfg) : be.pc = .unlock c n →
    sh.release b = some sh' → Step b a sh be sh' { be with pc := c.ret n }
  | addFull (e : PschEvent) : be.pc = .add e →
    Step b a sh be sh (be.flush (sh.tally b) (.add e))
  | addRoom (e : PschEvent) : be.pc = .add e → be.localBatch.length < pschLocalBatchCapacity →
    Step b a sh be sh (be.resume (.add e))
  | returnEvent (e : PschEvent) (ret : Bool) (before : Option Tally) :
    be.pc = .returnEvent e ret before → Step b a sh be sh { be with pc := .idle }
  | returnBatch (k : Cont) (count ret : ℕ) (enabled : Bool) (before : Tally) :
    be.pc = .returnBatch k count ret enabled before → Step b a sh be sh (be.resume k)

theorem step_cases {b : cfg.Proc} {a : Answer} {sh sh' : Shmem cfg} {be be' : Backend}
    (h : be.step b a sh = some (sh', be')) : Step b a sh be sh' be' := by
  unfold step at h
  split at h
  · cases h
  · cases h
  · next c hb =>
    cases h
    exact .fastHead c hb
  · next c head hb =>
    split at h
    · next hfull =>
      cases h
      exact .fastFull c head hb hfull
    · next hroom =>
      cases h
      exact .fastRoom c head hb hroom
  · next c hb =>
    cases h
    exact .fastDone c hb
  · next c left hb =>
    cases h
    exact .fastDrop c left hb
  · next c hb =>
    split at h
    · next sh₁ hacquire =>
      cases h
      exact .acquired c sh' hb hacquire
    · split at h
      · cases h
        exact .contended _ _ hb
      · cases h
  · next c e rest n hb =>
    simp only [Option.map_eq_some_iff, Prod.mk.injEq] at h
    obtain ⟨sh₁, hbegin, rfl, rfl⟩ := h
    exact .enqueue c e rest n sh₁ hb hbegin
  · next c rest n hb =>
    simp only [Option.map_eq_some_iff, Prod.exists] at h
    obtain ⟨sh₁, ret, htry, h⟩ := h
    split at h
    · cases h
      exact .inside c rest n sh' hb htry
    · cases h
      exact .enqueued c rest n sh' hb htry
    · cases h
      exact .dropped c rest n sh' hb htry
  · next c n hb =>
    simp only [Option.map_eq_some_iff, Prod.mk.injEq] at h
    obtain ⟨sh₁, hrelease, rfl, rfl⟩ := h
    exact .unlock c n sh₁ hb hrelease
  · next e hb =>
    split at h
    · cases h
      exact .addFull e hb
    · next hroom =>
      cases h
      exact .addRoom e hb (Nat.not_le.mp hroom)
  · next e ret before hb =>
    cases h
    exact .returnEvent e ret before hb
  · next k count ret enabled before hb =>
    cases h
    exact .returnBatch k count ret enabled before hb

end Backend

/-! ## All of them together -/

structure Queue (cfg : Config) where
  shmem : Shmem cfg
  backends : cfg.Proc → Backend := fun _ => {}

namespace Queue

variable {cfg : Config}

inductive Label (cfg : Config) where
  /-- a hook calls `PschEnqueueEvent` -/
  | call (b : cfg.Proc) (e : PschEvent)
  /-- a transaction ends -/
  | xactEnd (b : cfg.Proc)
  /-- the backend exits -/
  | exit (b : cfg.Proc)
  /-- a new backend starts in the place of one that exited -/
  | start (b : cfg.Proc) (enabled force : Bool)
  | setEnabled (b : cfg.Proc) (value : Bool)
  | setForce (b : cfg.Proc) (value : Bool)
  | step (b : cfg.Proc) (a : Answer)
  /-- the other users of the queue lock -/
  | acquireOther
  | releaseOther
  /-- the consumer -/
  | beginDequeue (buf : PschEvent)
  | dequeueStep

/-- Is this a step of `PschDequeueEvent`? -/
def Label.isDequeue : Label cfg → Bool
  | .beginDequeue _ => true
  | .dequeueStep => true
  | _ => false

def setBackend (s : Queue cfg) (b : cfg.Proc) (be : Backend) : Queue cfg :=
  { s with backends := Function.update s.backends b be }

/-- A step of the shared memory that no backend makes. -/
def shared (s : Queue cfg) (l : Shmem.Label cfg) : Option (Queue cfg) :=
  (Shmem.step l s.shmem).map fun sh' => { s with shmem := sh' }

def step : Label cfg → Queue cfg → Option (Queue cfg)
  | .call b e, s =>
    match (s.backends b).pc with
    | .idle => some (s.setBackend b ((s.backends b).call (s.shmem.tally b) e))
    | _ => none
  | .xactEnd b, s =>
    match (s.backends b).pc with
    | .idle => some (s.setBackend b ((s.backends b).flush (s.shmem.tally b) .xact))
    | _ => none
  | .exit b, s =>
    match (s.backends b).pc with
    | .idle => some (s.setBackend b ((s.backends b).flush (s.shmem.tally b) .shutdown))
    | _ => none
  | .start b enabled force, s =>
    match (s.backends b).pc with
    | .exited => some (s.setBackend b
        { s.backends b with pschEnabled := enabled, forceLockedOverflow := force,
                            localBatch := [], pc := .idle })
    | _ => none
  | .setEnabled b value, s => some (s.setBackend b { s.backends b with pschEnabled := value })
  | .setForce b value, s => some (s.setBackend b { s.backends b with forceLockedOverflow := value })
  | .step b a, s =>
    ((s.backends b).step b a s.shmem).map fun (sh', be') =>
      { s.setBackend b be' with shmem := sh' }
  | .acquireOther, s => s.shared .acquireOther
  | .releaseOther, s => s.shared .releaseOther
  | .beginDequeue buf, s => s.shared (.beginDequeue buf)
  | .dequeueStep, s => s.shared .dequeueStep

/-- The step of the shared memory behind a label that no backend makes. -/
def Label.shared : Label cfg → Option (Shmem.Label cfg)
  | .acquireOther => some .acquireOther
  | .releaseOther => some .releaseOther
  | .beginDequeue buf => some (.beginDequeue buf)
  | .dequeueStep => some .dequeueStep
  | _ => none

/-- What a step of the queue can do. -/
inductive Step (s : Queue cfg) : Label cfg → Queue cfg → Prop where
  | call (b : cfg.Proc) (e : PschEvent) : (s.backends b).pc = .idle →
    Step s (.call b e) (s.setBackend b ((s.backends b).call (s.shmem.tally b) e))
  | xactEnd (b : cfg.Proc) : (s.backends b).pc = .idle →
    Step s (.xactEnd b) (s.setBackend b ((s.backends b).flush (s.shmem.tally b) .xact))
  | exit (b : cfg.Proc) : (s.backends b).pc = .idle →
    Step s (.exit b) (s.setBackend b ((s.backends b).flush (s.shmem.tally b) .shutdown))
  | start (b : cfg.Proc) (enabled force : Bool) : (s.backends b).pc = .exited →
    Step s (.start b enabled force) (s.setBackend b
      { s.backends b with pschEnabled := enabled, forceLockedOverflow := force,
                          localBatch := [], pc := .idle })
  | setEnabled (b : cfg.Proc) (value : Bool) :
    Step s (.setEnabled b value) (s.setBackend b { s.backends b with pschEnabled := value })
  | setForce (b : cfg.Proc) (value : Bool) :
    Step s (.setForce b value) (s.setBackend b { s.backends b with forceLockedOverflow := value })
  | step (b : cfg.Proc) (a : Answer) (sh' : Shmem cfg) (be' : Backend) :
    Backend.Step b a s.shmem (s.backends b) sh' be' →
    Step s (.step b a) { s.setBackend b be' with shmem := sh' }
  | shared (l : Label cfg) (l' : Shmem.Label cfg) (sh' : Shmem cfg) : l.shared = some l' →
    Shmem.step l' s.shmem = some sh' → Step s l { s with shmem := sh' }

theorem step_cases {l : Label cfg} {s s' : Queue cfg} (h : step l s = some s') : Step s l s' := by
  cases l with
  | call b e =>
    simp only [step] at h
    split at h
    · next hidle =>
      cases h
      exact .call b e hidle
    · cases h
  | xactEnd b =>
    simp only [step] at h
    split at h
    · next hidle =>
      cases h
      exact .xactEnd b hidle
    · cases h
  | exit b =>
    simp only [step] at h
    split at h
    · next hidle =>
      cases h
      exact .exit b hidle
    · cases h
  | start b enabled force =>
    simp only [step] at h
    split at h
    · next hexited =>
      cases h
      exact .start b enabled force hexited
    · cases h
  | setEnabled b value =>
    cases h
    exact .setEnabled b value
  | setForce b value =>
    cases h
    exact .setForce b value
  | step b a =>
    simp only [step, Option.map_eq_some_iff, Prod.exists] at h
    obtain ⟨sh', be', hbe, rfl⟩ := h
    exact .step b a sh' be' (Backend.step_cases hbe)
  | acquireOther | releaseOther | beginDequeue buf | dequeueStep =>
    simp only [step, shared, Option.map_eq_some_iff] at h
    obtain ⟨sh', hsh, rfl⟩ := h
    exact .shared _ _ sh' rfl hsh

/-- The ring is empty and every backend idle, with any settings. -/
def Init (s : Queue cfg) : Prop :=
  Shmem.Init s.shmem ∧
  ∀ b, ∃ enabled force, s.backends b = { pschEnabled := enabled, forceLockedOverflow := force }

def machine (cfg : Config) : Machine (Queue cfg) (Label cfg) where
  Init := Init
  step := step

end Queue

end PgStatCh
