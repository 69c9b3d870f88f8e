import PgStatCh.Queue.Backends

/-!
# Queue.Attach — attaching to the string area, and leaving it at exit

`PschDsaGetArea` attaches a process to the DSA area the first time it needs it, and
`PschDsaAttach` registers `PschDsaDetachOnExit`, which releases the reference again
(psch_dsa.c). `PschLocalBatchAdd` registers `PschLocalBatchShutdown`, which flushes what is
still buffered (local_batch.c). Which of the two callbacks is registered first depends on
whether the first enqueue was contended; exit callbacks run last-registered-first, and those
registered while they run are run too.

The machine here runs the processes of `Backends` with these variables beside them. What can
happen to the variables of one process is `Process.Step`, and what that keeps is `Process.Ok`;
`AttachInv` has the runs of all of them together.

Left out: errors raised out of an exit callback, and log entries that are captured after
`PschLocalBatchShutdown` has run. `psch_shared_state->raw_dsa_area` is set before the first
process starts.
-/

namespace PgStatCh

open Lib Tla

/-! ## One process -/

/-- The callbacks of `on_shmem_exit`. -/
inductive ExitCallback where
  | pschDsaDetachOnExit
  | pschLocalBatchShutdown
deriving DecidableEq

/-- What a process does to the reference count of the area. -/
inductive AreaOp where
  | attach
  | release
deriving DecidableEq

/-- The static variables of psch_dsa.c and local_batch.c in one process. -/
structure Process where
  /-- `psch_dsa != NULL` -/
  pschDsa : Bool := false
  /-- `psch_dsa_exit_hook_registered` -/
  exitHookRegistered : Bool := false
  /-- `local_batch_initialized` -/
  localBatchInitialized : Bool := false
  /-- `on_shmem_exit_list`, the last one registered first -/
  onShmemExit : List ExitCallback := []
  /-- inside `shmem_exit` -/
  exiting : Bool := false
  /-- the process is gone -/
  ended : Bool := false
  /-- history -/
  ops : List AreaOp := []

namespace Process

/-- `PschDsaAttach`, not attached yet. -/
def attach (p : Process) : Process :=
  { p with
    pschDsa := true
    exitHookRegistered := true
    onShmemExit :=
      if p.exitHookRegistered then p.onShmemExit else .pschDsaDetachOnExit :: p.onShmemExit
    ops := p.ops ++ [.attach] }

/-- `PschDsaDetachOnExit`: the handle is dropped if there is one, the reference always. -/
def pschDsaDetachOnExit (p : Process) : Process :=
  { p with pschDsa := false, exitHookRegistered := false, ops := p.ops ++ [.release] }

/-- `PschLocalBatchInit`, on the first `PschLocalBatchAdd`. -/
def pschLocalBatchInit (p : Process) : Process :=
  if p.localBatchInitialized then p
  else
    { p with
      localBatchInitialized := true
      onShmemExit := .pschLocalBatchShutdown :: p.onShmemExit }

/-- What can happen to the variables of a process, with what it adds to the reference count. -/
inductive Step (p : Process) : ℤ → Process → Prop where
  | stay : Step p 0 p
  | attach : p.pschDsa = false → p.ended = false → Step p 1 p.attach
  | init : p.ended = false → Step p 0 p.pschLocalBatchInit
  | beginExit : Step p 0 { p with exiting := true }
  | detach (rest : List ExitCallback) : p.onShmemExit = .pschDsaDetachOnExit :: rest →
    Step p (-1) { p with onShmemExit := rest }.pschDsaDetachOnExit
  | shutdown (rest : List ExitCallback) : p.onShmemExit = .pschLocalBatchShutdown :: rest →
    Step p 0 { p with onShmemExit := rest }
  | finish : p.onShmemExit = [] → Step p 0 { p with ended := true }
  | fresh : p.ended = true → Step p 0 {}

/-- The references a process has on the area. -/
def users (p : Process) : ℤ := if p.pschDsa then 1 else 0

/-- `n` times attached and released again. -/
def rounds (n : ℕ) : List AreaOp := (List.replicate n [AreaOp.attach, AreaOp.release]).flatten

/-- The detach callback is pending exactly while the process is attached. -/
structure Ok (p : Process) : Prop where
  hook : p.exitHookRegistered = p.pschDsa
  pending : p.onShmemExit.count .pschDsaDetachOnExit = if p.pschDsa then 1 else 0
  ops : ∃ n, p.ops = rounds n ++ if p.pschDsa then [.attach] else []
  ended : p.ended = true → p.onShmemExit = []

theorem rounds_succ (n : ℕ) : rounds (n + 1) = rounds n ++ [.attach, .release] := by
  rw [rounds, List.replicate_succ', List.flatten_append]
  rfl

variable {p p' : Process} {d : ℤ}

theorem ok_fresh : Ok {} := ⟨rfl, rfl, ⟨0, rfl⟩, fun h => by cases h⟩

/-- While its callback is pending the process is attached. -/
theorem Ok.attached (hok : Ok p) (hmem : .pschDsaDetachOnExit ∈ p.onShmemExit) :
    p.pschDsa = true := by
  have hpos := List.count_pos_iff.mpr hmem
  rw [hok.pending] at hpos
  by_contra hno
  rw [if_neg hno] at hpos
  exact Nat.lt_irrefl 0 hpos

/-- A process that has ended is detached. -/
theorem Ok.detached (hok : Ok p) (hended : p.ended = true) : p.pschDsa = false := by
  have hpending := hok.pending
  rw [hok.ended hended] at hpending
  by_contra hattached
  rw [Bool.not_eq_false] at hattached
  rw [if_pos hattached] at hpending
  cases hpending

theorem Step.ok (h : Step p d p') (hok : Ok p) : Ok p' := by
  cases h with
  | stay => exact hok
  | attach hdetached hrunning =>
    have hhook : p.exitHookRegistered = false := hok.hook.trans hdetached
    have hnone := hok.pending
    obtain ⟨n, hops⟩ := hok.ops
    rw [hdetached] at hnone hops
    refine ⟨rfl, ?_, ⟨n, ?_⟩, ?_⟩
    · simpa [Process.attach, hhook] using hnone
    · simpa [Process.attach] using hops
    · intro hended
      rw [show p.attach.ended = p.ended from rfl, hrunning] at hended
      cases hended
  | init hrunning =>
    unfold pschLocalBatchInit
    split
    · exact hok
    · refine ⟨hok.hook, ?_, hok.ops, ?_⟩
      · simpa using hok.pending
      · intro hended
        rw [hrunning] at hended
        cases hended
  | beginExit => exact ⟨hok.hook, hok.pending, hok.ops, hok.ended⟩
  | detach rest hlist =>
    have hattached : p.pschDsa = true := hok.attached (hlist ▸ List.mem_cons_self)
    have hpending := hok.pending
    rw [hlist, List.count_cons_self] at hpending
    rw [if_pos hattached] at hpending
    obtain ⟨n, hops⟩ := hok.ops
    rw [if_pos hattached] at hops
    refine ⟨rfl, Nat.succ.inj hpending, ⟨n + 1, ?_⟩, ?_⟩
    · simp [pschDsaDetachOnExit, hops, rounds_succ]
    · intro hended
      have hempty := hok.ended hended
      rw [hlist] at hempty
      cases hempty
  | shutdown rest hlist =>
    refine ⟨hok.hook, ?_, hok.ops, ?_⟩
    · have hpending := hok.pending
      rw [hlist] at hpending
      simpa using hpending
    · intro hended
      have hempty := hok.ended hended
      rw [hlist] at hempty
      cases hempty
  | finish hlist => exact ⟨hok.hook, hok.pending, hok.ops, fun _ => hlist⟩
  | fresh hended => exact ok_fresh

/-- The count follows the references. -/
theorem Step.users (h : Step p d p') (hok : Ok p) : p'.users = p.users + d := by
  cases h with
  | stay => exact (add_zero _).symm
  | attach hdetached _ => simp [Process.users, Process.attach, hdetached]
  | init _ =>
    unfold pschLocalBatchInit
    split <;> simp [Process.users]
  | beginExit => exact (add_zero _).symm
  | detach rest hlist =>
    have hattached : p.pschDsa = true := hok.attached (hlist ▸ List.mem_cons_self)
    simp [Process.users, pschDsaDetachOnExit, hattached]
  | shutdown rest hlist => exact (add_zero _).symm
  | finish hlist => exact (add_zero _).symm
  | fresh hended => simp [Process.users, hok.detached hended]

end Process

/-! ## Where the area is used -/

/-- Does the next step of `TryEnqueueLocked` call `PschDsaGetArea`? -/
def Phase.getsArea : Phase → Bool
  | .build e _ .allocErr => decide (0 < e.errMessageLen)
  | .build _ _ (.acquire _ _ .lookup) => true
  | _ => false

/-- Is it between `PschDsaGetArea` and the last use of what that returned? -/
def Phase.hasArea : Phase → Bool
  | .build _ _ (.acquire _ _ .lookup) => false
  | .build _ _ (.acquire _ _ _) => true
  | _ => false

/-- Does the next step of `PschDequeueEvent` on this slot call `PschDsaGetArea`? -/
def Worker.getsArea (slot : PschRingEntry) : Worker → Bool
  | .reading _ _ .resolveErr => decide (slot.errMessageDsa ≠ invalidDsaPointer)
  | .reading _ _ .resolveQuery => decide (slot.queryDsa ≠ invalidDsaPointer)
  | .reading _ _ (.release .read) => decide (slot.queryDsa ≠ invalidDsaPointer)
  | _ => false

def Worker.hasArea : Worker → Bool
  | .reading _ _ .freeErr => true
  | .reading _ _ (.release (.drop _)) => true
  | .reading _ _ (.release (.free _)) => true
  | _ => false

/-- The slot that the consumer reads. -/
def Shmem.readSlot {cfg : Config} (s : Shmem cfg) : PschRingEntry :=
  match s.worker with
  | .reading tail _ _ => s.slotAt tail
  | _ => s.slotAt s.tail

/-- Between two calls, or gone. -/
def Pc.quiet : Pc → Bool
  | .idle => true
  | .exited => true
  | _ => false

/-! ## The machine -/

/-- The queue, the reference count of the area, and the variables of every process; `none` is
the background worker. -/
structure Area (cfg : Config) where
  queue : Queue cfg
  refcnt : ℤ
  procs : Option cfg.Proc → Process := fun _ => {}

namespace Area

variable {cfg : Config}

inductive Label (cfg : Config) where
  /-- a step of the queue, other than the end of a process and the start of one -/
  | queue (l : Queue.Label cfg)
  /-- `PschDsaAttach()` in the worker's main function -/
  | attachWorker
  /-- `shmem_exit` -/
  | beginExit (p : Option cfg.Proc)
  /-- its next callback -/
  | runCallback (p : Option cfg.Proc)
  /-- no callback is left -/
  | endExit (p : Option cfg.Proc)
  | start (b : cfg.Proc) (enabled force : Bool)
  | startWorker

def setProc (s : Area cfg) (p : Option cfg.Proc) (x : Process) : Area cfg :=
  { s with procs := Function.update s.procs p x }

/-- `PschDsaAttach`. -/
def pschDsaAttach (s : Area cfg) (p : Option cfg.Proc) : Area cfg :=
  if (s.procs p).pschDsa then s
  else { s.setProc p (s.procs p).attach with refcnt := s.refcnt + 1 }

/-- `PschDsaGetArea`. -/
def pschDsaGetArea (s : Area cfg) (p : Option cfg.Proc) : Area cfg :=
  if (s.procs p).pschDsa then s else s.pschDsaAttach p

/-- Is the process outside all functions of the queue? -/
def quiet (s : Area cfg) : Option cfg.Proc → Bool
  | some b => (s.queue.backends b).pc.quiet
  | none =>
    match s.queue.shmem.worker with
    | .idle => true
    | _ => false

/-- May the queue make this step here? The worker dequeues nothing while it exits. -/
def allows (s : Area cfg) : Queue.Label cfg → Bool
  | .exit _ => false
  | .start _ _ _ => false
  | .beginDequeue _ => !(s.procs none).exiting
  | _ => true

/-- What the next step of a backend does to its variables. -/
def backendEffect (s : Area cfg) (b : cfg.Proc) : Area cfg :=
  match (s.queue.backends b).pc with
  | .add _ => s.setProc (some b) (s.procs (some b)).pschLocalBatchInit
  | _ => if (s.queue.shmem.phase b).getsArea then s.pschDsaGetArea (some b) else s

/-- What the next step of the consumer does to the variables of the worker. -/
def workerEffect (s : Area cfg) : Area cfg :=
  if s.queue.shmem.worker.getsArea s.queue.shmem.readSlot then s.pschDsaGetArea none else s

/-- What a step of the queue does to the variables of the process that makes it. -/
def effect (s : Area cfg) : Queue.Label cfg → Area cfg
  | .step b _ => s.backendEffect b
  | .dequeueStep => s.workerEffect
  | _ => s

/-- The next callback of `on_shmem_exit_list`, which is taken off the list first. -/
def runCallback (s : Area cfg) (p : Option cfg.Proc) : Option (Area cfg) :=
  match (s.procs p).onShmemExit with
  | [] => none
  | .pschDsaDetachOnExit :: rest =>
    some { s.setProc p { s.procs p with onShmemExit := rest }.pschDsaDetachOnExit with
           refcnt := s.refcnt - 1 }
  | .pschLocalBatchShutdown :: rest =>
    match p with
    | some b =>
      (Queue.step (.exit b) s.queue).map fun q =>
        { s.setProc p { s.procs p with onShmemExit := rest } with queue := q }
    | none => none

/-- The process is gone. What it still had in its batch nobody will look at again. -/
def endExit (s : Area cfg) (p : Option cfg.Proc) : Area cfg :=
  let s' := s.setProc p { s.procs p with ended := true }
  match p with
  | none => s'
  | some b => { s' with queue := s.queue.setBackend b { s.queue.backends b with pc := .exited } }

def step : Label cfg → Area cfg → Option (Area cfg)
  | .queue l, s =>
    if s.allows l then (Queue.step l s.queue).map fun q => { s.effect l with queue := q }
    else none
  | .attachWorker, s => if (s.procs none).exiting then none else some (s.pschDsaAttach none)
  | .beginExit p, s =>
    if s.quiet p && !(s.procs p).exiting then
      some (s.setProc p { s.procs p with exiting := true })
    else none
  | .runCallback p, s => if s.quiet p && (s.procs p).exiting then s.runCallback p else none
  | .endExit p, s =>
    if s.quiet p && (s.procs p).exiting && (s.procs p).onShmemExit.isEmpty then some (s.endExit p)
    else none
  | .start b enabled force, s =>
    if (s.procs (some b)).ended then
      (Queue.step (.start b enabled force) s.queue).map fun q =>
        { s.setProc (some b) {} with queue := q }
    else none
  | .startWorker, s => if (s.procs none).ended then some (s.setProc none {}) else none

/-- What `dsa_create_in_place` and `dsa_pin` count. -/
def pinnedRefs : ℤ := 2

/-- `PschDsaInit` has run and nobody has attached yet. -/
def Init (s : Area cfg) : Prop :=
  Queue.Init s.queue ∧ s.refcnt = pinnedRefs ∧ s.procs = fun _ => {}

def machine (cfg : Config) : Machine (Area cfg) (Label cfg) where
  Init := Init
  step := step

/-- What a step can do. -/
inductive Step (s : Area cfg) : Label cfg → Area cfg → Prop where
  | queue (l : Queue.Label cfg) (q : Queue cfg) : s.allows l = true →
    Queue.step l s.queue = some q → Step s (.queue l) { s.effect l with queue := q }
  | attachWorker : (s.procs none).exiting = false → Step s .attachWorker (s.pschDsaAttach none)
  | beginExit (p : Option cfg.Proc) : s.quiet p = true →
    Step s (.beginExit p) (s.setProc p { s.procs p with exiting := true })
  | detach (p : Option cfg.Proc) (rest : List ExitCallback) : s.quiet p = true →
    (s.procs p).onShmemExit = .pschDsaDetachOnExit :: rest →
    Step s (.runCallback p)
      { s.setProc p { s.procs p with onShmemExit := rest }.pschDsaDetachOnExit with
        refcnt := s.refcnt - 1 }
  | shutdown (b : cfg.Proc) (rest : List ExitCallback) (q : Queue cfg) :
    (s.procs (some b)).onShmemExit = .pschLocalBatchShutdown :: rest →
    Queue.step (.exit b) s.queue = some q →
    Step s (.runCallback (some b))
      { s.setProc (some b) { s.procs (some b) with onShmemExit := rest } with queue := q }
  | endExit (p : Option cfg.Proc) : s.quiet p = true → (s.procs p).exiting = true →
    (s.procs p).onShmemExit = [] → Step s (.endExit p) (s.endExit p)
  | start (b : cfg.Proc) (enabled force : Bool) (q : Queue cfg) :
    (s.procs (some b)).ended = true → Queue.step (.start b enabled force) s.queue = some q →
    Step s (.start b enabled force) { s.setProc (some b) {} with queue := q }
  | startWorker : (s.procs none).ended = true → Step s .startWorker (s.setProc none {})

theorem step_cases {l : Label cfg} {s s' : Area cfg} (h : step l s = some s') : Step s l s' := by
  cases l with
  | queue l =>
    simp only [step] at h
    split at h
    · next hallows =>
      obtain ⟨q, hq, rfl⟩ := Option.map_eq_some_iff.mp h
      exact .queue l q hallows hq
    · cases h
  | attachWorker =>
    simp only [step] at h
    split at h
    · cases h
    · next hexiting =>
      cases h
      exact .attachWorker (Bool.eq_false_iff.mpr hexiting)
  | beginExit p =>
    simp only [step, Bool.and_eq_true] at h
    split at h
    · next hquiet =>
      cases h
      exact .beginExit p hquiet.1
    · cases h
  | runCallback p =>
    simp only [step, Bool.and_eq_true] at h
    split at h
    · next hquiet =>
      unfold Area.runCallback at h
      split at h
      · cases h
      · next rest hlist =>
        cases h
        exact .detach p rest hquiet.1 hlist
      · next rest hlist =>
        split at h
        · next b =>
          obtain ⟨q, hq, rfl⟩ := Option.map_eq_some_iff.mp h
          exact .shutdown b rest q hlist hq
        · cases h
    · cases h
  | endExit p =>
    simp only [step, Bool.and_eq_true, List.isEmpty_iff] at h
    split at h
    · next hguard =>
      cases h
      exact .endExit p hguard.1.1 hguard.1.2 hguard.2
    · cases h
  | start b enabled force =>
    simp only [step] at h
    split at h
    · next hended =>
      obtain ⟨q, hq, rfl⟩ := Option.map_eq_some_iff.mp h
      exact .start b enabled force q hended hq
    · cases h
  | startWorker =>
    simp only [step] at h
    split at h
    · next hended =>
      cases h
      exact .startWorker hended
    · cases h

end Area

end PgStatCh
