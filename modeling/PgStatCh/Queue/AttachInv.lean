import PgStatCh.Queue.LocalBatch
import Mathlib.Data.Fintype.Option
import Mathlib.Algebra.BigOperators.Ring.Finset

/-!
# Queue.AttachInv — attachments are balanced

Over all runs of the processes with their exit callbacks: the detach callback is pending exactly
while a process is attached (`Process.Ok`), the batch callback from the first buffered event on
until it runs (`BatchOk`), and whoever is between `PschDsaGetArea` and the last use of the area
is attached. So attaching and releasing alternate, a process ends detached and with an empty
batch, and the reference count is what `PschDsaInit` left plus the number of attached processes
(`attachments_balanced`).

Every step of this machine is a step of the queue or leaves it alone (`refines_queue`).
-/

namespace PgStatCh

open Lib Tla

/-! ## The invariant -/

/-- One backend. -/
structure BackendOk (x : Process) (be : Backend) (ph : Phase) : Prop where
  batch : BatchOk x be
  at_pc : ph.At be.pc
  text : ph.hasArea = true → x.pschDsa = true

/-- The worker. -/
structure WorkerOk (x : Process) (w : Worker) : Prop where
  exiting : x.exiting = true → w = .idle
  ended : x.ended = true → x.exiting = true
  text : w.hasArea = true → x.pschDsa = true
  list : .pschLocalBatchShutdown ∉ x.onShmemExit

/-- The worker goes on, attached or not. -/
theorem WorkerOk.attach {x y : Process} {w w' : Worker} (h : WorkerOk x w)
    (hy : y = x ∨ y = x.attach) (hexiting : x.exiting = true → w' = .idle)
    (htext : w'.hasArea = true → y.pschDsa = true) : WorkerOk y w' := by
  rcases hy with rfl | rfl
  · exact ⟨hexiting, h.ended, htext, h.list⟩
  · refine ⟨hexiting, h.ended, htext, ?_⟩
    unfold Process.attach
    split
    · exact h.list
    · exact List.not_mem_cons_of_ne_of_not_mem (by decide) h.list

namespace Area

variable {cfg : Config} {s s' : Area cfg}

structure Inv (s : Area cfg) : Prop where
  queue : (Queue.machine cfg).toSpec.Reachable s.queue
  procs : ∀ p, (s.procs p).Ok
  refcnt : s.refcnt = pinnedRefs + ∑ p, (s.procs p).users
  backend : ∀ b, BackendOk (s.procs (some b)) (s.queue.backends b) (s.queue.shmem.phase b)
  worker : WorkerOk (s.procs none) s.queue.shmem.worker

/-- One process changes its variables. -/
theorem Inv.procs_step (hi : Inv s) {p : Option cfg.Proc} {d : ℤ} {x : Process}
    (h : Process.Step (s.procs p) d x) :
    (∀ q, (Function.update s.procs p x q).Ok) ∧
      s.refcnt + d = pinnedRefs + ∑ q, (Function.update s.procs p x q).users := by
  constructor
  · intro q
    rcases eq_or_ne q p with rfl | hne
    · rw [Function.update_self]
      exact h.ok (hi.procs q)
    · rw [Function.update_of_ne hne]
      exact hi.procs q
  · rw [sum_update_eq, h.users (hi.procs p), hi.refcnt, sum_eq_restSum s.procs Process.users p]
    omega

theorem Inv.init (h : Init s) : Inv s := by
  obtain ⟨hqueue, hrefcnt, hprocs⟩ := h
  obtain ⟨⟨start, slots, hsh⟩, hbackends⟩ := hqueue
  refine ⟨.init ⟨⟨start, slots, hsh⟩, hbackends⟩, ?_, ?_, ?_, ?_⟩
  · intro p
    rw [hprocs]
    exact Process.ok_fresh
  · rw [hrefcnt, hprocs]
    simp [Process.users]
  · intro b
    obtain ⟨enabled, force, hb⟩ := hbackends b
    rw [hprocs, hb, hsh]
    refine ⟨⟨?_, rfl, fun hended => by cases hended⟩, Or.inl rfl, fun harea => by cases harea⟩
    rintro (hne | ⟨e, he⟩)
    · exact absurd rfl hne
    · cases he
  · rw [hprocs, hsh]
    refine ⟨?_, ?_, ?_, List.not_mem_nil⟩
    · intro hexiting
      cases hexiting
    · intro hended
      cases hended
    · intro hhas
      cases hhas

/-- `PschDsaGetArea` attaches, or the process is attached already. -/
theorem pschDsaGetArea_step (s : Area cfg) {p : Option cfg.Proc}
    (hrunning : (s.procs p).ended = false) :
    ∃ d x, Process.Step (s.procs p) d x ∧ (s.pschDsaGetArea p).procs = Function.update s.procs p x ∧
      (s.pschDsaGetArea p).refcnt = s.refcnt + d ∧ x.pschDsa = true ∧
      (x = s.procs p ∨ x = (s.procs p).attach) := by
  unfold pschDsaGetArea
  split
  · next hattached =>
    exact ⟨0, s.procs p, .stay, by rw [Function.update_eq_self], by rw [add_zero], hattached,
      Or.inl rfl⟩
  · next hdetached =>
    rw [pschDsaAttach, if_neg hdetached]
    exact ⟨1, _, .attach (Bool.eq_false_iff.mpr hdetached) hrunning, rfl, rfl, rfl, Or.inr rfl⟩

/-- What a step of a backend does to its variables. -/
theorem backendEffect_step (s : Area cfg) {b : cfg.Proc}
    (hrunning : (s.procs (some b)).ended = false) :
    ∃ d x, Process.Step (s.procs (some b)) d x ∧
      (s.backendEffect b).procs = Function.update s.procs (some b) x ∧
      (s.backendEffect b).refcnt = s.refcnt + d ∧
      ((s.queue.backends b).pc.adds = true ∧ x = (s.procs (some b)).pschLocalBatchInit ∨
        (s.queue.backends b).pc.adds = false ∧
          (x = s.procs (some b) ∨ x = (s.procs (some b)).attach)) ∧
      ((s.queue.backends b).pc.adds = false → (s.queue.shmem.phase b).getsArea = true →
        x.pschDsa = true) := by
  unfold backendEffect
  split
  · next e hb =>
    rw [hb]
    exact ⟨0, _, .init hrunning, rfl, (add_zero _).symm, Or.inl ⟨rfl, rfl⟩, fun hno => by cases hno⟩
  · next hadd =>
    have hadds : (s.queue.backends b).pc.adds = false := by
      cases hpc : (s.queue.backends b).pc with
      | add e => exact absurd hpc (hadd e)
      | _ => rfl
    split
    · obtain ⟨d, x, hx, hprocs, hrefcnt, hattached, hcase⟩ := s.pschDsaGetArea_step hrunning
      exact ⟨d, x, hx, hprocs, hrefcnt, Or.inr ⟨hadds, hcase⟩, fun _ _ => hattached⟩
    · next hgets =>
      exact ⟨0, s.procs (some b), .stay, by rw [Function.update_eq_self], (add_zero _).symm,
        Or.inr ⟨hadds, Or.inl rfl⟩, fun _ h => absurd h hgets⟩

theorem workerEffect_step (s : Area cfg) (hrunning : (s.procs none).ended = false) :
    ∃ d x, Process.Step (s.procs none) d x ∧
      s.workerEffect.procs = Function.update s.procs none x ∧
      s.workerEffect.refcnt = s.refcnt + d ∧
      (x = s.procs none ∨ x = (s.procs none).attach) ∧
      (s.queue.shmem.worker.getsArea s.queue.shmem.readSlot = true → x.pschDsa = true) := by
  unfold workerEffect
  split
  · obtain ⟨d, x, hx, hprocs, hrefcnt, hattached, hcase⟩ := s.pschDsaGetArea_step hrunning
    exact ⟨d, x, hx, hprocs, hrefcnt, hcase, fun _ => hattached⟩
  · next hgets =>
    exact ⟨0, s.procs none, .stay, by rw [Function.update_eq_self], (add_zero _).symm,
      Or.inl rfl, fun h => absurd h hgets⟩

/-- Attaching does not detach. -/
theorem pschDsa_of_attach {x y : Process} (h : y = x ∨ y = x.attach) (hattached : x.pschDsa = true) :
    y.pschDsa = true := by
  rcases h with rfl | rfl
  · exact hattached
  · rfl

/-- What the next step of a backend leaves of its batch. -/
theorem Inv.batch_step (hi : Inv s) {b : cfg.Proc} {a : Answer} {sh' : Shmem cfg} {be' : Backend}
    (h : Backend.Step b a s.queue.shmem (s.queue.backends b) sh' be') {x : Process}
    (hx : (s.queue.backends b).pc.adds = true ∧ x = (s.procs (some b)).pschLocalBatchInit ∨
      (s.queue.backends b).pc.adds = false ∧
        (x = s.procs (some b) ∨ x = (s.procs (some b)).attach)) :
    BatchOk x be' := by
  have hbatch := (hi.backend b).batch
  rcases h.cont_cases with ⟨e, hb, hadd⟩ | ⟨k, count, ret, enabled, before, hb, rfl⟩ | hkeeps
  · -- `PschLocalBatchAdd`
    rw [hb] at hx
    obtain ⟨-, rfl⟩ := hx.resolve_right fun h => by cases h.1
    have hshut : (s.queue.backends b).pc.shut = false := by rw [hb]; rfl
    have hgone : (s.queue.backends b).pc.gone = false := by rw [hb]; rfl
    obtain ⟨hbatch', hinit⟩ := hbatch.init hshut
    rcases hadd with rfl | rfl
    · exact hbatch'.flush_add hinit hshut hgone _ e
    · exact hbatch'.resume_add hinit hshut hgone e
  · rw [hb] at hx
    obtain ⟨-, rfl | rfl⟩ := hx.resolve_left fun h => by cases h.1
    · exact hbatch.returnBatch hb
    · exact hbatch.attach.returnBatch hb
  · rw [hkeeps.adds] at hx
    obtain ⟨-, rfl | rfl⟩ := hx.resolve_left fun h => by cases h.1
    · exact hbatch.keeps hkeeps
    · exact hbatch.attach.keeps hkeeps

/-- A backend that takes steps has not ended. -/
theorem Inv.running (hi : Inv s) {b : cfg.Proc} (h : (s.queue.backends b).pc.gone = false) :
    (s.procs (some b)).ended = false := by
  rw [Bool.eq_false_iff]
  intro hended
  rw [(hi.backend b).batch.ended hended] at h
  cases h

/-- One backend moves, and its variables with it. -/
theorem Inv.moveBackend (hi : Inv s) {b : cfg.Proc} {d : ℤ} {x : Process} {be : Backend}
    {ph : Phase} (hq : (Queue.machine cfg).toSpec.Reachable s'.queue)
    (hx : Process.Step (s.procs (some b)) d x)
    (hprocs : s'.procs = Function.update s.procs (some b) x) (hrefcnt : s'.refcnt = s.refcnt + d)
    (hbe : s'.queue.backends = Function.update s.queue.backends b be)
    (hph : s'.queue.shmem.phase = Function.update s.queue.shmem.phase b ph)
    (hworker : s'.queue.shmem.worker = s.queue.shmem.worker) (hok : BackendOk x be ph) :
    Inv s' := by
  obtain ⟨hprocs', hrefcnt'⟩ := hi.procs_step hx
  refine ⟨hq, by rw [hprocs]; exact hprocs', by rw [hrefcnt, hprocs]; exact hrefcnt', ?_, ?_⟩
  · intro b'
    rw [hprocs, hbe, hph]
    rcases eq_or_ne b' b with rfl | hne
    · rw [Function.update_self, Function.update_self, Function.update_self]
      exact hok
    · rw [Function.update_of_ne hne, Function.update_of_ne hne,
        Function.update_of_ne fun heq => hne (Option.some.inj heq)]
      exact hi.backend b'
  · rw [hprocs, hworker, Function.update_of_ne (Option.some_ne_none b).symm]
    exact hi.worker

/-- A backend moves outside the ring, and its variables stay. -/
theorem Inv.setBackend (hi : Inv s) {b : cfg.Proc} {be : Backend}
    (hq : (Queue.machine cfg).toSpec.Reachable (s.queue.setBackend b be))
    (hbatch : BatchOk (s.procs (some b)) be)
    (hat : (s.queue.shmem.phase b).At be.pc) : Inv { s with queue := s.queue.setBackend b be } :=
  hi.moveBackend hq .stay (Function.update_eq_self _ _).symm (add_zero _).symm rfl
    (Function.update_eq_self _ _).symm rfl ⟨hbatch, hat, (hi.backend b).text⟩

/-- The worker moves, and its variables with it. -/
theorem Inv.moveWorker (hi : Inv s) {d : ℤ} {x : Process}
    (hq : (Queue.machine cfg).toSpec.Reachable s'.queue)
    (hx : Process.Step (s.procs none) d x)
    (hprocs : s'.procs = Function.update s.procs none x) (hrefcnt : s'.refcnt = s.refcnt + d)
    (hbe : s'.queue.backends = s.queue.backends)
    (hph : s'.queue.shmem.phase = s.queue.shmem.phase)
    (hok : WorkerOk x s'.queue.shmem.worker) : Inv s' := by
  obtain ⟨hprocs', hrefcnt'⟩ := hi.procs_step hx
  refine ⟨hq, by rw [hprocs]; exact hprocs', by rw [hrefcnt, hprocs]; exact hrefcnt', ?_, ?_⟩
  · intro b
    rw [hprocs, hbe, hph, Function.update_of_ne (Option.some_ne_none b)]
    exact hi.backend b
  · rw [hprocs, Function.update_self]
    exact hok

theorem Inv.step_backend (hi : Inv s) {b : cfg.Proc} {a : Answer} {sh' : Shmem cfg}
    {be' : Backend} (h : Backend.Step b a s.queue.shmem (s.queue.backends b) sh' be')
    (hq : (Queue.machine cfg).toSpec.Reachable { s.queue.setBackend b be' with shmem := sh' }) :
    Inv { s.backendEffect b with queue := { s.queue.setBackend b be' with shmem := sh' } } := by
  have hok := hi.backend b
  obtain ⟨d, x, hx, hprocs, hrefcnt, hcase, hgets⟩ := s.backendEffect_step (hi.running h.gone)
  obtain ⟨⟨ph, hphase, hat, harea⟩, hworker⟩ := h.phase hok.at_pc
  refine hi.moveBackend hq hx hprocs hrefcnt rfl hphase hworker
    ⟨hi.batch_step h hcase, hat, fun hph => ?_⟩
  -- with the area in hand it is inside `TryEnqueueLocked`, where `PschLocalBatchAdd` is not
  have hadds := Pc.not_adds_of_inside (hok.at_pc.inside (harea hph))
  rcases harea hph with hget | hhas
  · exact hgets hadds hget
  · exact pschDsa_of_attach (hcase.resolve_left fun h => by rw [hadds] at h; cases h.1).2
      (hok.text hhas)

/-- The next step of the consumer. -/
theorem Inv.step_worker (hi : Inv s) {sh' : Shmem cfg} (h : s.queue.shmem.dequeueStep = some sh')
    (hq : (Queue.machine cfg).toSpec.Reachable { s.queue with shmem := sh' }) :
    Inv { s.workerEffect with queue := { s.queue with shmem := sh' } } := by
  have hok := hi.worker
  obtain ⟨hphase, hbusy, harea⟩ := Shmem.dequeueStep_area h
  have hstays : (s.procs none).exiting = false := by
    rw [Bool.eq_false_iff]
    exact fun hexiting => hbusy (hok.exiting hexiting)
  have hrunning : (s.procs none).ended = false := by
    rw [Bool.eq_false_iff]
    intro hended
    rw [hok.ended hended] at hstays
    cases hstays
  obtain ⟨d, x, hx, hprocs, hrefcnt, hcase, hgets⟩ := s.workerEffect_step hrunning
  refine hi.moveWorker hq hx hprocs hrefcnt rfl hphase
    (hok.attach hcase (by rw [hstays]; exact nofun) fun hhas => ?_)
  rcases harea hhas with hget | hhas
  · exact hgets hget
  · exact pschDsa_of_attach hcase (hok.text hhas)

/-- A step of the queue. -/
theorem Inv.step_queue (hi : Inv s) {l : Queue.Label cfg} {q : Queue cfg}
    (hallows : s.allows l = true) (h : Queue.step l s.queue = some q) :
    Inv { s.effect l with queue := q } := by
  have hq : (Queue.machine cfg).toSpec.Reachable q := hi.queue.step ⟨l, h⟩
  cases Queue.step_cases h with
  | call b e hidle =>
    have hok := hi.backend b
    exact hi.setBackend hq (hok.batch.call hidle _ e) (hok.at_pc.move (by rw [hidle]; rfl) _)
  | xactEnd b hidle =>
    have hok := hi.backend b
    exact hi.setBackend hq (hok.batch.flush_xact hidle _) (hok.at_pc.move (by rw [hidle]; rfl) _)
  | exit b hidle => cases hallows
  | start b enabled force hexited => cases hallows
  | setEnabled b value =>
    have hok := hi.backend b
    exact hi.setBackend hq ⟨hok.batch.initialized, hok.batch.pending, hok.batch.ended⟩ hok.at_pc
  | setForce b value =>
    have hok := hi.backend b
    exact hi.setBackend hq ⟨hok.batch.initialized, hok.batch.pending, hok.batch.ended⟩ hok.at_pc
  | step b a sh' be' hbe => exact hi.step_backend hbe hq
  | shared l l' sh' hl hsh =>
    cases l with
    | acquireOther | releaseOther =>
      cases hl
      simp only [Shmem.step] at hsh
      split at hsh <;> cases hsh
      exact ⟨hq, hi.procs, hi.refcnt, hi.backend, hi.worker⟩
    | beginDequeue buf =>
      cases hl
      simp only [Shmem.step, Shmem.beginDequeue] at hsh
      split at hsh <;> cases hsh
      have hexiting : (s.procs none).exiting = false := by simpa [allows] using hallows
      refine ⟨hq, hi.procs, hi.refcnt, hi.backend, ?_, hi.worker.ended, ?_, hi.worker.list⟩
      · change (s.procs none).exiting = true → _
        rw [hexiting]
        intro htrue
        cases htrue
      · intro hhas
        cases hhas
    | dequeueStep =>
      cases hl
      exact hi.step_worker hsh hq
    | _ => cases hl

/-- Nothing is in hand between two calls. -/
theorem Inv.no_area_of_quiet (hi : Inv s) {b : cfg.Proc} (hquiet : s.quiet (some b) = true) :
    (s.queue.shmem.phase b).hasArea = false := by
  rw [Bool.eq_false_iff]
  intro harea
  have hinside := (hi.backend b).at_pc.inside (Or.inr harea)
  rw [Pc.not_inside_of_quiet hquiet] at hinside
  cases hinside

theorem idle_of_quiet (hquiet : s.quiet none = true) : s.queue.shmem.worker = .idle := by
  unfold quiet at hquiet
  cases hw : s.queue.shmem.worker with
  | idle => rfl
  | _ =>
    rw [hw] at hquiet
    cases hquiet

/-- Only the variables of one process change. -/
theorem Inv.setProc (hi : Inv s) {p : Option cfg.Proc} {d : ℤ} {x : Process}
    (hx : Process.Step (s.procs p) d x) (hqueue : s'.queue = s.queue)
    (hprocs : s'.procs = Function.update s.procs p x) (hrefcnt : s'.refcnt = s.refcnt + d)
    (hbackend : ∀ b, p = some b → BackendOk x (s.queue.backends b) (s.queue.shmem.phase b))
    (hworker : p = none → WorkerOk x s.queue.shmem.worker) : Inv s' := by
  cases p with
  | none =>
    refine hi.moveWorker (hqueue ▸ hi.queue) hx hprocs hrefcnt (by rw [hqueue]) (by rw [hqueue]) ?_
    rw [hqueue]
    exact hworker rfl
  | some b =>
    refine hi.moveBackend (hqueue ▸ hi.queue) hx hprocs hrefcnt ?_ ?_ (by rw [hqueue])
      (hbackend b rfl)
    · rw [hqueue, Function.update_eq_self]
    · rw [hqueue, Function.update_eq_self]

theorem pschDsaGetArea_eq (s : Area cfg) (p : Option cfg.Proc) :
    s.pschDsaGetArea p = s.pschDsaAttach p := by
  unfold pschDsaGetArea pschDsaAttach
  split <;> rfl

theorem pschDsaAttach_queue (s : Area cfg) (p : Option cfg.Proc) :
    (s.pschDsaAttach p).queue = s.queue := by
  unfold pschDsaAttach
  split <;> rfl

/-- At its end a backend has nothing buffered any more. -/
theorem Inv.empty_at_end (hi : Inv s) {b : cfg.Proc}
    (hlist : (s.procs (some b)).onShmemExit = []) : (s.queue.backends b).localBatch = [] := by
  by_contra hne
  have hmem := (hi.backend b).batch.mem_of_buffered (Queue.balanced_reachable hi.queue b) hne
  rw [hlist] at hmem
  exact List.not_mem_nil hmem

/-- So that it ends is, for the queue, that it exits with nothing to flush. -/
theorem Inv.endExit_queue (hi : Inv s) {b : cfg.Proc} (hquiet : s.quiet (some b) = true)
    (hlist : (s.procs (some b)).onShmemExit = []) :
    (Queue.machine cfg).toSpec.StutNext s.queue (s.endExit (some b)).queue := by
  change (Queue.machine cfg).toSpec.StutNext s.queue
    (s.queue.setBackend b { s.queue.backends b with pc := .exited })
  have hempty := hi.empty_at_end hlist
  cases hpc : (s.queue.backends b).pc with
  | idle =>
    refine Or.inl ⟨.exit b, ?_⟩
    have hflush : (s.queue.backends b).flush (s.queue.shmem.tally b) .shutdown =
        { s.queue.backends b with pc := .exited } := by
      unfold Backend.flush
      split
      · rfl
      · next hbatch =>
        rw [hempty] at hbatch
        cases hbatch
    change Queue.step (.exit b) s.queue = _
    rw [Queue.step, hpc, hflush]
  | exited =>
    have hbe : { s.queue.backends b with pc := .exited } = s.queue.backends b := by rw [← hpc]
    right
    rw [hbe, Queue.setBackend, Function.update_eq_self]
  | _ =>
    rw [quiet, hpc] at hquiet
    cases hquiet

/-- Every step is a step of the queue, or leaves it alone. -/
theorem Inv.queue_step (hi : Inv s) {l : Label cfg} (h : Step s l s') :
    (Queue.machine cfg).toSpec.StutNext s.queue s'.queue := by
  cases h with
  | queue l q hallows hq => exact Or.inl ⟨l, hq⟩
  | attachWorker hstays => exact Or.inr (s.pschDsaAttach_queue none)
  | beginExit p hquiet => exact Or.inr rfl
  | detach p rest hquiet hlist => exact Or.inr rfl
  | shutdown b rest q hlist hq => exact Or.inl ⟨.exit b, hq⟩
  | endExit p hquiet hexiting hlist =>
    cases p with
    | none => exact Or.inr rfl
    | some b => exact hi.endExit_queue hquiet hlist
  | start b enabled force q hended hq => exact Or.inl ⟨.start b enabled force, hq⟩
  | startWorker hended => exact Or.inr rfl

theorem Inv.queue_reachable (hi : Inv s) {l : Label cfg} (h : Step s l s') :
    (Queue.machine cfg).toSpec.Reachable s'.queue := by
  rcases hi.queue_step h with hnext | hstut
  · exact hi.queue.step hnext
  · rw [hstut]
    exact hi.queue

theorem Inv.step (hi : Inv s) {l : Label cfg} (h : Step s l s') : Inv s' := by
  have hreach := hi.queue_reachable h
  cases h with
  | queue l q hallows hq => exact hi.step_queue hallows hq
  | attachWorker hstays =>
    have hok := hi.worker
    have hrunning : (s.procs none).ended = false := by
      rw [Bool.eq_false_iff]
      intro hended
      rw [hok.ended hended] at hstays
      cases hstays
    obtain ⟨d, x, hx, hprocs, hrefcnt, hattached, hcase⟩ := s.pschDsaGetArea_step hrunning
    rw [pschDsaGetArea_eq] at hprocs hrefcnt
    refine hi.setProc hx (s.pschDsaAttach_queue none) hprocs hrefcnt ?_ fun _ => ?_
    · intro b hb
      cases hb
    · exact hok.attach hcase hok.exiting fun _ => hattached
  | beginExit p hquiet =>
    refine hi.setProc .beginExit rfl rfl (add_zero _).symm ?_ ?_
    · rintro b rfl
      have hok := hi.backend b
      exact ⟨⟨hok.batch.initialized, hok.batch.pending, hok.batch.ended⟩, hok.at_pc, hok.text⟩
    · rintro rfl
      have hok := hi.worker
      exact ⟨fun _ => idle_of_quiet hquiet, fun _ => rfl, hok.text, hok.list⟩
  | detach p rest hquiet hlist =>
    refine hi.setProc (.detach rest hlist) rfl rfl rfl ?_ ?_
    · rintro b rfl
      have hok := hi.backend b
      refine ⟨hok.batch.detach hlist, hok.at_pc, ?_⟩
      rw [hi.no_area_of_quiet hquiet]
      intro harea
      cases harea
    · rintro rfl
      have hok := hi.worker
      refine ⟨hok.exiting, hok.ended, ?_, fun hmem => hok.list ?_⟩
      · rw [idle_of_quiet hquiet]
        intro harea
        cases harea
      · rw [hlist]
        exact List.mem_cons_of_mem _ hmem
  | shutdown b rest q hlist hq =>
    have hok := hi.backend b
    cases Queue.step_cases hq with
    | exit b hidle =>
      exact hi.moveBackend hreach (.shutdown rest hlist) rfl (add_zero _).symm rfl
        (Function.update_eq_self _ _).symm rfl
        ⟨hok.batch.flush_shutdown hidle hlist _, hok.at_pc.move (by rw [hidle]; rfl) _, hok.text⟩
    | shared l l' sh' hl hsh => cases hl
  | endExit p hquiet hexiting hlist =>
    cases p with
    | none =>
      have hok := hi.worker
      refine hi.setProc (.finish hlist) rfl rfl (add_zero _).symm ?_
        fun _ => ⟨hok.exiting, fun _ => hexiting, hok.text, hok.list⟩
      intro b hb
      cases hb
    | some b =>
      have hok := hi.backend b
      refine hi.moveBackend hreach (.finish hlist) rfl (add_zero _).symm rfl
        (Function.update_eq_self _ _).symm rfl ⟨⟨?_, ?_, fun _ => rfl⟩, ?_, hok.text⟩
      · rintro (hne | ⟨e, he⟩)
        · exact hok.batch.initialized (Or.inl hne)
        · cases he
      · change (s.procs (some b)).onShmemExit.count _ = _
        rw [hlist]
        simp [Pc.shut]
      · exact hok.at_pc.move (Pc.not_inside_of_quiet hquiet) _
  | start b enabled force q hended hq =>
    have hok := hi.backend b
    cases Queue.step_cases hq with
    | start b enabled force hexited =>
      have hat := hok.at_pc.move (by rw [hexited]; rfl) .idle
      refine hi.moveBackend hreach (.fresh hended) rfl (add_zero _).symm rfl
        (Function.update_eq_self _ _).symm rfl ⟨⟨?_, rfl, ?_⟩, hat, fun harea => ?_⟩
      · rintro (hne | ⟨e, he⟩)
        · exact absurd rfl hne
        · cases he
      · intro hfresh
        cases hfresh
      · have hinside := hat.inside (Or.inr harea)
        cases hinside
    | shared l l' sh' hl hsh => cases hl
  | startWorker hended =>
    have hok := hi.worker
    have hidle := hok.exiting (hok.ended hended)
    refine hi.setProc (.fresh hended) rfl rfl (add_zero _).symm ?_ fun _ => ?_
    · intro b hb
      cases hb
    · rw [hidle]
      refine ⟨?_, ?_, ?_, List.not_mem_nil⟩
      · intro hexiting
        cases hexiting
      · intro hfresh
        cases hfresh
      · intro hhas
        cases hhas

theorem inv_reachable (hs : (machine cfg).toSpec.Reachable s) : Inv s := by
  refine Spec.Reachable.invariant (fun s (h : Init s) => Inv.init h) ?_ hs
  rintro s s' hi ⟨l, hl⟩
  exact hi.step (step_cases hl)

theorem refines_queue (cfg : Config) :
    Refinement (machine cfg).toSpec (Queue.machine cfg).toSpec Area.queue where
  init := fun _ hs => hs.1
  next := by
    rintro s s' hs ⟨l, hl⟩
    exact (inv_reachable hs).queue_step (step_cases hl)

/-! ## Results -/

/-- The next step of the backend gets the string area, or has it in hand. -/
def UsesArea (s : Area cfg) (b : cfg.Proc) : Prop :=
  (s.queue.shmem.phase b).getsArea = true ∨ (s.queue.shmem.phase b).hasArea = true

/-- Whoever uses the area is attached to it then. -/
theorem Inv.attached_of_usesArea (hi : Inv s) {b : cfg.Proc} {a : Answer}
    (h : Area.step (.queue (.step b a)) s = some s') (huses : s.UsesArea b) :
    (s'.procs (some b)).pschDsa = true := by
  have hok := hi.backend b
  have hadds := Pc.not_adds_of_inside (hok.at_pc.inside huses)
  cases step_cases h with
  | queue l q hallows hq =>
    cases Queue.step_cases hq with
    | step b a sh' be' hbe =>
      obtain ⟨d, x, -, hprocs, -, hcase, hgets⟩ := s.backendEffect_step (hi.running hbe.gone)
      change ((s.backendEffect b).procs (some b)).pschDsa = true
      rw [hprocs, Function.update_self]
      rcases huses with hget | hhas
      · exact hgets hadds hget
      · exact pschDsa_of_attach (hcase.resolve_left fun h => by rw [hadds] at h; cases h.1).2
          (hok.text hhas)
    | shared l l' sh' hl hsh => cases hl

/-- `shmem_exit` does not get stuck between two callbacks. -/
theorem Inv.exit_goes_on (hi : Inv s) {p : Option cfg.Proc} (hexiting : (s.procs p).exiting = true)
    (hquiet : s.quiet p = true) :
    (Area.step (.runCallback p) s).isSome ∨ (Area.step (.endExit p) s).isSome := by
  cases hlist : (s.procs p).onShmemExit with
  | nil =>
    right
    simp [Area.step, hquiet, hexiting, hlist]
  | cons callback rest =>
    left
    cases callback with
    | pschDsaDetachOnExit => simp [Area.step, hquiet, hexiting, runCallback, hlist]
    | pschLocalBatchShutdown =>
      cases p with
      | none =>
        refine absurd ?_ hi.worker.list
        rw [hlist]
        exact List.mem_cons_self
      | some b =>
        -- it is pending, so it has not run yet and the backend is idle
        have hidle : (s.queue.backends b).pc = .idle := by
          cases hpc : (s.queue.backends b).pc with
          | idle => rfl
          | exited =>
            have hpending := (hi.backend b).batch.pending
            rw [hlist, hpc] at hpending
            simp [Pc.shut] at hpending
          | _ =>
            rw [quiet, hpc] at hquiet
            cases hquiet
        simp [Area.step, hquiet, hexiting, runCallback, hlist, Queue.step, hidle]

/-- Attachments are balanced. In every reachable state, for every process: attaching and
releasing alternate, and a process that has ended is detached, with as many releases as
attachments; the reference count is what `PschDsaInit` left plus one for each process that is
attached. Exiting never gets stuck. Whatever a backend has buffered, `PschLocalBatchShutdown` is
still to run; it hands the whole batch to `PschLocalBatchFlush`, and after the end nothing is
left. Every step that uses the string area makes it with the process attached. -/
theorem attachments_balanced (hs : (machine cfg).toSpec.Reachable s) :
    (∀ p, (∃ n, (s.procs p).ops =
        Process.rounds n ++ if (s.procs p).pschDsa then [.attach] else []) ∧
      ((s.procs p).ended = true →
        (s.procs p).pschDsa = false ∧ ∃ n, (s.procs p).ops = Process.rounds n) ∧
      ((s.procs p).exiting = true → s.quiet p = true →
        (step (.runCallback p) s).isSome ∨ (step (.endExit p) s).isSome)) ∧
    s.refcnt = pinnedRefs + ((Finset.univ.filter fun p => (s.procs p).pschDsa = true).card : ℤ) ∧
    (∀ b, ((s.queue.backends b).localBatch ≠ [] →
        .pschLocalBatchShutdown ∈ (s.procs (some b)).onShmemExit) ∧
      (∀ rest s', (s.procs (some b)).onShmemExit = .pschLocalBatchShutdown :: rest →
        step (.runCallback (some b)) s = some s' →
        s'.queue.backends b =
          (s.queue.backends b).flush (s.queue.shmem.tally b) .shutdown) ∧
      ((s.procs (some b)).ended = true → (s.queue.backends b).localBatch = []) ∧
      ∀ a s', step (.queue (.step b a)) s = some s' → s.UsesArea b →
        (s'.procs (some b)).pschDsa = true) := by
  have hi := inv_reachable hs
  refine ⟨fun p => ⟨(hi.procs p).ops, fun hended => ?_, hi.exit_goes_on⟩, ?_, fun b => ⟨?_, ?_, ?_, ?_⟩⟩
  · have hdetached := (hi.procs p).detached hended
    obtain ⟨n, hops⟩ := (hi.procs p).ops
    refine ⟨hdetached, n, ?_⟩
    simpa [hdetached] using hops
  · rw [hi.refcnt, ← Finset.sum_boole]
    rfl
  · exact (hi.backend b).batch.mem_of_buffered (Queue.balanced_reachable hi.queue b)
  · intro rest s' hlist hstep
    cases step_cases hstep with
    | detach p rest' hquiet hlist' =>
      rw [hlist] at hlist'
      cases hlist'
    | shutdown b rest' q hlist' hq =>
      cases Queue.step_cases hq with
      | exit b hidle => exact Function.update_self ..
      | shared l l' sh' hl hsh => cases hl
  · exact fun hended => hi.empty_at_end ((hi.procs _).ended hended)
  · exact fun a s' => hi.attached_of_usesArea

/-- A process to try things on. -/
def sample : Area sampleConfig where
  queue := Queue.sample
  refcnt := pinnedRefs

/-- The first enqueue is contended and buffers its event; the second one attaches. At exit the
process is detached first, and the flush attaches it again. -/
def contendedFirst : List (Label sampleConfig) :=
  [.queue .acquireOther, .queue (.call proc₀ { queryLen := 1 })] ++
    List.replicate 5 (.queue (.step proc₀ {})) ++ [.queue .releaseOther] ++
    (Queue.enqueueOne proc₀ 8 { queryLen := 3 }).map .queue ++
    [.beginExit (some proc₀), .runCallback (some proc₀), .runCallback (some proc₀)] ++
    List.replicate 17 (.queue (.step proc₀ { block := some 16 })) ++
    [.runCallback (some proc₀), .endExit (some proc₀)]

theorem attachments_balanced_contendedFirst :
    let s := (machine sampleConfig).run sample contendedFirst
    (s.procs (some proc₀)).ended = true ∧ (s.procs (some proc₀)).ops = Process.rounds 2 ∧
    (s.procs (some proc₀)).pschDsa = false ∧ s.queue.shmem.published.length = 2 := by
  intro s
  have hended : (s.procs (some proc₀)).ended = true := by decide +kernel
  have hs : (machine sampleConfig).toSpec.Reachable s :=
    (machine sampleConfig).run_reachable sample (.init ⟨Queue.sample_init, rfl, rfl⟩) _
  refine ⟨hended, by decide +kernel, ?_, by decide +kernel⟩
  exact (((attachments_balanced hs).1 (some proc₀)).2.1 hended).1

end Area

end PgStatCh
