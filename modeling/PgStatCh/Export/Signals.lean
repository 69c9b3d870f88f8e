import PgStatCh.Export.Restart

/-!
# Export.Signals — the worker and its signals

Signals arrive at any time, also between the moment the worker wakes up and the moment it resets
its latch, and between two of the checks in `ProcessPendingSignals`.

* `never_waits_pending` — the worker never waits on an unset latch while a barrier, a reload or
  its termination is pending: no signal is lost.
* `barrier_within_a_call` — while a barrier is pending, `PschExportBatch` is called at most once
  more. This is what DROP DATABASE waits for.
* `stored_pid` — the pid in shared memory is 0 or the running worker's, as long as no worker was
  killed. It can be 0 although the worker runs only if the pid is that of an earlier worker: a
  flush that found the earlier one gone then clears it.
-/

namespace PgStatCh

open Lib Tla StatsExporter

/-- The process is at its end. -/
def MainPc.ending : MainPc → Bool
  | .exiting | .exited => true
  | _ => false

/-- The pid is in shared memory: after `PschSetBgworkerPid(MyProcPid)` and before
`PschSetBgworkerPid(0)`. -/
def MainPc.registered : MainPc → Bool
  | .starting | .exited => false
  | _ => true

namespace Bgworker

variable {ε : Type} [StatsExporter ε] {cfg : Config} {s s' : Bgworker ε cfg}

/-! ## Pending signals -/

/-- With the latch unset, a pending signal is one that the process is about to look at. -/
structure PendingOk (p : WorkerProcess) : Prop where
  barrier : p.latch = false → p.procSignalBarrierPending = true →
    p.pc = .barriers ∨ p.pc.ending = true
  die : p.latch = false → p.procDiePending = true →
    p.pc = .barriers ∨ p.pc = .interrupts ∨ p.pc.ending = true
  reload : p.latch = false → p.configReloadPending = true →
    p.pc = .barriers ∨ p.pc = .interrupts ∨ p.pc = .configReload ∨ p.pc.ending = true

/-- A handler leaves the latch set. -/
theorem PendingOk.of_latch {p : WorkerProcess} (h : p.latch = true) : PendingOk p := by
  constructor <;> (intro hlatch; rw [h] at hlatch; cases hlatch)

theorem handle_latch (p : WorkerProcess) (sig : Signal) : (p.handle sig).latch = true := by
  cases sig <;> rfl

theorem PendingOk.exiting {p : WorkerProcess} : PendingOk { p with pc := .exiting } :=
  ⟨fun _ _ => Or.inr rfl, fun _ _ => Or.inr (Or.inr rfl), fun _ _ => Or.inr (Or.inr (Or.inr rfl))⟩

/-- What every running process of a state has. -/
def Running (P : WorkerProcess → Prop) (s : Bgworker ε cfg) : Prop :=
  ∀ p, s.process = some p → P p

theorem Moves.pendingOk {p : WorkerProcess} (h : PendingOk p) (hmoves : Moves s p s') :
    Running PendingOk s' := by
  intro q hq
  cases hmoves with
  | startupFails | exporterShutdown => cases hq
  | notMade | notInitialized | notReported | die | procExit =>
    cases hq
    exact .exiting
  | setBgworkerPid =>
    cases hq
    exact ⟨fun _ _ => Or.inr rfl, fun _ _ => Or.inr (Or.inr rfl),
      fun _ _ => Or.inr (Or.inr (Or.inr rfl))⟩
  | resetLatch =>
    cases hq
    exact ⟨fun _ _ => Or.inl rfl, fun _ _ => Or.inl rfl, fun _ _ => Or.inl rfl⟩
  | errfinish =>
    cases hq
    exact ⟨fun _ hb => (by cases hb), h.die, h.reload⟩
  | processBarrier hpc =>
    cases hq
    exact ⟨fun _ hb => (by cases hb), fun _ _ => Or.inr (Or.inl rfl),
      fun _ _ => Or.inr (Or.inl rfl)⟩
  | live hpc hdie =>
    cases hq
    refine ⟨fun _ hb => (by cases hb), fun _ hd => ?_, fun _ _ => Or.inr (Or.inr (Or.inl rfl))⟩
    change p.procDiePending = true at hd
    rw [hdie] at hd
    cases hd
  | batchNext =>
    cases hq
    exact ⟨fun _ _ => Or.inl rfl, fun _ _ => Or.inl rfl, fun _ _ => Or.inl rfl⟩
  | storePid hpc | made _ _ _ _ hpc | wait hpc | batchLast _ hpc =>
    -- nothing was pending with the latch unset, and nothing is
    cases hq
    refine ⟨fun hl hb => ?_, fun hl hd => ?_, fun hl hr => ?_⟩
    · have hold := h.barrier hl hb
      simp [hpc, MainPc.ending] at hold
    · have hold := h.die hl hd
      simp [hpc, MainPc.ending] at hold
    · have hold := h.reload hl hr
      simp [hpc, MainPc.ending] at hold

theorem Step.pendingOk {l : Label ε cfg} (h : Running PendingOk s) (hstep : Step s l s') :
    Running PendingOk s' := by
  cases hstep with
  | start =>
    intro q hq
    cases hq
    exact ⟨fun _ hb => (by cases hb), fun _ hd => (by cases hd), fun _ hr => (by cases hr)⟩
  | moves l p s' hp hmoves => exact hmoves.pendingOk (h p hp)
  | reload file p sys hp hpc hsys =>
    intro q hq
    cases hq
    refine ⟨fun hl hb => ?_, fun hl hd => ?_, fun _ hr => by cases hr⟩
    · have hold := (h p hp).barrier hl hb
      simp [hpc, MainPc.ending] at hold
    · have hold := (h p hp).die hl hd
      simp [hpc, MainPc.ending] at hold
  | work l p sys hp hpc hl hsys =>
    intro q hq
    refine h q ?_
    cases l <;> exact hq
  | signal sig p hp =>
    intro q hq
    cases hq
    exact .of_latch (handle_latch p sig)
  | dieInside =>
    intro q hq
    cases hq
    exact .exiting
  | vanish =>
    intro q hq
    cases hq
  | killed =>
    intro q hq
    cases hq
    exact .of_latch rfl
  | queue | notRunning | flush | strayed | noSuchProcess | clear => exact h

theorem pendingOk_reachable (hs : (machine ε cfg).toSpec.Reachable s) : Running PendingOk s := by
  refine Spec.Reachable.invariant ?_ ?_ hs
  · rintro s ⟨queue, exporter, settings, -, -, rfl⟩ p hp
    cases hp
  · rintro s s' h ⟨l, hl⟩
    exact (step_cases hl).pendingOk h

/-- The worker never waits on an unset latch with a signal pending. -/
theorem never_waits_pending (s : Bgworker ε cfg) (hs : (machine ε cfg).toSpec.Reachable s)
    (p : WorkerProcess) (hp : s.process = some p) (hpc : p.pc = .waitLatch)
    (hlatch : p.latch = false) :
    p.procSignalBarrierPending = false ∧ p.procDiePending = false ∧
      p.configReloadPending = false := by
  have h := pendingOk_reachable hs p hp
  refine ⟨?_, ?_, ?_⟩
  · by_contra hb
    have hplace := h.barrier hlatch (by simpa using hb)
    simp [hpc, MainPc.ending] at hplace
  · by_contra hd
    have hplace := h.die hlatch (by simpa using hd)
    simp [hpc, MainPc.ending] at hplace
  · by_contra hr
    have hplace := h.reload hlatch (by simpa using hr)
    simp [hpc, MainPc.ending] at hplace

/-- The worker has made its exporter and waits. -/
def upAndWaiting (pid : UInt32) : List (Label ClickHouseExporter sampleConfig) :=
  [.start pid bootSettings, .storePid, .exporterInit (some ⟨{}, made_clickHouse⟩) System.allOk]

/-- It finds nothing to export, and waits again. -/
def emptyRound : List (Label ClickHouseExporter sampleConfig) :=
  [.work (.beginExport System.allOk), .work (.dequeue {}), .work .dequeueStep,
    .work (.exportEvents System.allOk), .batchDone]

/-- The settings are reloaded on the way. -/
def reloads : List (Label ClickHouseExporter sampleConfig) :=
  upAndWaiting 7 ++ [.signal .sighup, .wait false, .resetLatch, .processBarrier,
    .checkForInterrupts, .handleConfigReload bootSettings] ++ emptyRound

theorem sample_reachable (ls : List (Label ClickHouseExporter sampleConfig)) :
    (machine ClickHouseExporter sampleConfig).toSpec.Reachable
      ((machine ClickHouseExporter sampleConfig).run sample ls) :=
  (machine ClickHouseExporter sampleConfig).run_reachable _ (.init sample_init) ls

theorem never_waits_pending_reloads :
    ∃ p, ((machine ClickHouseExporter sampleConfig).run sample reloads).process = some p ∧
      p.procSignalBarrierPending = false ∧ p.procDiePending = false ∧
      p.configReloadPending = false :=
  ⟨{ myProcPid := 7, pc := .waitLatch }, by decide +kernel,
    never_waits_pending _ (sample_reachable reloads) { myProcPid := 7, pc := .waitLatch }
      (by decide +kernel) rfl rfl⟩

/-! ## Barriers -/

/-- After the one call, where a process with a pending barrier can be. -/
def Called (sys : System ε cfg) : MainPc → Prop
  | .draining => sys.pc ≠ .calling
  | .waitLatch | .resetLatch | .barriers | .exiting | .exited => True
  | _ => False

/-- With a barrier pending, there was no call, or one and the next is not yet due. -/
def BarrierOk (s : Bgworker ε cfg) (p : WorkerProcess) : Prop :=
  p.procSignalBarrierPending = true → s.callsSince = 0 ∨ s.callsSince = 1 ∧ Called s.sys p.pc

theorem Moves.barrierOk {p : WorkerProcess} (h : BarrierOk s p) (hmoves : Moves s p s') :
    Running (BarrierOk s') s' := by
  intro q hq hb
  cases hmoves with
  | startupFails | exporterShutdown => cases hq
  | processBarrier | live | errfinish =>
    cases hq
    cases hb
  | notMade | notInitialized | notReported | die | procExit | setBgworkerPid
  | resetLatch | batchNext | wait | batchLast =>
    cases hq
    exact (h hb).imp id fun hone => ⟨hone.1, trivial⟩
  | storePid hpc | made _ _ _ _ hpc =>
    cases hq
    refine (h hb).imp id fun hone => absurd hone.2 ?_
    rw [hpc]
    exact id

theorem Step.barrierOk {l : Label ε cfg} (h : Running (BarrierOk s) s) (hstep : Step s l s') :
    Running (BarrierOk s') s' := by
  cases hstep with
  | start =>
    intro q hq hb
    cases hq
    cases hb
  | moves l p s' hp hmoves => exact hmoves.barrierOk (h p hp)
  | reload file p sys hp hpc hsys =>
    intro q hq hb
    cases hq
    refine (h p hp hb).imp id fun hone => absurd hone.2 ?_
    rw [hpc]
    exact id
  | work l p sys hp hpc hl hsys =>
    intro q hq hb
    have hq' : s.process = some q := by cases l <;> exact hq
    rw [hp] at hq'
    cases hq'
    have hstep := System.step_cases hsys
    have hold := h p hp hb
    rw [hpc] at hold
    -- the call that begins is the first, since the next was not yet due
    cases hstep with
    | connected plan x hcalling hx | notConnected plan x hcalling hx =>
      rcases hold with hzero | ⟨-, hcalled⟩
      · refine Or.inr ⟨congrArg (· + 1) hzero, ?_⟩
        rw [hpc]
        intro hagain
        cases hagain
      · exact absurd hcalling hcalled
    | queue | wake | sleep | again => cases hl
    | dequeue _ _ hin | dequeueInside _ _ _ _ _ hin =>
      refine hold.imp id fun hone => ⟨hone.1, ?_⟩
      rw [hpc]
      exact hone.2
    | full | dequeueEmpty | dequeueTaken | exported =>
      refine hold.imp id fun hone => ⟨hone.1, ?_⟩
      rw [hpc]
      intro hagain
      cases hagain
  | signal sig p hp =>
    intro q hq hb
    cases hq
    by_cases hnew : sig = .barrier ∧ p.procSignalBarrierPending = false
    · exact Or.inl (if_pos hnew)
    · have hpc : (p.handle sig).pc = p.pc := by cases sig <;> rfl
      have hpending : p.procSignalBarrierPending = true := by
        cases sig with
        | barrier => simpa using hnew
        | sighup | sigterm => exact hb
      have hcalls : (if sig = .barrier ∧ p.procSignalBarrierPending = false then 0
          else s.callsSince) = s.callsSince := if_neg hnew
      refine (h p hp hpending).imp hcalls.trans fun hone => ⟨hcalls.trans hone.1, ?_⟩
      rw [hpc]
      exact hone.2
  | dieInside plan k c p hp hpc =>
    intro q hq hb
    cases hq
    exact (h p hp hb).imp id fun hone => ⟨hone.1, trivial⟩
  | vanish =>
    intro q hq
    cases hq
  | killed b recycled p hp =>
    intro q hq hb
    cases hq
    exact h p hp hb
  | queue l q hl hq =>
    intro p hp hb
    refine (h p hp hb).imp id fun hone => ⟨hone.1, ?_⟩
    have hcalled := hone.2
    revert hcalled
    cases p.pc <;> exact id
  | notRunning | flush | strayed | noSuchProcess | clear => exact h

/-- While a barrier is pending, `PschExportBatch` is called at most once more. -/
theorem barrier_within_a_call (s : Bgworker ε cfg) (hs : (machine ε cfg).toSpec.Reachable s)
    (p : WorkerProcess) (hp : s.process = some p) (hb : p.procSignalBarrierPending = true) :
    s.callsSince ≤ 1 := by
  have h : Running (BarrierOk s) s := by
    clear hp hb
    induction hs with
    | init h =>
      obtain ⟨queue, exporter, settings, -, -, rfl⟩ := h
      intro p hp
      cases hp
    | step _ hnext ih =>
      obtain ⟨l, hl⟩ := hnext
      exact (step_cases hl).barrierOk ih
  rcases h p hp hb with hzero | ⟨hone, -⟩
  · omega
  · omega

/-- A barrier is raised just after the worker has looked for one. -/
def barrierLate : List (Label ClickHouseExporter sampleConfig) :=
  upAndWaiting 7 ++ [.wait true, .resetLatch, .processBarrier, .checkForInterrupts,
    .signal .barrier, .handleConfigReload bootSettings, .work (.beginExport System.allOk)]

theorem barrier_within_a_call_late :
    let s := (machine ClickHouseExporter sampleConfig).run sample barrierLate
    s.callsSince = 1 ∧ s.callsSince ≤ 1 :=
  ⟨by decide +kernel,
    barrier_within_a_call _ (sample_reachable barrierLate)
      { myProcPid := 7, latch := true, procSignalBarrierPending := true, pc := .draining }
      (by decide +kernel) rfl⟩

/-! ## The pid -/

/-- What a call of `PschSignalFlush` knows of the pid it has read. -/
def FlushOk (s : Bgworker ε cfg) : FlushPc → Prop
  | .idle => True
  | .kill pid => pid ∈ s.pids
  | .clear pid => pid ∈ s.pids ∧ ∀ p, s.process = some p → p.myProcPid = pid →
    pid ∈ s.pids.dropLast

structure PidOk (s : Bgworker ε cfg) : Prop where
  last : ∀ p, s.process = some p → s.pids.getLast? = some p.myProcPid
  nonzero : ∀ p, s.process = some p → p.myProcPid ≠ 0
  known : s.bgworkerPid ≠ 0 → s.bgworkerPid ∈ s.pids
  flush : ∀ b, FlushOk s (s.flush b)
  own : s.crashed = false → s.bgworkerPid ≠ 0 → ∃ p, s.process = some p ∧
    p.pc.registered = true ∧ s.bgworkerPid = p.myProcPid
  stored : ∀ p, s.process = some p → p.pc.registered = true →
    p.myProcPid ∉ s.pids.dropLast → s.bgworkerPid = p.myProcPid

omit [StatsExporter ε] in
theorem PidOk.zero (h : PidOk s) (hcrashed : s.crashed = false)
    (hnone : ∀ p, s.process = some p → p.pc.registered = false) : s.bgworkerPid = 0 := by
  by_contra hne
  obtain ⟨p, hp, hreg, -⟩ := h.own hcrashed hne
  rw [hnone p hp] at hreg
  cases hreg

omit [StatsExporter ε] in
/-- Only the pids matter. -/
theorem FlushOk.same {pc : FlushPc} (h : FlushOk s pc) (hpids : s'.pids = s.pids)
    (hpid : ∀ q, s'.process = some q → ∃ p, s.process = some p ∧ p.myProcPid = q.myProcPid) :
    FlushOk s' pc := by
  cases pc with
  | idle => trivial
  | kill pid =>
    change pid ∈ s'.pids
    rw [hpids]
    exact h
  | clear pid =>
    refine ⟨by rw [hpids]; exact h.1, fun q hq heq => ?_⟩
    obtain ⟨p, hp, hsame⟩ := hpid q hq
    rw [hpids]
    exact h.2 p hp (hsame.trans heq)

omit [StatsExporter ε] in
/-- The process goes on under its pid. -/
theorem PidOk.goesOn (h : PidOk s) {p q : WorkerProcess} (hp : s.process = some p)
    (hq : s'.process = some q) (hpid : q.myProcPid = p.myProcPid)
    (hreg : q.pc.registered = p.pc.registered) (hpids : s'.pids = s.pids)
    (hstored : s'.bgworkerPid = s.bgworkerPid) (hflush : s'.flush = s.flush)
    (hcrashed : s'.crashed = s.crashed) : PidOk s' := by
  refine ⟨?_, ?_, ?_, fun b => ?_, ?_, ?_⟩
  · intro r hr
    rw [hq] at hr
    cases hr
    rw [hpids, hpid]
    exact h.last p hp
  · intro r hr
    rw [hq] at hr
    cases hr
    rw [hpid]
    exact h.nonzero p hp
  · rw [hstored, hpids]
    exact h.known
  · rw [hflush]
    refine (h.flush b).same hpids fun r hr => ⟨p, hp, ?_⟩
    rw [hq] at hr
    cases hr
    exact hpid.symm
  · rw [hcrashed, hstored]
    intro hc hne
    obtain ⟨r, hr, hregistered, heq⟩ := h.own hc hne
    rw [hp] at hr
    cases hr
    exact ⟨q, hq, hreg.trans hregistered, heq.trans hpid.symm⟩
  · intro r hr hregistered hfresh
    rw [hq] at hr
    cases hr
    rw [hpids, hpid] at hfresh
    rw [hstored, hpid]
    exact h.stored p hp (hreg.symm.trans hregistered) hfresh

omit [StatsExporter ε] in
/-- A process that has taken its pid out of shared memory, or never stored it, is gone. -/
theorem PidOk.gone (h : PidOk s) {p : WorkerProcess} (hp : s.process = some p)
    (hreg : p.pc.registered = false) : PidOk { s with process := none } := by
  refine ⟨fun q hq => (by cases hq), fun q hq => (by cases hq), h.known,
    fun b => (h.flush b).same rfl fun q hq => (by cases hq), ?_, fun q hq => by cases hq⟩
  intro hcrashed hne
  refine absurd (h.zero hcrashed fun q hq => ?_) hne
  rw [hp] at hq
  cases hq
  exact hreg

omit [StatsExporter ε] in
/-- One call of `PschSignalFlush` goes on. -/
theorem PidOk.setFlush (h : PidOk s) {b : cfg.Proc} {pc : FlushPc} (hpc : FlushOk s pc) :
    PidOk (s.setFlush b pc) := by
  have hsame : ∀ {pc : FlushPc}, FlushOk s pc → FlushOk (s.setFlush b pc) pc := by
    intro pc hpc
    exact hpc.same rfl fun q hq => ⟨q, hq, rfl⟩
  refine ⟨h.last, h.nonzero, h.known, fun b' => ?_, h.own, h.stored⟩
  by_cases hb : b' = b
  · subst hb
    have hthis : (s.setFlush b' pc).flush b' = pc := Function.update_self ..
    rw [hthis]
    exact hsame hpc
  · have hother : (s.setFlush b pc).flush b' = s.flush b' := Function.update_of_ne hb ..
    rw [hother]
    exact (h.flush b').same rfl fun q hq => ⟨q, hq, rfl⟩

theorem Moves.pidOk {p : WorkerProcess} (h : PidOk s) (hp : s.process = some p)
    (hmoves : Moves s p s') : PidOk s' := by
  have hflush : ∀ (q : WorkerProcess) (pid : UInt32) (b : cfg.Proc), q.myProcPid = p.myProcPid →
      FlushOk { s.setProcess q with bgworkerPid := pid } (s.flush b) := by
    intro q pid b hq
    refine (h.flush b).same rfl fun r hr => ⟨p, hp, ?_⟩
    cases hr
    exact hq.symm
  cases hmoves with
  | startupFails hpc | exporterShutdown hpc => exact h.gone hp (by rw [hpc]; rfl)
  | storePid hpc =>
    have hlast := h.last p hp
    refine ⟨?_, ?_, fun _ => List.mem_of_getLast? hlast, fun b => hflush _ _ b rfl, ?_, ?_⟩
    · intro q hq
      cases hq
      exact hlast
    · intro q hq
      cases hq
      exact h.nonzero p hp
    · exact fun _ _ => ⟨_, rfl, rfl, rfl⟩
    · intro q hq _ _
      cases hq
      rfl
  | setBgworkerPid hpc =>
    refine ⟨?_, ?_, fun hne => absurd rfl hne, fun b => hflush _ _ b rfl,
      fun _ hne => absurd rfl hne, ?_⟩
    · intro q hq
      cases hq
      exact h.last p hp
    · intro q hq
      cases hq
      exact h.nonzero p hp
    · intro q hq hreg
      cases hq
      cases hreg
  | procExit hout =>
    refine h.goesOn hp rfl rfl ?_ rfl rfl rfl rfl
    revert hout
    cases p.pc <;> simp [MainPc.outside, MainPc.registered]
  | errfinish => exact h.goesOn hp rfl rfl rfl rfl rfl rfl rfl
  | made _ _ _ _ hpc | notInitialized _ _ _ _ hpc | notReported _ hpc | batchLast _ hpc | batchNext _ hpc
  | notMade hpc | wait hpc | resetLatch hpc | processBarrier hpc | die hpc | live hpc =>
    exact h.goesOn hp rfl rfl (by rw [hpc]; rfl) rfl rfl rfl rfl

theorem Step.pidOk {l : Label ε cfg} (h : PidOk s) (hstep : Step s l s') : PidOk s' := by
  cases hstep with
  | start pid settings hnone hpid hcrashed =>
    have hzero : s.bgworkerPid = 0 := h.zero hcrashed fun p hp => by
      rw [hnone] at hp
      cases hp
    refine ⟨?_, ?_, fun hne => absurd hzero hne, fun b => ?_, fun _ hne => absurd hzero hne, ?_⟩
    · intro q hq
      cases hq
      simp
    · intro q hq
      cases hq
      exact hpid
    · -- every pid that a call has read is now one of an earlier process
      have hb := h.flush b
      change FlushOk _ (s.flush b)
      cases hf : s.flush b with
      | idle => trivial
      | kill pid' =>
        rw [hf] at hb
        exact List.mem_append_left _ hb
      | clear pid' =>
        rw [hf] at hb
        refine ⟨List.mem_append_left _ hb.1, fun _ _ _ => ?_⟩
        simpa using hb.1
    · intro q hq hreg
      cases hq
      cases hreg
  | moves l p s' hp hmoves => exact hmoves.pidOk h hp
  | reload file p sys hp hpc hsys =>
    refine h.goesOn hp rfl rfl ?_ rfl rfl rfl rfl
    rw [hpc]
    dsimp only
    split <;> rfl
  | work l p sys hp hpc hl hsys =>
    cases l <;> exact h.goesOn hp hp rfl rfl rfl rfl rfl rfl
  | signal sig p hp =>
    cases sig <;> exact h.goesOn hp rfl rfl rfl rfl rfl rfl rfl
  | dieInside plan k c p hp hpc =>
    exact h.goesOn hp rfl rfl (by rw [hpc]; rfl) rfl rfl rfl rfl
  | vanish plan k c p hp =>
    exact ⟨fun q hq => (by cases hq), fun q hq => (by cases hq), h.known,
      fun b => (h.flush b).same rfl fun q hq => (by cases hq),
      fun hcrashed => (by cases hcrashed), fun q hq => by cases hq⟩
  | notRunning => exact h
  | flush b hne => exact h.setFlush (h.known hne)
  | killed b recycled p hp hb =>
    have hidle : PidOk (s.setFlush b .idle) := h.setFlush trivial
    exact hidle.goesOn hp rfl rfl rfl rfl rfl rfl rfl
  | strayed b => exact h.setFlush trivial
  | noSuchProcess b recycled pid hb hother =>
    have hkill := h.flush b
    rw [hb] at hkill
    exact h.setFlush ⟨hkill, fun p hp heq => absurd heq (hother p hp)⟩
  | clear b expected hb =>
    have hexpected := h.flush b
    rw [hb] at hexpected
    have hidle : PidOk (s.setFlush b .idle) := h.setFlush trivial
    by_cases heq : s.bgworkerPid = expected
    · have hzero : (if s.bgworkerPid = expected then 0 else s.bgworkerPid) = 0 := if_pos heq
      refine ⟨h.last, h.nonzero, fun hne => absurd hzero hne,
        fun b' => (hidle.flush b').same rfl fun q hq => ⟨q, hq, rfl⟩,
        fun _ hne => absurd hzero hne, fun p hp hreg hfresh => ?_⟩
      -- the pid that is cleared is not a fresh one
      have hpid : p.myProcPid = expected := (h.stored p hp hreg hfresh).symm.trans heq
      refine absurd ?_ hfresh
      rw [hpid]
      exact hexpected.2 p hp hpid
    · rw [if_neg heq]
      exact hidle
  | queue l q hl hq =>
    exact ⟨h.last, h.nonzero, h.known, fun b => (h.flush b).same rfl fun q hq => ⟨q, hq, rfl⟩,
      h.own, h.stored⟩

theorem pidOk_reachable (hs : (machine ε cfg).toSpec.Reachable s) : PidOk s := by
  refine Spec.Reachable.invariant ?_ ?_ hs
  · rintro s ⟨queue, exporter, settings, -, -, rfl⟩
    exact ⟨fun p hp => (by cases hp), fun p hp => (by cases hp), fun hne => absurd rfl hne,
      fun _ => trivial, fun _ hne => absurd rfl hne, fun p hp => by cases hp⟩
  · rintro s s' h ⟨l, hl⟩
    exact (step_cases hl).pidOk h

/-- As long as no worker was killed, the pid in shared memory is 0 or that of the running worker;
and a worker whose pid no earlier one had finds its own there from the moment it stores it to the
moment it ends. -/
theorem stored_pid (s : Bgworker ε cfg) (hs : (machine ε cfg).toSpec.Reachable s) :
    (s.crashed = false → s.bgworkerPid ≠ 0 → ∃ p, s.process = some p ∧
      s.bgworkerPid = p.myProcPid) ∧
    ∀ p, s.process = some p → p.pc.registered = true → p.myProcPid ∉ s.pids.dropLast →
      s.bgworkerPid = p.myProcPid := by
  have h := pidOk_reachable hs
  refine ⟨fun hcrashed hne => ?_, h.stored⟩
  obtain ⟨p, hp, -, heq⟩ := h.own hcrashed hne
  exact ⟨p, hp, heq⟩

/-- A flush finds worker 7 gone; before it clears the pid, another worker is up. -/
def clearsLate (pid : UInt32) : List (Label ClickHouseExporter sampleConfig) :=
  upAndWaiting 7 ++ [.flush proc₀, .procExit, .setBgworkerPid, .exporterShutdown,
    .kill proc₀ false] ++ upAndWaiting pid ++ [.clear proc₀]

/-- A worker with a pid of its own is not harmed; one that got the old pid is. -/
theorem stored_pid_clearsLate :
    let s := (machine ClickHouseExporter sampleConfig).run sample (clearsLate 8)
    let s' := (machine ClickHouseExporter sampleConfig).run sample (clearsLate 7)
    (s.process = some { myProcPid := 8, pc := .waitLatch } ∧ s.pids = [7, 8] ∧
      s.bgworkerPid = 8 ∧ ∃ p, s.process = some p ∧ s.bgworkerPid = p.myProcPid) ∧
    s'.process = some { myProcPid := 7, pc := .waitLatch } ∧ s'.pids = [7, 7] ∧
      s'.bgworkerPid = 0 := by
  intro s s'
  have hprocess : s.process = some { myProcPid := 8, pc := .waitLatch } := by decide +kernel
  have hpids : s.pids = [7, 8] := by decide +kernel
  obtain ⟨hown, hfresh⟩ := stored_pid s (sample_reachable (clearsLate 8))
  have hstored : s.bgworkerPid = 8 := hfresh _ hprocess rfl (by rw [hpids]; decide)
  exact ⟨⟨hprocess, hpids, hstored, hown (by decide +kernel) (by rw [hstored]; decide)⟩,
    by decide +kernel⟩

end Bgworker

end PgStatCh
