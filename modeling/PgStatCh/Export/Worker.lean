import PgStatCh.Export.OTelOutcome
import PgStatCh.Export.System
import PgStatCh.Queue.Ring

/-!
# Export.Worker — what every step of the worker keeps

What a step of the system can do (`Step`), and the invariants that hold in every run:
the queue behaves as `Queue` says, a batch is never larger than `psch_batch_max`, and
there is a connection once the dequeuing begins.
-/

namespace PgStatCh

open Lib Tla Prog StatsExporter

/-! ## The ring, seen from the worker -/

namespace Shmem

variable {cfg : Config} {s s' : Shmem cfg}

/-- Neither the state nor the results of `PschDequeueEvent` change. -/
structure SameConsumer (s s' : Shmem cfg) : Prop where
  worker : s'.worker = s.worker
  returned : s'.returned = s.returned

theorem tryStep_sameConsumer {b : cfg.Proc} {a : Answer} {force : Bool} {ret : Option Bool}
    (h : s.tryStep b a force = some (s', ret)) : SameConsumer s s' := by
  unfold tryStep at h
  split at h
  · cases h
  · cases h
  · cases h
    exact ⟨rfl, rfl⟩
  · split at h <;> cases h <;> exact ⟨rfl, rfl⟩
  · cases h
    exact ⟨rfl, rfl⟩
  · cases h
    exact ⟨rfl, rfl⟩
  · simp only [Option.map_eq_some_iff, Prod.exists, Prod.mk.injEq] at h
    obtain ⟨m', slot', pc', -, rfl, -⟩ := h
    exact ⟨rfl, rfl⟩
  · cases h
    exact ⟨rfl, rfl⟩

/-- Only the consumer's steps concern the consumer. -/
theorem sameConsumer_of_step {l : Label cfg} (hl : l.isDequeue = false)
    (h : step l s = some s') : SameConsumer s s' := by
  cases l with
  | acquire b | release b | acquireOther | releaseOther | beginEnqueue b e =>
    simp only [step, Shmem.acquire, Shmem.release, Shmem.beginEnqueue] at h
    split at h <;> cases h
    exact ⟨rfl, rfl⟩
  | tryStep b a force =>
    simp only [step, Option.map_eq_some_iff, Prod.exists] at h
    obtain ⟨s₁, ret, htry, rfl⟩ := h
    exact tryStep_sameConsumer htry
  | handleOverflow b =>
    cases h
    exact ⟨rfl, rfl⟩
  | beginDequeue buf | dequeueStep => cases hl

end Shmem

/-- How many steps `PschDequeueEvent` still makes on the slot it reads. -/
def ConsumePc.left : ConsumePc → ℕ
  | .copyPrefix => 8
  | .resolveErr => 7
  | .freeErr => 6
  | .resolveQuery => 5
  | .release .read => 4
  | .release (.drop _) => 3
  | .release (.free _) => 2
  | .release .done => 1

/-- How many steps the worker still makes for this event, at most. -/
def Worker.left : Worker → ℕ
  | .idle => 10
  | .readTail _ _ => 9
  | .reading _ _ pc => pc.left

theorem releaseStep_left {m m' : Mem} {ref : DsaPointer} {pc pc' : ReleasePc}
    (h : releaseStep m ref pc = some (m', pc')) :
    (ConsumePc.release pc').left < (ConsumePc.release pc).left := by
  cases pc with
  | read =>
    simp only [releaseStep] at h
    split at h
    · cases h
      decide
    · split at h
      · cases h
        decide
      · cases h
        split <;> simp [ConsumePc.left]
  | drop key =>
    simp only [releaseStep] at h
    split at h
    · cases h
      simp [ConsumePc.left]
    · split at h
      · split at h <;> cases h <;> simp [ConsumePc.left]
      · cases h
        simp [ConsumePc.left]
  | free p =>
    cases h
    simp [ConsumePc.left]
  | done => cases h

theorem resolveErr_left (m : Mem) (slot : PschRingEntry) (event : PschEvent) :
    (resolveErr m slot event).2.2.left < ConsumePc.resolveErr.left := by
  unfold resolveErr
  split
  · simp [ConsumePc.left]
  · simp only
    split
    · split <;> simp [ConsumePc.left]
    · simp [ConsumePc.left]

theorem consumeStep_left {m m' : Mem} {slot : PschRingEntry} {event event' : PschEvent}
    {pc pc' : ConsumePc} (h : consumeStep m slot event pc = some (m', event', pc')) :
    pc'.left < pc.left := by
  unfold consumeStep at h
  split at h
  · cases h
    simp [ConsumePc.left]
  · have hleft := resolveErr_left m slot event
    rw [Option.some.inj h] at hleft
    exact hleft
  · cases h
    simp [ConsumePc.left]
  · cases h
    simp [ConsumePc.left]
  · cases h
  · simp only [Option.map_eq_some_iff, Prod.exists, Prod.mk.injEq] at h
    obtain ⟨m₁, pc₁, hrel, rfl, rfl, rfl⟩ := h
    exact releaseStep_left hrel

/-- `consumeStep` always has a next step before the end. -/
theorem consumeStep_isSome (m : Mem) (slot : PschRingEntry) (event : PschEvent) {pc : ConsumePc}
    (hpc : pc ≠ .release .done) : (consumeStep m slot event pc).isSome := by
  cases pc with
  | release pc =>
    cases pc with
    | read =>
      simp only [consumeStep, releaseStep, Option.isSome_map]
      split
      · rfl
      · split <;> rfl
    | drop key =>
      simp only [consumeStep, releaseStep, Option.isSome_map]
      split
      · rfl
      · split
        · split <;> rfl
        · rfl
    | free p => rfl
    | done => exact absurd rfl hpc
  | _ => rfl

namespace Shmem

variable {cfg : Config} {s s' : Shmem cfg}

/-- What a step of `PschDequeueEvent` can do. -/
inductive DequeueStep (s : Shmem cfg) : Shmem cfg → Prop where
  | inside (m' : Mem) (tail : UInt64) (out : PschEvent) (pc : ConsumePc) :
    s.dequeueReturns = none → pc.left < s.worker.left →
    DequeueStep s { s with mem := m', worker := .reading tail out pc }
  | empty (buf : PschEvent) : s.worker = .readTail buf s.tail → s.dequeueReturns = some none →
    DequeueStep s { s with worker := .idle }
  | taken (tail : UInt64) (out : PschEvent) : s.worker = .reading tail out (.release .done) →
    s.dequeueReturns = some (some out) →
    DequeueStep s { s with tail := tail + 1, worker := .idle, returned := s.returned ++ [out] }

theorem dequeueStep_inv (h : s.dequeueStep = some s') : DequeueStep s s' := by
  unfold dequeueStep at h
  split at h
  · cases h
  · next buf head hw =>
    split at h
    · next heq =>
      cases h
      subst heq
      exact .empty buf hw (by simp [dequeueReturns, hw])
    · next hne =>
      cases h
      exact .inside s.mem _ _ _ (by simp [dequeueReturns, hw, hne])
        (by simp [hw, Worker.left, ConsumePc.left])
  · next tail out hw =>
    cases h
    exact .taken tail out hw (by simp [dequeueReturns, hw])
  · next tail out pc hpc hw =>
    simp only [Option.map_eq_some_iff, Prod.exists] at h
    obtain ⟨m', out', pc', hstep, rfl⟩ := h
    refine .inside m' tail out' pc' ?_ ?_
    · unfold dequeueReturns
      rw [hw]
      split
      · next heq => cases heq
      · next heq =>
        cases heq
        exact (hpc rfl).elim
      · rfl
    · rw [hw]
      exact consumeStep_left hstep

/-- `PschDequeueEvent` never blocks. -/
theorem dequeueStep_isSome (hw : s.worker ≠ .idle) : s.dequeueStep.isSome := by
  unfold dequeueStep
  split
  · next h => exact absurd h hw
  · split <;> rfl
  · rfl
  · next tail out pc hpc _ =>
    rw [Option.isSome_map]
    exact consumeStep_isSome _ _ _ fun h => hpc h

end Shmem

theorem Queue.sameConsumer_of_step {cfg : Config} {s s' : Queue cfg} {l : Queue.Label cfg}
    (hl : l.isDequeue = false) (h : Queue.step l s = some s') :
    Shmem.SameConsumer s.shmem s'.shmem := by
  rcases Queue.step_shmem h with hsame | ⟨l', hl', hstep⟩
  · rw [hsame]
    exact ⟨rfl, rfl⟩
  · exact Shmem.sameConsumer_of_step (hl'.trans hl) hstep

/-! ## What a step can do -/

namespace System

/-- What holds of a call that returns or is left by an ERROR, when the drain loop goes on. -/
theorem recovered_of_barred {ε α : Type} {x : ExportM ε α} {P : Option α → ExportState ε → Prop}
    {x₀ x₁ : ExportState ε} {initial r : α} (h : barred x P x₀)
    (hx : recovered initial (x x₀) = (r, x₁)) : ∃ r', P r' x₁ ∧ r = r'.getD initial := by
  cases hres : x x₀ with
  | ok r' x' =>
    rw [hres] at hx
    cases hx
    exact ⟨some r, wp_of_ok (Q := fun a s' => P (some a) s') hres h, rfl⟩
  | error e x' =>
    rw [hres] at hx
    cases hx
    exact ⟨none, (wp_of_error hres h).2, rfl⟩

variable {ε : Type} [StatsExporter ε] {cfg : Config} {s s' : System ε cfg}

/-- What a step of the system can do. -/
inductive Step (s : System ε cfg) : Label cfg → System ε cfg → Prop where
  | queue (l : Queue.Label cfg) (q : Queue cfg) : l.isDequeue = false →
    Queue.step l s.queue = some q → Step s (.queue l) { s with queue := q }
  | wake (settings : Settings) : s.pc = .sleeping →
    Step s (.wake settings) { s.goOn settings with failed := false }
  | connected (plan : Plan) (x : ExportState ε) : s.pc = .calling →
    recovered false (PgStatCh.beginExport plan s.exportState) = (true, x) →
    Step s (.beginExport plan) { s with exportState := x, pc := .dequeuing [] }
  | notConnected (plan : Plan) (x : ExportState ε) : s.pc = .calling →
    recovered false (PgStatCh.beginExport plan s.exportState) = (false, x) →
    Step s (.beginExport plan)
      { s with exportState := x, pc := .returned 0, lastAcked := 0, failed := true }
  | dequeue (buf : PschEvent) (events : List PschEvent) : s.pc = .dequeuing events →
    events.length < s.settings.batchMax → s.queue.shmem.worker = .idle →
    Step s (.dequeue buf) { s with
      queue.shmem.worker := .readTail buf s.queue.shmem.head }
  | full (buf : PschEvent) (events : List PschEvent) : s.pc = .dequeuing events →
    s.settings.batchMax ≤ events.length →
    Step s (.dequeue buf) { s with pc := .exporting events }
  | dequeueInside (events : List PschEvent) (m' : Mem) (tail : UInt64) (out : PschEvent)
      (pc : ConsumePc) : s.pc = .dequeuing events → s.queue.shmem.worker ≠ .idle →
    pc.left < s.queue.shmem.worker.left →
    Step s .dequeueStep { s with
      queue.shmem.mem := m'
      queue.shmem.worker := .reading tail out pc }
  | dequeueEmpty (events : List PschEvent) (buf : PschEvent) : s.pc = .dequeuing events →
    s.queue.shmem.worker = .readTail buf s.queue.shmem.tail →
    Step s .dequeueStep { s with queue.shmem.worker := .idle, pc := .exporting events }
  | dequeueTaken (events : List PschEvent) (tail : UInt64) (out : PschEvent) :
    s.pc = .dequeuing events → s.queue.shmem.worker = .reading tail out (.release .done) →
    Step s .dequeueStep { s with
      queue.shmem.tail := tail + 1
      queue.shmem.worker := .idle
      queue.shmem.returned := s.queue.shmem.returned ++ [out]
      pc := .dequeuing (events ++ [out]) }
  | exported (plan : Plan) (events : List PschEvent) (exported : ℕ) (x : ExportState ε) :
    s.pc = .exporting events →
    recovered 0 (PgStatCh.exportEvents plan s.settings events { s.exportState with sent := 0 }) =
      (exported, x) →
    Step s (.exportEvents plan) { s with
      exportState := x
      pc := .returned exported
      lastAcked := x.acked.flatten.length - s.exportState.acked.flatten.length
      failed := s.failed ||
        decide (x.acked.flatten.length - s.exportState.acked.flatten.length < events.length) }
  | sleep (settings : Settings) (n : ℕ) : s.pc = .returned n → n < s.settings.batchMax →
    Step s (.loop settings) { s with pc := .sleeping }
  | again (settings : Settings) (n : ℕ) : s.pc = .returned n → s.settings.batchMax ≤ n →
    Step s (.loop settings) (s.goOn settings)

theorem step_cases {l : Label cfg} (h : step l s = some s') : Step s l s' := by
  cases l with
  | queue l =>
    simp only [step] at h
    split at h
    · cases h
    · next hl =>
      simp only [Option.map_eq_some_iff] at h
      obtain ⟨q, hq, rfl⟩ := h
      exact .queue l q (by simpa using hl) hq
  | wake settings =>
    simp only [step] at h
    split at h
    · next hpc =>
      cases h
      exact .wake settings hpc
    · cases h
  | beginExport plan =>
    simp only [step] at h
    split at h
    · next hpc =>
      split at h
      · next x hx =>
        cases h
        exact .connected plan x hpc hx
      · next x hx =>
        cases h
        exact .notConnected plan x hpc hx
    · cases h
  | dequeue buf =>
    simp only [step] at h
    split at h
    · next events hpc =>
      split at h
      · next hlt =>
        simp only [Queue.step, Queue.shared, Shmem.step, Shmem.beginDequeue,
          Option.map_eq_some_iff] at h
        obtain ⟨q, ⟨sh', hsh, rfl⟩, rfl⟩ := h
        split at hsh
        · next hw =>
          cases hsh
          exact .dequeue buf events hpc hlt hw
        · cases hsh
      · next hge =>
        cases h
        exact .full buf events hpc (Nat.le_of_not_lt hge)
    · cases h
  | dequeueStep =>
    simp only [step] at h
    split at h
    · next events hpc =>
      simp only [Queue.step, Queue.shared, Shmem.step, Option.map_eq_some_iff] at h
      obtain ⟨q, ⟨sh', hsh, rfl⟩, rfl⟩ := h
      have hidle : s.queue.shmem.worker ≠ .idle := by
        intro hw
        simp [Shmem.dequeueStep, hw] at hsh
      -- what `PschDequeueEvent` returns decides where the loop goes on
      cases Shmem.dequeueStep_inv hsh with
      | inside m' tail out pc hret hleft =>
        rw [hret]
        exact .dequeueInside events m' tail out pc hpc hidle hleft
      | empty buf hw hret =>
        rw [hret]
        exact .dequeueEmpty events buf hpc hw
      | taken tail out hw hret =>
        rw [hret]
        exact .dequeueTaken events tail out hpc hw
    · cases h
  | exportEvents plan =>
    simp only [step] at h
    split at h
    · next events hpc =>
      cases h
      exact .exported plan events _ _ hpc rfl
    · cases h
  | loop settings =>
    simp only [step] at h
    split at h
    · next n hpc =>
      split at h
      · next hlt =>
        cases h
        exact .sleep settings n hpc hlt
      · next hge =>
        cases h
        exact .again settings n hpc (Nat.le_of_not_lt hge)
    · cases h

/-! ## The queue -/

theorem step_queue {l : Label cfg} (h : step l s = some s') :
    s'.queue = s.queue ∨ ∃ l', Queue.step l' s.queue = some s'.queue := by
  cases l with
  | queue l =>
    simp only [step] at h
    split at h
    · cases h
    · simp only [Option.map_eq_some_iff] at h
      obtain ⟨q, hq, rfl⟩ := h
      exact Or.inr ⟨l, hq⟩
  | dequeue buf =>
    simp only [step] at h
    split at h
    · split at h
      · simp only [Option.map_eq_some_iff] at h
        obtain ⟨q, hq, rfl⟩ := h
        exact Or.inr ⟨_, hq⟩
      · cases h
        exact Or.inl rfl
    · cases h
  | dequeueStep =>
    simp only [step] at h
    split at h
    · simp only [Option.map_eq_some_iff] at h
      obtain ⟨q, hq, rfl⟩ := h
      refine Or.inr ⟨.dequeueStep, ?_⟩
      split <;> exact hq
    · cases h
  | wake | beginExport | exportEvents | loop =>
    left
    cases step_cases h <;> rfl

/-- The system refines the queue. -/
theorem refines_queue (ε : Type) [StatsExporter ε] (cfg : Config) :
    Refinement (machine ε cfg).toSpec (Queue.machine cfg).toSpec System.queue where
  init := fun s hs => hs.1
  next := by
    rintro s s' - ⟨l, hstep⟩
    rcases step_queue hstep with hsame | ⟨l', hl'⟩
    · exact Or.inr hsame
    · exact Or.inl ⟨l', hl'⟩

theorem shmem_inv (hs : (machine ε cfg).toSpec.Reachable s) : Shmem.Inv s.queue.shmem :=
  Shmem.inv_reachable (Queue.shmem_reachable ((refines_queue ε cfg).reachable hs))

/-! ## The worker -/

/-- What holds where the worker is. -/
def PcOk (s : System ε cfg) : WorkerPc → Prop
  | .dequeuing events =>
    isConnected s.exportState.exporter = true ∧ events.length ≤ s.settings.batchMax ∧
    (s.queue.shmem.worker ≠ .idle → events.length < s.settings.batchMax)
  | .exporting events =>
    isConnected s.exportState.exporter = true ∧ events.length ≤ s.settings.batchMax ∧
    s.queue.shmem.worker = .idle
  | _ => s.queue.shmem.worker = .idle

theorem PcOk.goOn (hidle : s.queue.shmem.worker = .idle) (settings : Settings) :
    (s.goOn settings).PcOk (s.goOn settings).pc := by
  simp only [System.goOn]
  split <;> exact hidle

variable [Scheduled ε] [LawfulExporter ε]

structure Inv (s : System ε cfg) : Prop where
  wf : LawfulExporter.WF s.exportState.exporter
  pc : s.PcOk s.pc

theorem Inv.pc_of (hi : Inv s) {pc : WorkerPc} (hpc : s.pc = pc) : s.PcOk pc := by
  rw [← hpc]
  exact hi.pc

/-- What becomes of a call before the dequeuing. -/
theorem beginExport_report (hi : Inv s) {plan : Plan} {ok : Bool} {x : ExportState ε}
    (hx : recovered false (PgStatCh.beginExport plan s.exportState) = (ok, x)) :
    LawfulExporter.WF x.exporter ∧ x.acked = s.exportState.acked ∧
      x.exported = s.exportState.exported ∧
      (ok = true ∧ isConnected x.exporter = true ∨
        ok = false ∧ ¬ plan.Served (openingAsks s.exportState.exporter)) := by
  obtain ⟨r, ⟨hwf, hbegins⟩, rfl⟩ := recovered_of_barred (barred_beginExport plan hi.wf) hx
  refine ⟨hwf, hbegins.same.1, hbegins.same.2, ?_⟩
  rcases hbegins with ⟨rfl, -, hexporter, -⟩ | ⟨a, new, -, hbroken, hr⟩
  · left
    rw [hexporter]
    exact ⟨rfl, isConnected_opened _⟩
  · right
    refine ⟨?_, Plan.not_served_of_firstFault hbroken.fault.first⟩
    rcases hr with ⟨rfl, -⟩ | ⟨rfl, -⟩ <;> rfl

/-- What becomes of a batch. -/
theorem exportEvents_ends (hi : Inv s) {plan : Plan} {events : List PschEvent} {ret : ℕ}
    {x : ExportState ε} (hpc : s.pc = .exporting events)
    (hx : recovered 0
      (PgStatCh.exportEvents plan s.settings events { s.exportState with sent := 0 }) = (ret, x)) :
    LawfulExporter.WF x.exporter ∧ ∃ r,
      Ends plan s.settings events { s.exportState with sent := 0 } r x ∧ ret = r.getD 0 := by
  have hconn := hi.pc_of hpc
  have hbarred := LawfulExporter.exportEvents plan s.settings events
    (s := { s.exportState with sent := 0 }) hi.wf hconn.1 rfl
  obtain ⟨r, ⟨hwf, hends⟩, hret⟩ := recovered_of_barred hbarred hx
  exact ⟨hwf, r, hends, hret⟩

/-- What the call reports about a batch. -/
theorem exportEvents_report (hi : Inv s) {plan : Plan} {events : List PschEvent} {ret : ℕ}
    {x : ExportState ε} (hpc : s.pc = .exporting events)
    (hx : recovered 0
      (PgStatCh.exportEvents plan s.settings events { s.exportState with sent := 0 }) = (ret, x)) :
    LawfulExporter.WF x.exporter ∧ ∃ new,
      Report plan (route s.exportState.exporter s.settings events) events s.exportState x ret new ∧
      x.acked.flatten.length - s.exportState.acked.flatten.length = new.flatten.length := by
  obtain ⟨hwf, r, hends, rfl⟩ := exportEvents_ends hi hpc hx
  obtain ⟨new, hacked, hle, hserved, hcounts, hreturns⟩ := hends.report
  refine ⟨hwf, new, ⟨hacked, hle, hserved, hcounts, hreturns⟩, ?_⟩
  rw [hacked]
  simp

theorem Inv.step (hi : Inv s) {l : Label cfg} (h : Step s l s') : Inv s' := by
  cases h with
  | queue l q hl hq =>
    refine ⟨hi.wf, ?_⟩
    have hsame := Queue.sameConsumer_of_step hl hq
    have hpc := hi.pc
    cases hs : s.pc with
    | dequeuing events =>
      -- the consumer is where it was
      rw [hs] at hpc
      refine ⟨hpc.1, hpc.2.1, fun hw => hpc.2.2 ?_⟩
      rwa [← hsame.worker]
    | exporting events =>
      rw [hs] at hpc
      exact ⟨hpc.1, hpc.2.1, hsame.worker.trans hpc.2.2⟩
    | sleeping | calling | returned =>
      rw [hs] at hpc
      exact hsame.worker.trans hpc
  | wake settings hpc =>
    have hok := hi.pc_of hpc
    exact ⟨hi.wf, PcOk.goOn (s := s) hok settings⟩
  | connected plan x hpc hx =>
    obtain ⟨hwf, -, -, ⟨-, hconn⟩ | ⟨hfalse, -⟩⟩ := beginExport_report hi hx
    · exact ⟨hwf, hconn, Nat.zero_le _, fun _ => s.settings.batchMax_range.1⟩
    · cases hfalse
  | notConnected plan x hpc hx =>
    have hok := hi.pc_of hpc
    exact ⟨(beginExport_report hi hx).1, hok⟩
  | dequeue buf events hpc hlt hw =>
    have hok := hi.pc_of hpc
    refine ⟨hi.wf, ?_⟩
    change PcOk _ s.pc
    rw [hpc]
    exact ⟨hok.1, hok.2.1, fun _ => hlt⟩
  | full buf events hpc hle =>
    have hok := hi.pc_of hpc
    -- the batch is full, so the loop did not begin another dequeuing
    refine ⟨hi.wf, hok.1, hok.2.1, ?_⟩
    by_contra hne
    exact absurd (hok.2.2 hne) (Nat.not_lt.mpr hle)
  | dequeueInside events m' tail out pc hpc hw =>
    have hok := hi.pc_of hpc
    refine ⟨hi.wf, ?_⟩
    change PcOk _ s.pc
    rw [hpc]
    exact ⟨hok.1, hok.2.1, fun _ => hok.2.2 hw⟩
  | dequeueEmpty events buf hpc hw =>
    have hok := hi.pc_of hpc
    exact ⟨hi.wf, hok.1, hok.2.1, rfl⟩
  | dequeueTaken events tail out hpc hw =>
    have hok := hi.pc_of hpc
    have hlt : events.length < s.settings.batchMax := hok.2.2 (by rw [hw]; nofun)
    refine ⟨hi.wf, hok.1, ?_, fun hne => absurd rfl hne⟩
    rw [List.length_append, List.length_singleton]
    exact hlt
  | exported plan events n x hpc hx =>
    have hok := hi.pc_of hpc
    exact ⟨(exportEvents_report hi hpc hx).1, hok.2.2⟩
  | sleep settings n hpc hlt =>
    have hok := hi.pc_of hpc
    exact ⟨hi.wf, hok⟩
  | again settings n hpc hle =>
    have hok := hi.pc_of hpc
    exact ⟨hi.wf, PcOk.goOn (s := s) hok settings⟩

theorem Inv.init (hs : Init s) : Inv s := by
  obtain ⟨⟨⟨start, slots, hsh⟩, -⟩, hpc, -, -, x, plan, ok, hmade, hx⟩ := hs
  have hwf : LawfulExporter.WF x := LawfulExporter.made hmade
  refine ⟨(wp_of_ok hx (LawfulExporter.connect plan hwf)).1, ?_⟩
  rw [hpc]
  change s.queue.shmem.worker = .idle
  rw [hsh]

theorem inv_reachable (hs : (machine ε cfg).toSpec.Reachable s) : Inv s := by
  refine Spec.Reachable.invariant (fun _ => Inv.init) ?_ hs
  rintro s s' hi ⟨l, hstep⟩
  exact hi.step (step_cases hstep)

end System

end PgStatCh
