import PgStatCh.Export.Delivery

/-!
# Export.Drain — the drain loop

`ExportBatchWithRecovery` goes on while `PschExportBatch` returns a full batch.

* As long as every call returns the number of events the backend acknowledged, a
  failed call ends the loop: nothing is dequeued until the worker has slept. With
  ClickHouse a failed insert returns the size of the batch instead, and the loop goes
  on dequeuing (`failed_batch_goes_on`).
* When nothing fails, no producer runs and `psch_enabled` stays on, every run of the
  loop ends, with the ring empty and every event exported once, in order. A measure
  (`rank`) falls with every step.
-/

namespace PgStatCh

open Lib Tla Prog StatsExporter

namespace System

/-! ## A failed call ends the loop -/

section Stops

variable {ε : Type} {cfg : Config} {s s' : System ε cfg}

/-- Every call returns the number of events acknowledged. -/
def BatchReturned [StatsExporter ε] [Scheduled ε] (s : System ε cfg) (l : Label cfg) : Prop :=
  ∀ plan, l = .exportEvents plan → s.pc.events ≠ [] → s.way.ReturnsExactly plan

/-- The call returned what was acknowledged, and after a failed one the worker is on
its way to sleep. -/
structure Stops (s : System ε cfg) : Prop where
  ret : ∀ n, s.pc = .returned n → n = s.lastAcked
  failed : s.failed = true →
    s.pc = .sleeping ∨ ∃ n, s.pc = .returned n ∧ n < s.settings.batchMax

theorem Stops.not_failed (h : Stops s) (hsleep : s.pc ≠ .sleeping)
    (hret : ∀ n, s.pc = .returned n → s.settings.batchMax ≤ n) : s.failed = false := by
  by_contra hfailed
  rw [Bool.not_eq_false] at hfailed
  rcases h.failed hfailed with hpc | ⟨n, hpc, hlt⟩
  · exact hsleep hpc
  · exact absurd hlt (Nat.not_lt.mpr (hret n hpc))

/-- The worker is inside `PschExportBatch`. -/
def inCall : WorkerPc → Bool
  | .calling => true
  | .dequeuing _ => true
  | .exporting _ => true
  | .sleeping => false
  | .returned _ => false

theorem ne_returned_of_inCall {pc : WorkerPc} (hin : inCall pc = true) (n : ℕ) :
    pc ≠ .returned n := by
  rintro rfl
  cases hin

/-- Inside a call nothing has failed yet. -/
theorem Stops.not_failed_inside (h : Stops s) (hin : inCall s.pc = true) : s.failed = false := by
  refine h.not_failed (fun hpc => ?_) fun n hpc => absurd hpc (ne_returned_of_inCall hin n)
  rw [hpc] at hin
  cases hin

/-- Before a call has returned or failed there is nothing to show. -/
theorem Stops.of_not_failed (hret : ∀ n, s.pc ≠ .returned n) (hgood : s.failed = false) :
    Stops s := by
  refine ⟨fun n hn => absurd hn (hret n), fun hfailed => ?_⟩
  rw [hgood] at hfailed
  cases hfailed

theorem goOn_pc_ne_returned (s : System ε cfg) (settings : Settings) (n : ℕ) :
    (s.goOn settings).pc ≠ .returned n := by
  intro hpc
  simp only [System.goOn] at hpc
  split at hpc <;> cases hpc

variable [StatsExporter ε]

/-- After a failed call nothing is dequeued. -/
theorem Stops.nothing_dequeued (h : Stops s) (hfailed : s.failed = true) {l : Label cfg}
    (hstep : Step s l s') : s'.queue.shmem.returned = s.queue.shmem.returned := by
  cases hstep with
  | queue l q hl hq => exact (Queue.sameConsumer_of_step hl hq).returned
  | dequeueTaken events tail out hpc hw =>
    rw [h.not_failed_inside (by rw [hpc]; rfl)] at hfailed
    cases hfailed
  | _ => rfl

variable [Scheduled ε] [LawfulExporter ε]

theorem Stops.step (hi : Inv s) (h : Stops s) {l : Label cfg} (hok : BatchReturned s l)
    (hstep : Step s l s') : Stops s' := by
  cases hstep with
  | queue l q hl hq => exact ⟨h.ret, h.failed⟩
  | wake settings hpc => exact .of_not_failed (goOn_pc_ne_returned s settings) rfl
  | connected plan x hpc hx =>
    exact .of_not_failed (ne_returned_of_inCall rfl) (h.not_failed_inside (by rw [hpc]; rfl))
  | notConnected plan x hpc hx =>
    refine ⟨?_, fun _ => Or.inr ⟨0, rfl, s.settings.batchMax_range.1⟩⟩
    rintro n hn
    cases hn
    rfl
  | dequeue | dequeueInside => exact ⟨h.ret, h.failed⟩
  | full _ _ hpc | dequeueEmpty _ _ hpc | dequeueTaken _ _ _ hpc =>
    exact .of_not_failed (ne_returned_of_inCall rfl) (h.not_failed_inside (by rw [hpc]; rfl))
  | exported plan events n x hpc hx =>
    have hgood := h.not_failed_inside (by rw [hpc]; rfl)
    obtain ⟨-, new, hreport, hacked⟩ := exportEvents_report hi hpc hx
    have hret : n = new.flatten.length := by
      refine hreport.returns ?_
      have hbatch := hok plan rfl
      rwa [way, hpc] at hbatch
    have hmax := hi.pc_of hpc
    refine ⟨fun k hk => ?_, fun hfailed => Or.inr ⟨n, rfl, ?_⟩⟩
    · cases hk
      exact hret.trans hacked.symm
    · -- fewer than the batch, which is at most `psch_batch_max`
      simp only [hgood, Bool.false_or, decide_eq_true_eq, hacked] at hfailed
      rw [hret]
      exact lt_of_lt_of_le hfailed hmax.2.1
  | sleep settings n hpc hlt =>
    exact ⟨fun k hk => (by cases hk), fun _ => Or.inl rfl⟩
  | again settings n hpc hle =>
    refine .of_not_failed (goOn_pc_ne_returned s settings) (h.not_failed (fun hsleep => ?_) ?_)
    · rw [hpc] at hsleep
      cases hsleep
    · intro k hk
      rw [hpc] at hk
      cases hk
      exact hle

theorem stops_reachable (hs : ((machine ε cfg).under BatchReturned).Reachable s) : Stops s := by
  refine Machine.invariant_under (fun _ => inv_reachable) ?_ ?_ hs
  · rintro s ⟨-, hpc, -, hfailed, -⟩
    exact ⟨fun n hn => by simp [hpc] at hn, fun h => by simp [hfailed] at h⟩
  · exact fun s s' l hi h hok hstep => h.step hi hok (step_cases hstep)

end Stops

/-! ## An undisturbed run of the loop -/

section Drains

variable {ε : Type} {cfg : Config} {s s' s₀ : System ε cfg}

/-- A step of the worker, inside the loop, at which nothing goes wrong and
`psch_enabled` stays on. -/
def Undisturbed [StatsExporter ε] [Scheduled ε] (s : System ε cfg) : Label cfg → Prop
  | .queue _ => False
  | .wake _ => False
  | .beginExport plan => plan.Served (openingAsks s.exportState.exporter)
  | .dequeue _ => True
  | .dequeueStep => True
  | .exportEvents plan => s.pc.events ≠ [] → plan.Served s.way.asks
  | .loop settings => settings.pschEnabled = true

/-- How far the worker is from the next event, batch or round. -/
def stage (s : System ε cfg) : ℕ :=
  match s.pc with
  | .sleeping => 0
  | .calling => 18
  | .dequeuing _ => s.queue.shmem.worker.left + 6
  | .exporting _ => 5
  | .returned n => if n < s.settings.batchMax then 1 else 19

/-- How far the loop is from its end. -/
def rank (s : System ε cfg) : ℕ :=
  40 * s.queue.shmem.waiting.length + 20 * s.pc.events.length + s.stage

/-- Where the ring has been seen empty. -/
def SeenEmpty (s : System ε cfg) : Prop :=
  match s.pc with
  | .sleeping => True
  | .calling => False
  | .dequeuing _ => False
  | .exporting events => events.length < s.settings.batchMax
  | .returned n => n < s.settings.batchMax

/-- What holds in an undisturbed run that began in `s₀`. -/
structure Draining (s₀ s : System ε cfg) : Prop where
  published : s.queue.shmem.published = s₀.queue.shmem.published
  /-- what was dequeued since then is acknowledged or in the worker's hands -/
  exported : ∃ outs, s.queue.shmem.returned = s₀.queue.shmem.returned ++ outs ∧
    s.exportState.acked.flatten ++ s.pc.events = s₀.exportState.acked.flatten ++ outs
  /-- the head that `PschDequeueEvent` has read is still the head -/
  head : ∀ buf head, s.queue.shmem.worker = .readTail buf head → head = s.queue.shmem.head
  empty : s.SeenEmpty → s.queue.shmem.waiting = []

/-- The event that is being read is one of the waiting ones. -/
theorem waiting_of_reading {sh : Shmem cfg} (hring : Shmem.Inv sh) {tail : UInt64}
    {out : PschEvent} {pc : ConsumePc} (hw : sh.worker = .reading tail out pc) :
    sh.returned.length < sh.published.length := by
  have hok := hring.worker
  rw [hw] at hok
  exact hok.2

/-- The ring is empty when the consumer finds it so. -/
theorem waiting_of_empty {sh : Shmem cfg} (hring : Shmem.Inv sh) (h : sh.tail = sh.head) :
    sh.waiting = [] := by
  have hdiff := hring.head_sub_tail
  rw [h, UInt64.sub_self] at hdiff
  refine List.drop_eq_nil_of_le ?_
  have hzero : (0 : UInt64).toNat = 0 := rfl
  omega

variable [StatsExporter ε]

/-- At the end of the loop the events that waited at its beginning are exported. -/
theorem Draining.roundTrip (hs : (machine ε cfg).toSpec.Reachable s) (h : Draining s₀ s)
    (hpc : s.pc = .sleeping) :
    s.queue.shmem.waiting = [] ∧ ∃ outs,
      List.Forall₂ (RoundTrip cfg.hash) s₀.queue.shmem.waiting outs ∧
      s.exportState.acked.flatten = s₀.exportState.acked.flatten ++ outs := by
  have hempty : s.queue.shmem.waiting = [] := h.empty (by rw [SeenEmpty, hpc]; trivial)
  obtain ⟨outs, hreturned, hacked⟩ := h.exported
  refine ⟨hempty, outs, ?_, ?_⟩
  · have htrip := Shmem.returned_roundTrip
      (Queue.shmem_reachable ((refines_queue ε cfg).reachable hs))
    rw [List.take_of_length_le (List.drop_eq_nil_iff.mp hempty), h.published, hreturned] at htrip
    exact List.forall₂_drop_append _ _ _ htrip
  · rw [hpc] at hacked
    exact (List.append_nil _).symm.trans hacked

variable [Scheduled ε] [LawfulExporter ε]

/-- A call that is served exports the batch and says so. -/
theorem served_export (hi : Inv s) {plan : Plan} {events : List PschEvent} {n : ℕ}
    {x : ExportState ε} (hplan : Undisturbed s (.exportEvents plan)) (hpc : s.pc = .exporting events)
    (hx : recovered 0
      (PgStatCh.exportEvents plan s.settings events { s.exportState with sent := 0 }) = (n, x)) :
    n = events.length ∧ x.acked.flatten = s.exportState.acked.flatten ++ events := by
  obtain ⟨-, new, hreport, -⟩ := exportEvents_report hi hpc hx
  have hserved : events ≠ [] → plan.Served (route s.exportState.exporter s.settings events).asks := by
    simpa only [Undisturbed, way, hpc, WorkerPc.events] using hplan
  obtain ⟨hall, hret⟩ := hreport.served hserved
  refine ⟨hret, ?_⟩
  rw [hreport.acked, List.flatten_append, hall]

theorem not_served_of_notBegun (hi : Inv s) {plan : Plan} {x : ExportState ε}
    (hx : recovered false (PgStatCh.beginExport plan s.exportState) = (false, x)) :
    ¬ plan.Served (openingAsks s.exportState.exporter) := by
  obtain ⟨-, -, -, ⟨htrue, -⟩ | ⟨-, hserved⟩⟩ := beginExport_report hi hx
  · cases htrue
  · exact hserved

theorem rank_lt (hring : Shmem.Inv s.queue.shmem) (hi : Inv s) {l : Label cfg}
    (hl : Undisturbed s l) (hstep : Step s l s') : s'.rank < s.rank := by
  cases hstep with
  | queue | wake => cases hl
  | connected plan x hpc hx =>
    have hidle : s.queue.shmem.worker = .idle := hi.pc_of hpc
    simp only [rank, stage, hpc, hidle, Worker.left, WorkerPc.events]
    omega
  | notConnected plan x hpc hx => exact absurd hl (not_served_of_notBegun hi hx)
  | dequeue buf events hpc hlt hw =>
    simp only [rank, stage, hpc, hw, Shmem.waiting, Worker.left]
    omega
  | full buf events hpc hle =>
    simp only [rank, stage, hpc, WorkerPc.events]
    omega
  | dequeueInside events m' tail out pc hpc hw hleft =>
    simp only [rank, stage, hpc, Shmem.waiting, Worker.left] at hleft ⊢
    omega
  | dequeueEmpty events buf hpc hw =>
    simp only [rank, stage, hpc, hw, Shmem.waiting, Worker.left, WorkerPc.events]
    omega
  | dequeueTaken events tail out hpc hw =>
    -- the event that no longer waits pays for its place in the batch and for the next dequeue
    have hlt := waiting_of_reading hring hw
    simp only [rank, stage, hpc, hw, Shmem.waiting, Worker.left, ConsumePc.left, WorkerPc.events,
      List.length_drop, List.length_append, List.length_singleton]
    omega
  | exported plan events n x hpc hx =>
    -- a full batch is not empty, so its events pay for the round that follows
    obtain ⟨rfl, -⟩ := served_export hi hl hpc hx
    have hpos := s.settings.batchMax_range.1
    simp only [rank, stage, hpc, WorkerPc.events, List.length_nil]
    split <;> omega
  | sleep settings n hpc hlt =>
    simp only [rank, stage, hpc, hlt, WorkerPc.events, if_true]
    omega
  | again settings n hpc hle =>
    have hon : settings.pschEnabled = true := hl
    simp only [rank, stage, System.goOn, hon, hpc, Nat.not_lt.mpr hle, WorkerPc.events, if_true,
      if_false]
    omega

omit [LawfulExporter ε] in
/-- The worker always has a next step, and the outside can let it pass undisturbed. -/
theorem exists_undisturbed (hpc : s.pc ≠ .sleeping) :
    ∃ l, Undisturbed s l ∧ (step l s).isSome := by
  cases h : s.pc with
  | sleeping => exact absurd h hpc
  | calling =>
    refine ⟨.beginExport allOk, allOk_clean.served _, ?_⟩
    simp only [step, h]
    split <;> rfl
  | dequeuing events =>
    by_cases hidle : s.queue.shmem.worker = .idle
    · refine ⟨.dequeue {}, trivial, ?_⟩
      simp only [step, h, Queue.step, Queue.shared, Shmem.step, Shmem.beginDequeue, hidle]
      split <;> rfl
    · refine ⟨.dequeueStep, trivial, ?_⟩
      simpa only [step, h, Queue.step, Queue.shared, Shmem.step, Option.isSome_map] using
        Shmem.dequeueStep_isSome hidle
  | exporting events =>
    refine ⟨.exportEvents allOk, fun _ => allOk_clean.served _, ?_⟩
    simp only [step, h, Option.isSome_some]
  | returned n =>
    refine ⟨.loop {}, rfl, ?_⟩
    simp only [step, h]
    split <;> rfl

theorem Draining.step (hring : Shmem.Inv s.queue.shmem) (hi : Inv s) (h : Draining s₀ s)
    {l : Label cfg} (hl : Undisturbed s l) (hstep : Step s l s') : Draining s₀ s' := by
  obtain ⟨outs, hreturned, hacked⟩ := h.exported
  cases hstep with
  | queue | wake => cases hl
  | connected plan x hpc hx =>
    obtain ⟨-, hsame, -⟩ := beginExport_report hi hx
    refine ⟨h.published, ⟨outs, hreturned, ?_⟩, h.head, nofun⟩
    rw [hpc] at hacked
    rwa [hsame]
  | notConnected plan x hpc hx => exact absurd hl (not_served_of_notBegun hi hx)
  | dequeue buf events hpc hlt hw =>
    -- head is read here, and nothing is published after it
    refine ⟨h.published, ⟨outs, hreturned, hacked⟩, ?_, ?_⟩
    · rintro buf' head hhead
      cases hhead
      rfl
    · simp [SeenEmpty, hpc]
  | full buf events hpc hle =>
    rw [hpc] at hacked
    exact ⟨h.published, ⟨outs, hreturned, hacked⟩, h.head,
      fun hlt => absurd hlt (Nat.not_lt.mpr hle)⟩
  | dequeueInside events m' tail out pc hpc hw hleft =>
    exact ⟨h.published, ⟨outs, hreturned, hacked⟩, fun _ _ hread => (by cases hread),
      by simp [SeenEmpty, hpc]⟩
  | dequeueEmpty events buf hpc hw =>
    -- head was current when it was read, so the ring is empty and not only looks so
    rw [hpc] at hacked
    have hempty := waiting_of_empty hring (h.head buf _ hw)
    exact ⟨h.published, ⟨outs, hreturned, hacked⟩, fun _ _ hread => (by cases hread),
      fun _ => hempty⟩
  | dequeueTaken events tail out hpc hw =>
    refine ⟨h.published, ⟨outs ++ [out], ?_, ?_⟩, fun _ _ hread => (by cases hread), nofun⟩
    · rw [hreturned, List.append_assoc]
    · rw [hpc] at hacked
      change s.exportState.acked.flatten ++ (events ++ [out]) = _
      rw [← List.append_assoc, ← List.append_assoc]
      exact congrArg (· ++ [out]) hacked
  | exported plan events n x hpc hx =>
    -- the events of the batch move from the worker to the acknowledged ones
    obtain ⟨rfl, hall⟩ := served_export hi hl hpc hx
    rw [hpc] at hacked
    refine ⟨h.published, ⟨outs, hreturned, ?_⟩, h.head, fun hlt => h.empty ?_⟩
    · rw [hall]
      exact (List.append_nil _).trans hacked
    · rw [SeenEmpty, hpc]
      exact hlt
  | sleep settings n hpc hlt =>
    rw [hpc] at hacked
    refine ⟨h.published, ⟨outs, hreturned, hacked⟩, h.head, fun _ => h.empty ?_⟩
    rw [SeenEmpty, hpc]
    exact hlt
  | again settings n hpc hle =>
    have hon : settings.pschEnabled = true := hl
    rw [hpc] at hacked
    refine ⟨h.published, ⟨outs, hreturned, ?_⟩, h.head, ?_⟩
    · simp only [System.goOn, hon, if_true]
      exact hacked
    · simp [SeenEmpty, System.goOn, hon]

theorem Draining.start (hi : Inv s) (hpc : s.pc = .calling) : Draining s s := by
  have hidle := hi.pc_of hpc
  refine ⟨rfl, ⟨[], (List.append_nil _).symm, by rw [hpc]; rfl⟩, fun buf head hw => ?_, ?_⟩
  · rw [show s.queue.shmem.worker = .idle from hidle] at hw
    cases hw
  · simp [SeenEmpty, hpc]

end Drains

/-- The drain loop. As long as every call returns the number of events acknowledged, a
failed one is the last before the worker sleeps. A run in which nothing fails, no
producer runs and `psch_enabled` stays on ends with the ring empty and the events that
were in it exported once and in order; such a run is never stuck. -/
theorem drain_loop {ε : Type} [StatsExporter ε] [Scheduled ε] [LawfulExporter ε] {cfg : Config} :
    (∀ s : System ε cfg, ((machine ε cfg).under BatchReturned).Reachable s →
      (∀ n, s.pc = .returned n → n = s.lastAcked) ∧
      (s.failed = true → ∀ l s', step l s = some s' →
        s'.queue.shmem.returned = s.queue.shmem.returned)) ∧
    (∀ f : ℕ → System ε cfg, (machine ε cfg).toSpec.Reachable (f 0) → (f 0).pc = .calling →
      (∀ n, (f n).pc ≠ .sleeping → ∃ l, Undisturbed (f n) l ∧ step l (f n) = some (f (n + 1))) →
      ∃ n, (f n).pc = .sleeping ∧ (f n).queue.shmem.waiting = [] ∧ ∃ outs,
        List.Forall₂ (RoundTrip cfg.hash) (f 0).queue.shmem.waiting outs ∧
        (f n).exportState.acked.flatten = (f 0).exportState.acked.flatten ++ outs) ∧
    (∀ s : System ε cfg, (machine ε cfg).toSpec.Reachable s → s.pc ≠ .sleeping →
      ∃ l, Undisturbed s l ∧ (step l s).isSome) := by
  refine ⟨fun s hs => ?_, fun f hs hpc hf => ?_, fun s hs hpc => ?_⟩
  · have hstops := stops_reachable hs
    exact ⟨hstops.ret, fun hfailed l s' h => hstops.nothing_dequeued hfailed (step_cases h)⟩
  · obtain ⟨n, ⟨hn, hdrain⟩, hend⟩ := reaches_of_rank
      (fun s => (machine ε cfg).toSpec.Reachable s ∧ Draining (f 0) s) (fun s => s.pc = .sleeping)
      rank (f := f) ⟨hs, .start (inv_reachable hs) hpc⟩ <| by
        rintro n ⟨hn, hdrain⟩ hawake
        obtain ⟨l, hl, hstep⟩ := hf n hawake
        have hring := shmem_inv hn
        have hi := inv_reachable hn
        exact ⟨⟨hn.step ⟨l, hstep⟩, hdrain.step hring hi hl (step_cases hstep)⟩,
          rank_lt hring hi hl (step_cases hstep)⟩
    exact ⟨n, hend, hdrain.roundTrip hn hend⟩
  · exact exists_undisturbed hpc

/-! ### Batches of one event -/

/-- The worker takes one event, which is a batch, and exports it. -/
def round (plan : Plan) : List (Label sampleConfig) :=
  .beginExport allOk :: takeOne ++ [.dequeue {}, .exportEvents plan]

/-- Two rounds, and one that finds the ring empty. -/
def threeRounds : List (Label sampleConfig) :=
  round allOk ++ .loop { batchMax := 1 } :: round allOk ++ .loop { batchMax := 1 } ::
    [.beginExport allOk, .dequeue {}, .dequeueStep, .exportEvents allOk, .loop { batchMax := 1 }]

/-- Two events are in the ring and the worker has woken up. -/
def awake : System ClickHouseExporter sampleConfig :=
  (machine ClickHouseExporter sampleConfig).run sampleClickHouse
    (twoIn.map .queue ++ [.wake { batchMax := 1 }])

/-- The first `n` steps of the worker from there. -/
def drainRun (n : ℕ) : System ClickHouseExporter sampleConfig :=
  (machine ClickHouseExporter sampleConfig).run awake (threeRounds.take n)

theorem threeRounds_undisturbed (s : System ClickHouseExporter sampleConfig) :
    ∀ l ∈ threeRounds, Undisturbed s l := by
  simp [threeRounds, round, takeOne, Undisturbed, allOk_clean.served]

/-- Every label is enabled when its turn comes. -/
theorem threeRounds_enabled :
    ∀ n < threeRounds.length,
      (threeRounds[n]?.all fun l => (step l (drainRun n)).isSome) = true := by
  decide +kernel

instance (pc : WorkerPc) : Decidable (pc = .calling) :=
  match pc with
  | .sleeping => isFalse nofun
  | .calling => isTrue rfl
  | .dequeuing _ => isFalse nofun
  | .exporting _ => isFalse nofun
  | .returned _ => isFalse nofun

/-- `drainRun` is a run of the worker, undisturbed. -/
theorem drainRun_step (n : ℕ) (hawake : (drainRun n).pc ≠ .sleeping) :
    ∃ l, Undisturbed (drainRun n) l ∧ step l (drainRun n) = some (drainRun (n + 1)) := by
  have hlt : n < threeRounds.length := by
    by_contra hge
    apply hawake
    rw [drainRun, List.take_of_length_le (Nat.le_of_not_lt hge)]
    decide +kernel
  have hl : threeRounds[n]? = some threeRounds[n] := List.getElem?_eq_getElem hlt
  have henabled := threeRounds_enabled n hlt
  rw [hl, Option.all_some] at henabled
  exact ⟨threeRounds[n], threeRounds_undisturbed _ _ (List.getElem_mem hlt),
    (machine ClickHouseExporter sampleConfig).step_run_take awake hl henabled⟩

theorem drain_loop_two :
    (((machine OTelExporter sampleConfig).run (sampleOTel 8192)
        (batch oneIn 1 {} rejectAll)).failed = true ∧
      ∀ l s', step l ((machine OTelExporter sampleConfig).run (sampleOTel 8192)
          (batch oneIn 1 {} rejectAll)) = some s' → s'.queue.shmem.returned.length = 1) ∧
    (drainRun 0).queue.shmem.waiting.length = 2 ∧
    ∃ n, (drainRun n).pc = .sleeping ∧ List.Forall₂ (RoundTrip sampleConfig.hash)
      (drainRun 0).queue.shmem.waiting (drainRun n).exportState.acked.flatten := by
  refine ⟨⟨by decide +kernel, ?_⟩, by decide +kernel, ?_⟩
  · have hinit : ((machine OTelExporter sampleConfig).under BatchReturned).Reachable
        (sampleOTel 8192) := .init (sampleOTel_init 8192)
    have hs := Machine.run_reachable_under hinit (batch oneIn 1 {} rejectAll) <| by
      rintro l hl s plan rfl -
      rw [batch_plan hl]
      refine OTelExporter.returnsExactly (fun p => ?_) _ _ _
      unfold rejectAll
      split <;> rfl
    intro l s' hstep
    rw [(drain_loop.1 _ hs).2 (by decide +kernel) l s' hstep]
    decide +kernel
  · have hs : (machine ClickHouseExporter sampleConfig).toSpec.Reachable (drainRun 0) :=
      Machine.run_reachable _ _ (sampleClickHouse_reachable _) _
    obtain ⟨n, hend, -, outs, htrip, hacked⟩ :=
      drain_loop.2.1 drainRun hs (by decide +kernel) drainRun_step
    have hnone : (drainRun 0).exportState.acked.flatten.length = 0 := by decide +kernel
    rw [List.eq_nil_of_length_eq_zero hnone, List.nil_append] at hacked
    exact ⟨n, hend, hacked ▸ htrip⟩

instance (pc : WorkerPc) (n : ℕ) : Decidable (pc = .returned n) :=
  match pc with
  | .sleeping => isFalse nofun
  | .calling => isFalse nofun
  | .dequeuing _ => isFalse nofun
  | .exporting _ => isFalse nofun
  | .returned k => decidable_of_iff (k = n) (by simp)

/-- There is no memory for the second row. -/
def secondRowThrows : Plan
  | .row 1 => .throws .badAlloc
  | _ => .ok

/-- With ClickHouse a failed insert of a full batch returns the size of the batch, and
the loop takes the next event without a sleep in between. With OpenTelemetry an
exception after the first request, here with one record each, makes the call return
0. -/
theorem failed_batch_goes_on :
    (∃ s, (machine ClickHouseExporter sampleConfig).toSpec.Reachable s ∧
      s.pc = .returned 1 ∧ s.lastAcked = 0 ∧ s.queue.shmem.returned.length = 1 ∧
      ∃ ls, (∀ settings, Label.wake settings ∉ ls) ∧
        ((machine ClickHouseExporter sampleConfig).run s ls).failed = true ∧
        ((machine ClickHouseExporter sampleConfig).run s ls).queue.shmem.returned.length = 2) ∧
    (∃ s, (machine OTelExporter sampleConfig).toSpec.Reachable s ∧
      s.pc = .returned 0 ∧ s.lastAcked = 1) := by
  refine ⟨⟨_, sampleClickHouse_reachable
      (twoIn.map .queue ++ .wake { batchMax := 1 } :: round rejectAll), ?_, ?_, ?_,
      .loop { batchMax := 1 } :: round rejectAll, ?_, ?_, ?_⟩,
    ⟨_, sampleOTel_reachable 1 (batch twoIn 2 {} secondRowThrows).dropLast, ?_, ?_⟩⟩
  · decide +kernel
  · decide +kernel
  · decide +kernel
  · simp [round, takeOne]
  · decide +kernel
  · decide +kernel
  · decide +kernel
  · decide +kernel

end System

end PgStatCh
