import PgStatCh.Export.Worker

/-!
# Export.Delivery — what reaches the backend

What becomes of the events that leave the ring:

* `acked_or_waiting` — nothing is lost as long as every batch that is taken from the
  ring is acknowledged as a whole. A batch that is not goes nowhere
  (`failed_batch_lost`): it left the ring before the attempt and is not put back;
* `exported_exact` — `exported` is the number of acknowledged events as long as of
  every batch all or nothing is acknowledged. ClickHouse's always are counted right,
  unless an ERROR leaves the message about a block that is in. An OpenTelemetry batch
  of which only a part gets through is not counted at all (`exported_partial`).
-/

namespace PgStatCh

open Lib Tla Prog StatsExporter

/-- The events that the worker holds. -/
def WorkerPc.events : WorkerPc → List PschEvent
  | .dequeuing events => events
  | .exporting events => events
  | _ => []

namespace System

variable {ε : Type} [StatsExporter ε] [Scheduled ε] [LawfulExporter ε] {cfg : Config}
  {s s' : System ε cfg}

/-- The way that the batch in the worker's hands takes. -/
def way (s : System ε cfg) : Route := route s.exportState.exporter s.settings s.pc.events

/-- In the beginning nothing was exported. -/
theorem Init.nothing (h : Init s) :
    s.exportState.acked = [] ∧ s.exportState.exported = 0 ∧ s.queue.shmem.returned = [] ∧
      s.pc = .sleeping := by
  obtain ⟨⟨⟨start, slots, hsh⟩, -⟩, hpc, -, -, x, plan, ok, hmade, hx⟩ := h
  have hwf : LawfulExporter.WF x := LawfulExporter.made hmade
  have hsame := (wp_of_ok hx (LawfulExporter.connect plan hwf)).2.1
  exact ⟨hsame.acked, hsame.exported, by rw [hsh], hpc⟩

/-! ## What a step delivers -/

/-- A step leaves all events where they are, takes one from the ring, or exports the
batch in the worker's hands. -/
inductive Delivers (s : System ε cfg) (l : Label cfg) (s' : System ε cfg) : Prop where
  | nothing : s'.exportState.acked = s.exportState.acked →
    s'.exportState.exported = s.exportState.exported → s'.pc.events = s.pc.events →
    s'.queue.shmem.returned = s.queue.shmem.returned → Delivers s l s'
  | takes (out : PschEvent) : s'.exportState = s.exportState →
    s'.pc.events = s.pc.events ++ [out] →
    s'.queue.shmem.returned = s.queue.shmem.returned ++ [out] → Delivers s l s'
  | exports (plan : Plan) (ret : ℕ) (new : List (List PschEvent)) : l = .exportEvents plan →
    Report plan s.way s.pc.events s.exportState s'.exportState ret new → s'.pc.events = [] →
    s'.queue.shmem.returned = s.queue.shmem.returned → Delivers s l s'

theorem Step.delivers (hi : Inv s) {l : Label cfg} (h : Step s l s') : Delivers s l s' := by
  have hgoOn : ∀ settings : Settings, (s.goOn settings).pc.events = [] := by
    intro settings
    simp only [System.goOn]
    split <;> rfl
  cases h with
  | queue l q hl hq =>
    exact .nothing rfl rfl rfl (Queue.sameConsumer_of_step hl hq).returned
  | wake settings hpc => exact .nothing rfl rfl (by rw [hpc]; exact hgoOn settings) rfl
  | connected plan x hpc hx | notConnected plan x hpc hx =>
    obtain ⟨-, hacked, hexported, -⟩ := beginExport_report hi hx
    exact .nothing hacked hexported (by rw [hpc]; rfl) rfl
  | dequeue buf events hpc hlt hw => exact .nothing rfl rfl rfl rfl
  | full buf events hpc hle => exact .nothing rfl rfl (by rw [hpc]; rfl) rfl
  | dequeueInside => exact .nothing rfl rfl rfl rfl
  | dequeueEmpty events buf hpc hw => exact .nothing rfl rfl (by rw [hpc]; rfl) rfl
  | dequeueTaken events tail out hpc hw => exact .takes out rfl (by rw [hpc]; rfl) rfl
  | exported plan events n x hpc hx =>
    obtain ⟨-, new, hreport, -⟩ := exportEvents_report hi hpc hx
    exact .exports plan n new rfl (by rw [way, hpc]; exact hreport) rfl rfl
  | sleep settings n hpc hlt => exact .nothing rfl rfl (by rw [hpc]; rfl) rfl
  | again settings n hpc hle => exact .nothing rfl rfl (by rw [hpc]; exact hgoOn settings) rfl

/-! ## Nothing is lost -/

/-- Every batch taken from the ring is exported without a fault. -/
def BatchServed (s : System ε cfg) (l : Label cfg) : Prop :=
  ∀ plan, l = .exportEvents plan → s.pc.events ≠ [] → plan.Served s.way.asks

/-- All that left the ring is acknowledged or in the worker's hands. -/
def NothingLost (s : System ε cfg) : Prop :=
  s.exportState.acked.flatten ++ s.pc.events = s.queue.shmem.returned

theorem NothingLost.step (hi : Inv s) (h : NothingLost s) {l : Label cfg}
    (hok : BatchServed s l) (hstep : Step s l s') : NothingLost s' := by
  unfold NothingLost at h ⊢
  cases hstep.delivers hi with
  | nothing hacked _ hevents hreturned => rw [hacked, hevents, hreturned, h]
  | takes out hstate hevents hreturned =>
    rw [hstate, hevents, hreturned, ← List.append_assoc, h]
  | exports plan ret new hl hreport hevents hreturned =>
    have hall : new.flatten = s.pc.events := (hreport.served (hok plan hl)).1
    rw [hevents, hreturned, hreport.acked, List.flatten_append, hall, List.append_nil, h]

/-- As long as every batch taken from the ring is acknowledged as a whole, every event
that was ever in the ring is acknowledged or still there, whenever the worker is not
inside a call. -/
theorem acked_or_waiting (hs : ((machine ε cfg).under BatchServed).Reachable s)
    (hquiet : ∀ events, s.pc ≠ .dequeuing events ∧ s.pc ≠ .exporting events) :
    ∃ taken, s.queue.shmem.published = taken ++ s.queue.shmem.waiting ∧
      List.Forall₂ (RoundTrip cfg.hash) taken s.exportState.acked.flatten := by
  have hall := Machine.reachable_of_under hs
  have hring := Queue.shmem_reachable ((refines_queue ε cfg).reachable hall)
  have hlost : NothingLost s := by
    refine Machine.invariant_under (fun _ => inv_reachable) ?_ ?_ hs
    · intro s hinit
      obtain ⟨hacked, -, hreturned, hpc⟩ := Init.nothing hinit
      unfold NothingLost
      rw [hacked, hreturned, hpc]
      rfl
    · exact fun s s' l hi h hok hstep => h.step hi hok (step_cases hstep)
  have hempty : s.pc.events = [] := by
    cases hpc : s.pc with
    | dequeuing events => exact absurd hpc (hquiet events).1
    | exporting events => exact absurd hpc (hquiet events).2
    | _ => rfl
  unfold NothingLost at hlost
  rw [hempty, List.append_nil] at hlost
  refine ⟨s.queue.shmem.toFifo.left, ?_, ?_⟩
  · exact (Fifo.inv_reachable ((Shmem.refines_fifo cfg).reachable hring)).1
  · rw [hlost]
    exact Shmem.returned_roundTrip hring

/-! ### A batch of one event -/

instance (pc : WorkerPc) : Decidable (pc = .sleeping) :=
  match pc with
  | .sleeping => isTrue rfl
  | .calling => isFalse nofun
  | .dequeuing _ => isFalse nofun
  | .exporting _ => isFalse nofun
  | .returned _ => isFalse nofun

/-- The sample queue and a connected ClickHouse exporter. -/
def sampleClickHouse : System ClickHouseExporter sampleConfig where
  queue := Queue.sample
  exportState := { exporter := { memoryContextsReady := true, client := true } }

/-- The sample queue and a connected OpenTelemetry exporter. -/
def sampleOTel (logBatchSize : ℕ) : System OTelExporter sampleConfig where
  queue := Queue.sample
  exportState :=
    { exporter := OTelExporter.configureLogExport { logBatchSize := logBatchSize, stub := true } }

def allOk : Plan := fun _ => .ok

theorem allOk_clean : allOk.Clean := fun _ => rfl

def rejectAll : Plan
  | .send _ => .fails "rejected"
  | _ => .ok

theorem sampleClickHouse_init : (machine ClickHouseExporter sampleConfig).Init sampleClickHouse :=
  ⟨Queue.sample_init, rfl, rfl, rfl, {}, allOk, true, rfl, rfl⟩

theorem sampleOTel_init (logBatchSize : ℕ) :
    (machine OTelExporter sampleConfig).Init (sampleOTel logBatchSize) :=
  ⟨Queue.sample_init, rfl, rfl, rfl, { logBatchSize := logBatchSize }, allOk, true,
    ⟨_, _, rfl⟩, rfl⟩

theorem sampleClickHouse_reachable (ls : List (Label sampleConfig)) :
    (machine ClickHouseExporter sampleConfig).toSpec.Reachable
      ((machine ClickHouseExporter sampleConfig).run sampleClickHouse ls) :=
  (machine ClickHouseExporter sampleConfig).run_reachable _ (.init sampleClickHouse_init) ls

theorem sampleOTel_reachable (logBatchSize : ℕ) (ls : List (Label sampleConfig)) :
    (machine OTelExporter sampleConfig).toSpec.Reachable
      ((machine OTelExporter sampleConfig).run (sampleOTel logBatchSize) ls) :=
  (machine OTelExporter sampleConfig).run_reachable _ (.init (sampleOTel_init logBatchSize)) ls

/-- One event is enqueued. -/
def oneIn : List (Queue.Label sampleConfig) :=
  Queue.enqueueOne proc₀ 8 { queryLen := 1 }

/-- Two events are enqueued. -/
def twoIn : List (Queue.Label sampleConfig) :=
  oneIn ++ Queue.enqueueOne proc₁ 16 { queryLen := 3 }

/-- One `PschDequeueEvent` that returns an event. -/
def takeOne : List (Label sampleConfig) := .dequeue {} :: List.replicate 8 .dequeueStep

/-- Events are enqueued; the worker wakes up, takes `n`, finds no other, and exports
them. -/
def batch (enqueue : List (Queue.Label sampleConfig)) (n : ℕ) (settings : Settings)
    (plan : Plan) : List (Label sampleConfig) :=
  enqueue.map .queue ++ [.wake settings, .beginExport allOk] ++
    (List.replicate n takeOne).flatten ++
    [.dequeue {}, .dequeueStep, .exportEvents plan, .loop settings]

theorem batch_plan {enqueue : List (Queue.Label sampleConfig)} {n : ℕ} {settings : Settings}
    {plan p : Plan} (h : Label.exportEvents p ∈ batch enqueue n settings plan) : p = plan := by
  simpa [batch, takeOne] using h

theorem acked_or_waiting_one :
    ∃ taken, ((machine ClickHouseExporter sampleConfig).run sampleClickHouse
        (batch oneIn 1 {} allOk)).queue.shmem.published.length = 1 ∧
      List.Forall₂ (RoundTrip sampleConfig.hash) taken
        ((machine ClickHouseExporter sampleConfig).run sampleClickHouse
          (batch oneIn 1 {} allOk)).exportState.acked.flatten ∧
      ((machine ClickHouseExporter sampleConfig).run sampleClickHouse
        (batch oneIn 1 {} allOk)).exportState.acked.flatten.length = 1 := by
  have hs : ((machine ClickHouseExporter sampleConfig).under BatchServed).Reachable
      ((machine ClickHouseExporter sampleConfig).run sampleClickHouse
        (batch oneIn 1 {} allOk)) := by
    have hinit : ((machine ClickHouseExporter sampleConfig).under BatchServed).Reachable
        sampleClickHouse := .init sampleClickHouse_init
    refine Machine.run_reachable_under hinit _ ?_
    rintro l hl s plan rfl -
    rw [batch_plan hl]
    exact allOk_clean.served _
  have hpc : ((machine ClickHouseExporter sampleConfig).run sampleClickHouse
      (batch oneIn 1 {} allOk)).pc = .sleeping := by decide +kernel
  obtain ⟨taken, -, htrip⟩ := acked_or_waiting hs fun events => by
    rw [hpc]
    exact ⟨nofun, nofun⟩
  exact ⟨taken, by decide +kernel, htrip, by decide +kernel⟩

/-- The worker sleeps again; an event that was enqueued is neither in the ring nor in
any acknowledged request. -/
def LostOne {ε : Type} (s : System ε sampleConfig) : Prop :=
  s.pc = .sleeping ∧ s.queue.shmem.published.length = 1 ∧ s.queue.shmem.waiting.length = 0 ∧
  s.exportState.acked.length = 0

instance {ε : Type} (s : System ε sampleConfig) : Decidable (LostOne s) :=
  inferInstanceAs (Decidable (_ ∧ _))

/-- With each of the three ways to export, a batch that the backend rejects is lost. -/
theorem failed_batch_lost :
    (∃ s, (machine ClickHouseExporter sampleConfig).toSpec.Reachable s ∧ LostOne s) ∧
    (∃ s, (machine OTelExporter sampleConfig).toSpec.Reachable s ∧
      s.settings.arrowPassthrough = false ∧ LostOne s) ∧
    (∃ s, (machine OTelExporter sampleConfig).toSpec.Reachable s ∧
      s.settings.arrowPassthrough = true ∧ LostOne s) := by
  refine ⟨⟨_, sampleClickHouse_reachable (batch oneIn 1 {} rejectAll), ?_⟩,
    ⟨_, sampleOTel_reachable 8192 (batch oneIn 1 {} rejectAll), ?_, ?_⟩,
    ⟨_, sampleOTel_reachable 8192 (batch oneIn 1 { arrowPassthrough := true } rejectAll),
      ?_, ?_⟩⟩ <;>
    decide +kernel

/-! ## The counter -/

/-- Every batch is counted right. -/
def BatchCounted (s : System ε cfg) (l : Label cfg) : Prop :=
  ∀ plan, l = .exportEvents plan → s.pc.events ≠ [] → s.way.CountsExactly plan

/-- `exported` is the number of events acknowledged so far, modulo `2^64`. -/
def CountedAcked (s : System ε cfg) : Prop :=
  s.exportState.exported = UInt64.ofNat s.exportState.acked.flatten.length

theorem CountedAcked.step (hi : Inv s) (h : CountedAcked s) {l : Label cfg}
    (hok : BatchCounted s l) (hstep : Step s l s') : CountedAcked s' := by
  unfold CountedAcked at h ⊢
  cases hstep.delivers hi with
  | nothing hacked hexported => rw [hacked, hexported, h]
  | takes out hstate => rw [hstate, h]
  | exports plan ret new hl hreport =>
    rw [hreport.counts (hok plan hl), hreport.acked, h, List.flatten_append, List.length_append,
      UInt64.ofNat_add]

/-- As long as every batch is counted right, `exported` is the number of events in
acknowledged requests. -/
theorem exported_exact (hs : ((machine ε cfg).under BatchCounted).Reachable s) :
    s.exportState.exported = UInt64.ofNat s.exportState.acked.flatten.length := by
  have hcounted : CountedAcked s := by
    refine Machine.invariant_under (fun _ => inv_reachable) ?_ ?_ hs
    · intro s hinit
      obtain ⟨hacked, hexported, -, -⟩ := Init.nothing hinit
      unfold CountedAcked
      rw [hacked, hexported]
      rfl
    · exact fun s s' l hi h hok hstep => h.step hi hok (step_cases hstep)
  exact hcounted

/-- A batch goes to the collector, and another one is rejected by ClickHouse. -/
theorem exported_exact_one :
    (((machine OTelExporter sampleConfig).run (sampleOTel 8192)
        (batch oneIn 1 {} allOk)).exportState.acked.flatten.length = 1 ∧
      ((machine OTelExporter sampleConfig).run (sampleOTel 8192)
        (batch oneIn 1 {} allOk)).exportState.exported = 1) ∧
    ((machine ClickHouseExporter sampleConfig).run sampleClickHouse
        (batch oneIn 1 {} rejectAll)).exportState.acked.flatten.length = 0 ∧
      ((machine ClickHouseExporter sampleConfig).run sampleClickHouse
        (batch oneIn 1 {} rejectAll)).exportState.exported = 0 := by
  constructor
  · have hone : ((machine OTelExporter sampleConfig).run (sampleOTel 8192)
        (batch oneIn 1 {} allOk)).exportState.acked.flatten.length = 1 := by decide +kernel
    have hinit : ((machine OTelExporter sampleConfig).under BatchCounted).Reachable
        (sampleOTel 8192) := .init (sampleOTel_init 8192)
    have hs := Machine.run_reachable_under hinit (batch oneIn 1 {} allOk) <| by
      rintro l hl s plan rfl -
      rw [batch_plan hl]
      exact Or.inl (allOk_clean.served _)
    refine ⟨hone, ?_⟩
    rw [exported_exact hs, hone]
    rfl
  · have hnone : ((machine ClickHouseExporter sampleConfig).run sampleClickHouse
        (batch oneIn 1 {} rejectAll)).exportState.acked.flatten.length = 0 := by decide +kernel
    have hinit : ((machine ClickHouseExporter sampleConfig).under BatchCounted).Reachable
        sampleClickHouse := .init sampleClickHouse_init
    have hs := Machine.run_reachable_under hinit (batch oneIn 1 {} rejectAll) <| by
      rintro l hl s plan rfl -
      rw [batch_plan hl]
      exact ClickHouseExporter.countsExactly _ nofun
    refine ⟨hnone, ?_⟩
    rw [exported_exact hs, hnone]
    rfl

/-- The backend takes the first request and rejects the second. -/
def rejectSecond : Plan
  | .send 1 => .fails "rejected"
  | _ => .ok

/-- One event is acknowledged, and none is counted. -/
def Uncounted {ε : Type} (s : System ε sampleConfig) : Prop :=
  s.exportState.acked.flatten.length = 1 ∧ s.exportState.exported = 0

instance {ε : Type} (s : System ε sampleConfig) : Decidable (Uncounted s) :=
  inferInstanceAs (Decidable (_ ∧ _))

/-- A batch of two requests, as records and as Arrow blocks, of which only the first
gets through. -/
theorem exported_partial :
    (∃ s, (machine OTelExporter sampleConfig).toSpec.Reachable s ∧
      s.settings.arrowPassthrough = false ∧ Uncounted s) ∧
    (∃ s, (machine OTelExporter sampleConfig).toSpec.Reachable s ∧
      s.settings.arrowPassthrough = true ∧ Uncounted s) := by
  refine ⟨⟨_, sampleOTel_reachable 1 (batch twoIn 2 {} rejectSecond), ?_, ?_⟩,
    ⟨_, sampleOTel_reachable 8192 (batch twoIn 2
      { arrowPassthrough := true, otelMaxBlockBytes := 65536, extraBytes := 65536 }
      rejectSecond), ?_, ?_⟩⟩ <;> decide +kernel

end System

end PgStatCh
