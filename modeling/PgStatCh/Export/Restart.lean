import PgStatCh.Export.Bgworker
import PgStatCh.Export.Drain
import PgStatCh.Export.SendFailures

/-!
# Export.Restart — delivery over restarts of the worker

The worker ends and is started again, any number of times, between any two steps of the backends.

* `delivered_once` — what the backend acknowledged over all these processes are published events,
  each at most once and in the order they were published in. Nothing is sent again after a
  restart: an event leaves the ring before it is sent.
* `lost_only_abandoned` — as long as every batch whose export returns is acknowledged, only those
  events are lost that were in the worker's hands when an ERROR left `PschExportBatch` or the
  process ended in it: a SIGTERM that arrives between two batches loses nothing.
-/

namespace PgStatCh

open Lib Tla Prog StatsExporter

namespace Bgworker

variable {ε : Type} [StatsExporter ε] {cfg : Config} {s s' : Bgworker ε cfg}

/-! ## Where the worker is -/

/-- Where the worker of `System` is, as seen from the main loop. -/
def Matches (sys : System ε cfg) : MainPc → Prop
  | .starting | .initializing | .waitLatch | .resetLatch => sys.pc = .sleeping
  | .barriers | .interrupts | .configReload =>
    sys.pc = .sleeping ∨ ∃ n, sys.pc = .returned n ∧ sys.settings.batchMax ≤ n
  | .draining => System.inCall sys.pc = true ∨ ∃ n, sys.pc = .returned n
  | .exiting | .exited => sys.queue.shmem.worker = .idle

variable [Scheduled ε] [LawfulExporter ε]

structure Inv (s : Bgworker ε cfg) : Prop where
  sys : System.Inv s.sys
  running : ∀ p, s.process = some p → Matches s.sys p.pc
  ended : s.process = none → s.crashed = false → s.sys.queue.shmem.worker = .idle

/-- Outside `PschExportBatch` no `PschDequeueEvent` is under way. -/
theorem Matches.idle {sys : System ε cfg} (hi : System.Inv sys) {pc : MainPc}
    (h : Matches sys pc) (hpc : pc ≠ .draining) : sys.queue.shmem.worker = .idle := by
  have hsleeping : sys.pc = .sleeping → sys.queue.shmem.worker = .idle :=
    fun hs => hi.pc_of hs
  have hreturned : ∀ n, sys.pc = .returned n → sys.queue.shmem.worker = .idle :=
    fun n hn => hi.pc_of hn
  cases pc with
  | starting | initializing | waitLatch | resetLatch => exact hsleeping h
  | barriers | interrupts | configReload =>
    rcases h with hs | ⟨n, hn, -⟩
    · exact hsleeping hs
    · exact hreturned n hn
  | draining => exact absurd rfl hpc
  | exiting | exited => exact h

omit [StatsExporter ε] [Scheduled ε] [LawfulExporter ε] in
/-- ... and no event is in the worker's hands, until the process ends. -/
theorem Matches.events {sys : System ε cfg} {pc : MainPc} (h : Matches sys pc)
    (hpc : pc ≠ .draining ∧ pc ≠ .exiting ∧ pc ≠ .exited) : sys.pc.events = [] := by
  cases pc with
  | starting | initializing | waitLatch | resetLatch =>
    change sys.pc = .sleeping at h
    rw [h]
    rfl
  | barriers | interrupts | configReload =>
    rcases h with hs | ⟨n, hn, -⟩
    · rw [hs]
      rfl
    · rw [hn]
      rfl
  | draining => exact absurd rfl hpc.1
  | exiting => exact absurd rfl hpc.2.1
  | exited => exact absurd rfl hpc.2.2

/-! ## The end of a process inside a batch -/

/-- What has been acknowledged and what is left make up the batch. -/
structure CutShort (sys sys' : System ε cfg) : Prop where
  inv : System.Inv sys'
  queue : sys'.queue = sys.queue
  shares : sys'.exportState.acked.flatten ++ sys'.pc.events =
    sys.exportState.acked.flatten ++ sys.pc.events
  fewer : sys'.pc.events.length ≤ sys.pc.events.length

theorem cutShort_spec {sys : System ε cfg} (hi : System.Inv sys) (plan : Plan) (k : ℕ)
    (c : Counters) : CutShort sys (cutShort plan k c sys) := by
  have hsame : CutShort sys sys := ⟨hi, rfl, rfl, le_rfl⟩
  unfold cutShort
  split
  · next events hpc =>
    split
    next ret x hx =>
    obtain ⟨-, new, hreport, -⟩ := System.exportEvents_report hi hpc hx
    have hok := hi.pc_of hpc
    have hdrop : x.acked.drop sys.exportState.acked.length = new := by
      rw [hreport.acked, List.drop_left]
    -- the first `k` requests hold a first part of the batch
    have hpart : (new.take k).flatten <+: events := by
      refine List.IsPrefix.trans ?_ hreport.inOrder
      exact ⟨(new.drop k).flatten, by rw [← List.flatten_append, List.take_append_drop]⟩
    obtain ⟨rest, hrest⟩ := hpart
    simp only [hdrop]
    refine ⟨⟨hi.wf, hok.1, ?_, hok.2.2⟩, rfl, ?_, ?_⟩
    · simp only [List.length_drop]
      exact (Nat.sub_le _ _).trans hok.2.1
    · simp only [WorkerPc.events, hpc, List.flatten_append, List.append_assoc]
      rw [← hrest, List.drop_left]
    · simp [WorkerPc.events, hpc]
  · exact hsame

/-- A batch that an ERROR took out of the worker's hands: what the backend has acknowledged and
what is lost make it up. -/
theorem dropped_spec {sys sys' : System ε cfg} (hi : System.Inv sys) {plan : Plan}
    {lost : List PschEvent} (h : dropped plan sys = some lost)
    (hstep : System.Step sys (.exportEvents plan) sys') :
    sys'.exportState.acked.flatten ++ lost = sys.exportState.acked.flatten ++ sys.pc.events ∧
      lost.length ≤ sys.pc.events.length := by
  cases hstep with
  | exported _ events n x hpc hx =>
    obtain ⟨-, new, hreport, hlen⟩ := System.exportEvents_report hi hpc hx
    obtain ⟨rest, hrest⟩ := hreport.inOrder
    simp only [dropped, hpc] at h
    cases hres : PgStatCh.exportEvents plan sys.settings events
        { sys.exportState with sent := 0 } with
    | ok n' x' =>
      rw [hres] at h
      cases h
    | error e x' =>
      rw [hres] at h hx
      cases hx
      cases h
      rw [hlen, hreport.acked, hpc, List.flatten_append, List.append_assoc, ← hrest,
        List.drop_left]
      exact ⟨rfl, (List.sublist_append_right _ _).length_le⟩

/-! ## What a step does with the events -/

/-- A step is one of `System`, leaves all events where they are, abandons what is in the worker's
hands and not acknowledged, because an ERROR was caught or another process starts, or ends a
process. -/
inductive Effect (s : Bgworker ε cfg) (l : Label ε cfg) (s' : Bgworker ε cfg) : Prop where
  | runs (l' : System.Label cfg) : System.Step s.sys l' s'.sys →
    (∀ plan, l' = .exportEvents plan → l = .work l' ∧ dropped plan s.sys = none) →
    s'.abandoned = s.abandoned → Effect s l s'
  | keeps : s'.sys.exportState.acked = s.sys.exportState.acked →
    s'.sys.pc.events = s.sys.pc.events → s'.sys.queue = s.sys.queue →
    s'.abandoned = s.abandoned → Effect s l s'
  | abandons (lost : List PschEvent) : s'.sys.exportState.acked.flatten ++ lost =
      s.sys.exportState.acked.flatten ++ s.sys.pc.events → s'.sys.pc.events = [] →
    s'.sys.queue = s.sys.queue → s'.abandoned = s.abandoned ++ lost → Effect s l s'
  | ends : CutShort s.sys s'.sys → s'.abandoned = s.abandoned → Effect s l s'

/-- `PschExporterInit` leaves a sound exporter and acknowledges nothing. -/
theorem exporterInit_ok {x : ε} {plan : Plan} {x₀ x' : ExportState ε} (hmade : Made x) {ok : Bool}
    (h : establishNewConnection plan { x₀ with exporter := x } = .ok ok x') :
    LawfulExporter.WF x'.exporter ∧ x'.acked = x₀.acked := by
  have hwf : LawfulExporter.WF x := LawfulExporter.made hmade
  obtain ⟨hwf', hsame, -⟩ := wp_of_ok h (LawfulExporter.connect plan hwf)
  exact ⟨hwf', hsame.acked⟩

theorem exporterInit_error {x : ε} {plan : Plan} {x₀ x' : ExportState ε} (hmade : Made x)
    {e : Exit} (h : establishNewConnection plan { x₀ with exporter := x } = .error e x') :
    LawfulExporter.WF x'.exporter ∧ x'.acked = x₀.acked := by
  have hwf : LawfulExporter.WF x := LawfulExporter.made hmade
  have hpost := LawfulExporter.connect plan (s := { x₀ with exporter := x }) hwf
  simp only [wp, h] at hpost
  exact ⟨hpost.1, hpost.2.1.acked⟩

theorem Moves.effect {p : WorkerProcess} {l : Label ε cfg} (h : Moves s p s') : Effect s l s' := by
  cases h with
  | made x plan ok x' hpc hmade hx => exact .keeps (exporterInit_ok hmade hx).2 rfl rfl rfl
  | notInitialized x plan e x' hpc hmade hx =>
    exact .keeps (exporterInit_error hmade hx).2 rfl rfl rfl
  | batchLast n hpc hn hlt => exact .keeps rfl (by rw [hn]; rfl) rfl rfl
  | _ => exact .keeps rfl rfl rfl rfl

omit [Scheduled ε] [LawfulExporter ε] in
theorem noteWork_process (l : System.Label cfg) (s : Bgworker ε cfg) :
    (s.noteWork l).process = s.process := by
  cases l <;> rfl

/-- A step inside `PschExportBatch`. -/
theorem work_effect (hi : Inv s) {l : System.Label cfg} {sys : System ε cfg}
    (hstep : System.Step s.sys l sys) :
    Effect s (.work l) { s.noteWork l with sys := sys } := by
  cases l with
  | exportEvents plan =>
    cases hlost : dropped plan s.sys with
    | none =>
      refine .runs _ hstep (fun plan' hplan => ⟨rfl, ?_⟩) ?_
      · cases hplan
        exact hlost
      · simp [noteWork, hlost]
    | some lost =>
      -- the ERROR was caught, and the batch is gone
      refine .abandons lost (dropped_spec hi.sys hlost hstep).1 ?_ ?_ ?_
      · cases hstep
        rfl
      · cases hstep
        rfl
      · simp [noteWork, hlost]
  | _ => exact .runs _ hstep (fun plan hplan => by cases hplan) rfl

omit [Scheduled ε] [LawfulExporter ε] in
theorem resume_ne_exportEvents (pc : WorkerPc) (settings : Settings) (plan : Plan) :
    (resume pc settings : System.Label cfg) ≠ .exportEvents plan := by
  unfold resume
  split <;> simp

theorem Step.effect (hi : Inv s) {l : Label ε cfg} (h : Step s l s') : Effect s l s' := by
  cases h with
  | queue l q hl hq =>
    exact .runs (.queue l) (.queue l q hl hq) (fun plan hplan => by cases hplan) rfl
  | start pid settings hnone hpid hcrashed => exact .abandons s.sys.pc.events rfl rfl rfl rfl
  | moves l p s' hp h => exact h.effect
  | reload file p sys hp hpc hsys =>
    exact .runs _ (System.step_cases hsys)
      (fun plan hplan => absurd hplan (resume_ne_exportEvents _ _ plan)) rfl
  | work l p sys hp hpc hl hsys => exact work_effect hi (System.step_cases hsys)
  | dieInside plan k c | vanish plan k c => exact .ends (cutShort_spec hi.sys plan k c) rfl
  | _ => exact .keeps rfl rfl rfl rfl

/-! ## What every step keeps -/

omit [StatsExporter ε] [Scheduled ε] [LawfulExporter ε] in
/-- A step of a backend leaves the worker where it is. -/
theorem Matches.of_sameConsumer {sys : System ε cfg} {q : Queue cfg} {pc : MainPc}
    (h : Matches sys pc) (hsame : Shmem.SameConsumer sys.queue.shmem q.shmem) :
    Matches { sys with queue := q } pc := by
  cases pc with
  | exiting | exited => exact hsame.worker.trans h
  | _ => exact h

omit [StatsExporter ε] [Scheduled ε] [LawfulExporter ε] in
/-- `psch_enabled` decides whether the loop is entered. -/
theorem Matches.goOn (sys : System ε cfg) (settings : Settings) (failed : Bool) :
    Matches { sys.goOn settings with failed := failed }
      (if settings.pschEnabled then .draining else .waitLatch) := by
  by_cases hon : settings.pschEnabled
  · rw [if_pos hon]
    left
    simp [System.goOn, hon, System.inCall]
  · rw [if_neg hon]
    change (sys.goOn settings).pc = .sleeping
    simp [System.goOn, hon]

omit [Scheduled ε] [LawfulExporter ε] in
/-- A step inside `PschExportBatch` stays there or returns. -/
theorem Matches.work {sys sys' : System ε cfg} {l : System.Label cfg} (hl : isWork l = true)
    (h : Matches sys .draining) (hstep : System.Step sys l sys') : Matches sys' .draining := by
  cases hstep with
  | queue | wake | sleep | again => cases hl
  | connected | full | dequeueEmpty | dequeueTaken => exact Or.inl rfl
  | notConnected | exported => exact Or.inr ⟨_, rfl⟩
  | dequeue | dequeueInside => exact h

omit [Scheduled ε] [LawfulExporter ε] in
theorem Matches.reload {sys sys' : System ε cfg} {settings : Settings}
    (h : Matches sys .configReload) (hstep : System.step (resume sys.pc settings) sys = some sys') :
    Matches sys' (if sys'.settings.pschEnabled then .draining else .waitLatch) := by
  rcases h with hpc | ⟨n, hpc, hfull⟩
  · rw [hpc] at hstep
    cases System.step_cases hstep with
    | wake settings _ => exact Matches.goOn sys settings false
  · rw [hpc] at hstep
    cases System.step_cases hstep with
    | sleep settings k hk hlt =>
      rw [hpc] at hk
      cases hk
      exact absurd hfull (Nat.not_le.mpr hlt)
    | again settings k hk hle => exact Matches.goOn sys settings sys.failed

theorem Inv.moves (hi : Inv s) {p : WorkerProcess} (hp : s.process = some p)
    (h : Moves s p s') : Inv s' := by
  have hm := hi.running p hp
  -- a step to another place of the same process
  have hto : ∀ q : WorkerProcess, Matches s.sys q.pc → Inv (s.setProcess q) := by
    intro q hq'
    refine ⟨hi.sys, fun r hr => ?_, fun hnone => by cases hnone⟩
    cases hr
    exact hq'
  have hidle : p.pc ≠ .draining → s.sys.queue.shmem.worker = .idle := hm.idle hi.sys
  cases h with
  | startupFails hpc | exporterShutdown hpc =>
    refine ⟨hi.sys, fun q hq => (by cases hq), fun _ _ => hidle ?_⟩
    rw [hpc]
    decide
  | storePid hpc =>
    rw [hpc] at hm
    have h := hto { p with pc := .initializing } hm
    exact ⟨h.sys, h.running, h.ended⟩
  | notMade hpc =>
    exact hto { p with pc := .exiting } (hidle (by rw [hpc]; decide))
  | made x plan ok x' hpc hmade hx =>
    rw [hpc] at hm
    change s.sys.pc = .sleeping at hm
    refine ⟨⟨(exporterInit_ok hmade hx).1, ?_⟩, fun q hq => ?_, fun hnone => by cases hnone⟩
    · change System.PcOk _ s.sys.pc
      rw [hm]
      exact hi.sys.pc_of hm
    · cases hq
      exact hm
  | notInitialized x plan e x' hpc hmade hx =>
    rw [hpc] at hm
    change s.sys.pc = .sleeping at hm
    refine ⟨⟨(exporterInit_error hmade hx).1, ?_⟩, fun q hq => ?_, fun hnone => by cases hnone⟩
    · change System.PcOk _ s.sys.pc
      rw [hm]
      exact hi.sys.pc_of hm
    · cases hq
      exact hi.sys.pc_of hm
  | wait hpc =>
    rw [hpc] at hm
    exact hto { p with pc := .resetLatch } hm
  | resetLatch hpc =>
    rw [hpc] at hm
    exact hto { p with latch := false, pc := .barriers } (Or.inl hm)
  | processBarrier hpc =>
    rw [hpc] at hm
    exact hto { p with procSignalBarrierPending := false, pc := .interrupts } hm
  | die hpc => exact hto { p with pc := .exiting } (hidle (by rw [hpc]; decide))
  | live hpc =>
    rw [hpc] at hm
    exact hto { p with procSignalBarrierPending := false, pc := .configReload } hm
  | batchLast n hpc hn hlt =>
    refine ⟨⟨hi.sys.wf, hi.sys.pc_of hn⟩, fun q hq => ?_, fun hnone => by cases hnone⟩
    cases hq
    rfl
  | batchNext n hpc hn hle =>
    exact hto { p with pc := .barriers } (Or.inr ⟨n, hn, hle⟩)
  | procExit hout =>
    refine hto { p with pc := .exiting } (hidle fun hpc => ?_)
    rw [hpc] at hout
    cases hout
  | notReported n hpc hn => exact hto { p with pc := .exiting } (hi.sys.pc_of hn)
  | errfinish => exact hto { p with procSignalBarrierPending := false } hm
  | setBgworkerPid hpc =>
    have h := hto { p with pc := .exited } (hidle (by rw [hpc]; decide))
    exact ⟨h.sys, h.running, h.ended⟩

theorem Inv.step (hi : Inv s) {l : Label ε cfg} (h : Step s l s') : Inv s' := by
  cases h with
  | queue l q hl hq =>
    have hsame := Queue.sameConsumer_of_step hl hq
    refine ⟨hi.sys.step (.queue l q hl hq), fun p hp => ?_, fun hnone hc => ?_⟩
    · exact (hi.running p hp).of_sameConsumer hsame
    · exact hsame.worker.trans (hi.ended hnone hc)
  | start pid settings hnone hpid hcrashed =>
    refine ⟨⟨hi.sys.wf, hi.ended hnone hcrashed⟩, fun p hp => ?_, fun h => by cases h⟩
    cases hp
    rfl
  | moves l p s' hp h => exact hi.moves hp h
  | reload file p sys hp hpc hsys =>
    have hm := hi.running p hp
    rw [hpc] at hm
    refine ⟨hi.sys.step (System.step_cases hsys), fun q hq => ?_, fun h => by cases h⟩
    cases hq
    exact hm.reload hsys
  | work l p sys hp hpc hl hsys =>
    have hm := hi.running p hp
    rw [hpc] at hm
    have hstep := System.step_cases hsys
    have hprocess := noteWork_process l s
    refine ⟨hi.sys.step hstep, fun q hq => ?_, fun hnone => ?_⟩
    · change (s.noteWork l).process = some q at hq
      rw [hprocess, hp] at hq
      cases hq
      rw [hpc]
      exact hm.work hl hstep
    · change (s.noteWork l).process = none at hnone
      rw [hprocess, hp] at hnone
      cases hnone
  | signal sig p hp =>
    refine ⟨hi.sys, fun q hq => ?_, fun h => by cases h⟩
    cases hq
    have hpc : (p.handle sig).pc = p.pc := by cases sig <;> rfl
    rw [hpc]
    exact hi.running p hp
  | dieInside plan k c p hp hpc hw =>
    have hcut := cutShort_spec hi.sys plan k c
    refine ⟨hcut.inv, fun q hq => ?_, fun h => by cases h⟩
    cases hq
    change (cutShort plan k c s.sys).queue.shmem.worker = .idle
    rw [hcut.queue]
    exact hw
  | vanish plan k c p hp =>
    exact ⟨(cutShort_spec hi.sys plan k c).inv, fun q hq => (by cases hq),
      fun _ hc => by cases hc⟩
  | killed b recycled p hp =>
    refine ⟨hi.sys, fun q hq => ?_, fun h => by cases h⟩
    cases hq
    exact hi.running p hp
  | notRunning | flush | strayed | noSuchProcess | clear => exact ⟨hi.sys, hi.running, hi.ended⟩

theorem Inv.init (h : Init s) : Inv s := by
  obtain ⟨queue, exporter, settings, ⟨⟨start, slots, hsh⟩, -⟩, hmade, rfl⟩ := h
  have hidle : queue.shmem.worker = .idle := by rw [hsh]
  exact ⟨⟨LawfulExporter.made hmade, hidle⟩, fun p hp => (by cases hp), fun _ _ => hidle⟩

theorem inv_reachable (hs : (machine ε cfg).toSpec.Reachable s) : Inv s := by
  refine Spec.Reachable.invariant (fun s (h : Init s) => Inv.init h) ?_ hs
  rintro s s' hi ⟨l, hl⟩
  exact hi.step (step_cases hl)

/-! ## At most once, and in order -/

/-- What was acknowledged, and then what is in the worker's hands, left the ring in this order. -/
def InOrder (sys : System ε cfg) : Prop :=
  (sys.exportState.acked.flatten ++ sys.pc.events).Sublist sys.queue.shmem.returned

theorem InOrder.system {sys sys' : System ε cfg} (hi : System.Inv sys) (h : InOrder sys)
    {l : System.Label cfg} (hstep : System.Step sys l sys') : InOrder sys' := by
  unfold InOrder at h ⊢
  cases hstep.delivers hi with
  | nothing hacked _ hevents hreturned =>
    rw [hacked, hevents, hreturned]
    exact h
  | takes out hstate hevents hreturned =>
    rw [hstate, hevents, hreturned, ← List.append_assoc]
    exact h.append_right [out]
  | exports plan ret new hl hreport hevents hreturned =>
    rw [hevents, hreturned, hreport.acked, List.flatten_append, List.append_nil]
    exact (hreport.inOrder.sublist.append_left _).trans h

theorem InOrder.step (hi : Inv s) (h : InOrder s.sys) {l : Label ε cfg} (hstep : Step s l s') :
    InOrder s'.sys := by
  cases hstep.effect hi with
  | runs l' hsys => exact h.system hi.sys hsys
  | keeps hacked hevents hqueue =>
    unfold InOrder at h ⊢
    rw [hacked, hevents, hqueue]
    exact h
  | abandons lost hshares hevents hqueue =>
    unfold InOrder at h ⊢
    rw [← hshares] at h
    rw [hevents, hqueue, List.append_nil]
    exact (List.sublist_append_left _ _).trans h
  | ends hcut =>
    unfold InOrder at h ⊢
    rw [hcut.shares, hcut.queue]
    exact h

theorem inOrder_reachable (hs : (machine ε cfg).toSpec.Reachable s) : InOrder s.sys := by
  induction hs with
  | init h =>
    obtain ⟨queue, exporter, settings, -, -, rfl⟩ := h
    exact List.nil_sublist _
  | step hr hnext ih =>
    obtain ⟨l, hl⟩ := hnext
    exact ih.step (inv_reachable hr) (step_cases hl)

omit [StatsExporter ε] [Scheduled ε] [LawfulExporter ε] in
/-- A part of the second list goes with a part of the first. -/
theorem exists_sublist_forall₂ {α β : Type} {R : α → β → Prop} {xs : List α} {ys ys' : List β}
    (h : List.Forall₂ R xs ys) (hsub : ys'.Sublist ys) :
    ∃ xs', xs'.Sublist xs ∧ List.Forall₂ R xs' ys' := by
  induction hsub generalizing xs with
  | slnil => exact ⟨[], List.nil_sublist _, .nil⟩
  | cons y _ ih =>
    cases h with
    | cons hxy hrest =>
      obtain ⟨xs', hxs', hall⟩ := ih hrest
      exact ⟨xs', hxs'.cons _, hall⟩
  | cons_cons y _ ih =>
    cases h with
    | cons hxy hrest =>
      obtain ⟨xs', hxs', hall⟩ := ih hrest
      exact ⟨_ :: xs', hxs'.cons_cons _, .cons hxy hall⟩

/-- Over all processes of a run, what the backend acknowledged are published events, each at most
once and in the order they were published in. -/
theorem delivered_once (s : Bgworker ε cfg) (hs : (machine ε cfg).toSpec.Reachable s) :
    ∃ delivered, delivered.Sublist s.sys.queue.shmem.published ∧
      List.Forall₂ (RoundTrip cfg.hash) delivered s.sys.exportState.acked.flatten := by
  have hround := Shmem.returned_roundTrip (shmem_reachable hs)
  have hacked : s.sys.exportState.acked.flatten.Sublist s.sys.queue.shmem.returned :=
    (List.sublist_append_left _ _).trans (inOrder_reachable hs)
  obtain ⟨delivered, hsub, hall⟩ := exists_sublist_forall₂ hround hacked
  exact ⟨delivered, hsub.trans (List.take_sublist _ _), hall⟩

/-! ## What is lost -/

/-- Every batch whose export is not left by an ERROR is exported without a fault. -/
def BatchServed (s : Bgworker ε cfg) (l : Label ε cfg) : Prop :=
  ∀ plan, l = .work (.exportEvents plan) → dropped plan s.sys = none →
    System.BatchServed s.sys (.exportEvents plan)

/-- All that left the ring is acknowledged, was abandoned, or is in the worker's hands. -/
def Accounted (s : Bgworker ε cfg) : Prop :=
  (s.sys.exportState.acked.flatten ++ s.sys.pc.events ++ s.abandoned).Perm
    s.sys.queue.shmem.returned

omit [StatsExporter ε] [Scheduled ε] [LawfulExporter ε] in
theorem perm_takes {acked events abandoned returned : List PschEvent} (out : PschEvent)
    (h : (acked ++ events ++ abandoned).Perm returned) :
    (acked ++ (events ++ [out]) ++ abandoned).Perm (returned ++ [out]) := by
  refine List.Perm.trans ?_ (h.append_right [out])
  simp only [List.append_assoc]
  exact (List.perm_append_comm.append_left _).append_left _

theorem Accounted.step (hi : Inv s) (h : Accounted s) {l : Label ε cfg} (hok : BatchServed s l)
    (hstep : Step s l s') : Accounted s' := by
  unfold Accounted at h ⊢
  cases hstep.effect hi with
  | runs l' hsys hl habandoned =>
    rw [habandoned]
    cases hsys.delivers hi.sys with
    | nothing hacked _ hevents hreturned =>
      rw [hacked, hevents, hreturned]
      exact h
    | takes out hstate hevents hreturned =>
      rw [hstate, hevents, hreturned]
      exact perm_takes out h
    | exports plan ret new hexport hreport hevents hreturned =>
      subst hexport
      obtain ⟨hwork, hreturns⟩ := hl plan rfl
      have hall : new.flatten = s.sys.pc.events :=
        (hreport.served (hok plan hwork hreturns plan rfl)).1
      rw [hevents, hreturned, hreport.acked, List.flatten_append, hall, List.append_nil]
      exact h
  | keeps hacked hevents hqueue habandoned =>
    rw [hacked, hevents, hqueue, habandoned]
    exact h
  | abandons lost hshares hevents hqueue habandoned =>
    rw [hevents, hqueue, habandoned, List.append_nil]
    rw [← hshares] at h
    refine List.Perm.trans ?_ h
    rw [List.append_assoc]
    exact List.perm_append_comm.append_left _
  | ends hcut habandoned =>
    rw [hcut.shares, hcut.queue, habandoned]
    exact h

theorem accounted_reachable (hs : ((machine ε cfg).under BatchServed).Reachable s) :
    Accounted s := by
  refine Machine.invariant_under (fun _ => inv_reachable) ?_ ?_ hs
  · rintro s ⟨queue, exporter, settings, ⟨⟨start, slots, hsh⟩, -⟩, -, rfl⟩
    unfold Accounted
    rw [hsh]
    rfl
  · exact fun s s' l hi h hok hstep => h.step hi hok (step_cases hstep)

/-- The most that `pg_stat_ch.batch_max` can be. -/
def maxBatchMax : ℕ := 1000000

/-- Every ERROR that left `PschExportBatch`, and every process that ended in it, cost at most one
batch. -/
structure FewAbandoned (s : Bgworker ε cfg) : Prop where
  before : s.abandoned.length ≤ s.cuts * maxBatchMax
  ending : (∀ p, s.process = some p → p.pc = .exiting ∨ p.pc = .exited) →
    s.abandoned.length + s.sys.pc.events.length ≤ s.cuts * maxBatchMax

theorem events_length_le {sys : System ε cfg} (hi : System.Inv sys) :
    sys.pc.events.length ≤ maxBatchMax := by
  have hmax := sys.settings.batchMax_range.2
  cases hpc : sys.pc with
  | dequeuing events | exporting events => exact (hi.pc_of hpc).2.1.trans hmax
  | _ => exact Nat.zero_le _

/-- A process that leaves its main loop outside `PschExportBatch` holds nothing. -/
theorem FewAbandoned.moves (hi : Inv s) (h : FewAbandoned s) {p : WorkerProcess}
    (hp : s.process = some p) (hmoves : Moves s p s') (hevents : s'.sys.pc.events = s.sys.pc.events)
    (habandoned : s'.abandoned = s.abandoned) (hcuts : s'.cuts = s.cuts) : FewAbandoned s' := by
  refine ⟨by rw [habandoned, hcuts]; exact h.before, fun hend => ?_⟩
  rw [habandoned, hcuts, hevents]
  by_cases hpc : p.pc = .exiting ∨ p.pc = .exited
  · refine h.ending fun q hq => ?_
    rw [hp] at hq
    cases hq
    exact hpc
  by_cases hreturned : ∃ n, s.sys.pc = .returned n
  · obtain ⟨n, hn⟩ := hreturned
    rw [hn]
    exact h.before
  · rw [not_exists] at hreturned
    by_cases hdraining : p.pc = .draining
    · -- from inside the call the process goes on
      exfalso
      cases hmoves with
      | batchLast | batchNext => simpa [setProcess] using hend _ rfl
      | errfinish => simpa [hdraining] using hend _ rfl
      | procExit hout =>
        rw [hdraining] at hout
        cases hout
      | notReported n hpc' hn => exact absurd hn (hreturned n)
      | _ => simp_all
    · rw [not_or] at hpc
      rw [(hi.running p hp).events ⟨hdraining, hpc⟩]
      exact h.before

/-- An ERROR takes no more than the batch out of the worker's hands. -/
theorem FewAbandoned.work (hi : Inv s) (h : FewAbandoned s) {l : System.Label cfg}
    {sys : System ε cfg} (hstep : System.Step s.sys l sys) :
    (s.noteWork l).abandoned.length ≤ (s.noteWork l).cuts * maxBatchMax := by
  cases l with
  | exportEvents plan =>
    have hbefore := h.before
    cases hlost : dropped plan s.sys with
    | none => simpa [noteWork, hlost] using hbefore
    | some lost =>
      have hfewer := (dropped_spec hi.sys hlost hstep).2
      have hmax := events_length_le hi.sys
      simp only [noteWork, hlost, Option.getD_some, Option.isSome_some, if_true,
        List.length_append, Nat.succ_mul]
      omega
  | _ => exact h.before

theorem FewAbandoned.step (hi : Inv s) (h : FewAbandoned s) {l : Label ε cfg}
    (hstep : Step s l s') : FewAbandoned s' := by
  -- a process that ends inside a batch leaves no more than that batch
  have hcut : ∀ (plan : Plan) (k : ℕ) (c : Counters),
      s.abandoned.length + (cutShort plan k c s.sys).pc.events.length ≤
        (s.cuts + 1) * maxBatchMax := by
    intro plan k c
    have hfewer := (cutShort_spec hi.sys plan k c).fewer
    have hmax := events_length_le hi.sys
    have hbefore := h.before
    rw [Nat.succ_mul]
    omega
  cases hstep with
  | start pid settings hnone hpid hcrashed =>
    have hall := h.ending fun p hp => by
      rw [hnone] at hp
      cases hp
    refine ⟨?_, fun hend => ?_⟩
    · simpa only [List.length_append] using hall
    · simpa using hend _ rfl
  | moves l p s' hp hmoves =>
    have hkeeps : s'.sys.pc.events = s.sys.pc.events ∧ s'.abandoned = s.abandoned ∧
        s'.cuts = s.cuts := by
      cases hmoves with
      | batchLast n hpc hn hlt =>
        refine ⟨?_, rfl, rfl⟩
        rw [hn]
        rfl
      | _ => exact ⟨rfl, rfl, rfl⟩
    exact h.moves hi hp hmoves hkeeps.1 hkeeps.2.1 hkeeps.2.2
  | reload file p sys hp hpc hsys =>
    refine ⟨h.before, fun hend => ?_⟩
    have hpc' := hend _ rfl
    revert hpc'
    simp only
    split <;> simp
  | work l p sys hp hpc hl hsys =>
    refine ⟨h.work hi (System.step_cases hsys), fun hend => ?_⟩
    have hpc' := hend p ((noteWork_process l s).trans hp)
    rw [hpc] at hpc'
    simp at hpc'
  | signal sig p hp =>
    refine ⟨h.before, fun hend => h.ending fun q hq => ?_⟩
    rw [hp] at hq
    cases hq
    have hpc : (p.handle sig).pc = p.pc := by cases sig <;> rfl
    rw [← hpc]
    exact hend _ rfl
  | killed b recycled p hp =>
    refine ⟨h.before, fun hend => h.ending fun q hq => ?_⟩
    rw [hp] at hq
    cases hq
    exact hend p.handleFlushSignal rfl
  | dieInside plan k c | vanish plan k c =>
    exact ⟨(Nat.le_add_right _ _).trans (hcut plan k c), fun _ => hcut plan k c⟩
  | queue | notRunning | flush | strayed | noSuchProcess | clear => exact ⟨h.before, h.ending⟩

theorem fewAbandoned_reachable (hs : (machine ε cfg).toSpec.Reachable s) : FewAbandoned s := by
  refine Spec.Reachable.invariant_of (fun _ => inv_reachable) ?_ ?_ hs
  · rintro s ⟨queue, exporter, settings, -, -, rfl⟩
    exact ⟨Nat.zero_le _, fun _ => Nat.zero_le _⟩
  · rintro s s' hi h ⟨l, hl⟩
    exact h.step hi (step_cases hl)

/-- As long as every batch whose export returns is acknowledged, everything that left the ring is
acknowledged, in the worker's hands, or was there when an ERROR left `PschExportBatch` or the
process ended in it, at most one batch for each of these. -/
theorem lost_only_abandoned (s : Bgworker ε cfg)
    (hs : ((machine ε cfg).under BatchServed).Reachable s) :
    ∃ taken out, s.sys.queue.shmem.published = taken ++ s.sys.queue.shmem.waiting ∧
      List.Forall₂ (RoundTrip cfg.hash) taken out ∧
      (s.sys.exportState.acked.flatten ++ s.sys.pc.events ++ s.abandoned).Perm out ∧
      s.abandoned.length ≤ s.cuts * maxBatchMax := by
  have hall := Machine.reachable_of_under hs
  have hring := shmem_reachable hall
  refine ⟨s.sys.queue.shmem.toFifo.left, s.sys.queue.shmem.returned, ?_, ?_,
    accounted_reachable hs, ?_⟩
  · exact (Fifo.inv_reachable ((Shmem.refines_fifo cfg).reachable hring)).1
  · exact Shmem.returned_roundTrip hring
  · exact (fewAbandoned_reachable hall).before

/-! ### A batch that is cut short -/

/-- The settings of a server that configures nothing. -/
def bootSettings : Settings := { batchMax_range := default_batchMax_range }

/-- What `MakeClickHouseExporter` makes. -/
theorem made_clickHouse : Made ({} : ClickHouseExporter) := rfl

/-- The server has just been started. -/
def sample : Bgworker ClickHouseExporter sampleConfig where
  sys := { queue := Queue.sample, exportState := { exporter := {} }, settings := bootSettings }

theorem sample_init : (machine ClickHouseExporter sampleConfig).Init sample :=
  ⟨Queue.sample, {}, bootSettings, Queue.sample_init, made_clickHouse, rfl⟩

/-- The worker wakes up and takes the one event in the ring. -/
def wakesAndTakes : List (Label ClickHouseExporter sampleConfig) :=
  [.wait true, .resetLatch, .processBarrier, .checkForInterrupts,
    .handleConfigReload bootSettings, .work (.beginExport System.allOk)] ++
    System.takeOne.map .work ++ [.work (.dequeue {}), .work .dequeueStep]

/-- An event is enqueued. The worker is started, makes its exporter, and takes the event. -/
def takesOne (pid : UInt32) : List (Label ClickHouseExporter sampleConfig) :=
  System.oneIn.map .queue ++
    [.start pid bootSettings, .storePid,
      .exporterInit (some ⟨{}, made_clickHouse⟩) System.allOk] ++ wakesAndTakes

/-- It exports the event, is told to end, and another is started. -/
def endsAfter : List (Label ClickHouseExporter sampleConfig) :=
  takesOne 7 ++ [.work (.exportEvents System.allOk), .batchDone, .signal .sigterm, .wait false,
    .resetLatch, .processBarrier, .checkForInterrupts, .setBgworkerPid, .exporterShutdown,
    .start 8 bootSettings]

/-- The backend rejects the batch, and the message about it is left by an ERROR. -/
def cancelled : Plan
  | .send _ => .fails "rejected"
  | .log .recordFailure => .raises
  | _ => .ok

/-- The worker goes on after the ERROR, takes a second event, and is told to end while it has it. -/
def endsInside : List (Label ClickHouseExporter sampleConfig) :=
  [.batchDone] ++ (Queue.enqueueOne proc₁ 16 { queryLen := 3 }).map .queue ++ wakesAndTakes ++
    [.signal .sigterm, .dieInside System.allOk 0 ⟨0, 0, ""⟩, .setBgworkerPid, .exporterShutdown,
      .start 8 bootSettings]

theorem delivered_once_restarted :
    let s := (machine ClickHouseExporter sampleConfig).run sample endsAfter
    s.pids = [7, 8] ∧ s.sys.exportState.acked.flatten.length = 1 ∧
      ∃ delivered, delivered.Sublist s.sys.queue.shmem.published ∧
        List.Forall₂ (RoundTrip sampleConfig.hash) delivered s.sys.exportState.acked.flatten :=
  ⟨by decide +kernel, by decide +kernel,
    delivered_once _ ((machine ClickHouseExporter sampleConfig).run_reachable _
      (.init sample_init) endsAfter)⟩

theorem lost_only_abandoned_inside :
    let M := machine ClickHouseExporter sampleConfig
    let s := M.run (M.fire (M.run sample (takesOne 7)) (.work (.exportEvents cancelled))) endsInside
    s.abandoned.length = 2 ∧ s.cuts = 2 ∧ s.sys.exportState.acked.length = 0 ∧
      ∃ taken out, s.sys.queue.shmem.published = taken ++ s.sys.queue.shmem.waiting ∧
        List.Forall₂ (RoundTrip sampleConfig.hash) taken out ∧
        (s.sys.exportState.acked.flatten ++ s.sys.pc.events ++ s.abandoned).Perm out ∧
        s.abandoned.length ≤ s.cuts * maxBatchMax := by
  intro M s
  have hinit : (M.under BatchServed).Reachable sample := .init sample_init
  have htaken : (M.under BatchServed).Reachable (M.run sample (takesOne 7)) := by
    refine Machine.run_reachable_under hinit _ ?_
    rintro l hl s plan rfl
    simp [takesOne, wakesAndTakes, System.takeOne] at hl
  have hleft := Machine.fire_reachable_under htaken (l := .work (.exportEvents cancelled)) <| by
    rintro plan hplan hreturns
    cases hplan
    exact absurd hreturns (by decide +kernel)
  refine ⟨by decide +kernel, by decide +kernel, by decide +kernel,
    lost_only_abandoned s (Machine.run_reachable_under hleft endsInside ?_)⟩
  rintro l hl s plan rfl
  simp [endsInside, wakesAndTakes, System.takeOne] at hl

end Bgworker

end PgStatCh
