import PgStatCh.Export.Signals
import PgStatCh.Queue.FastPath

/-!
# Export.Flush — what `pg_stat_ch_flush()` brings about

A flush only sends SIGUSR2 and returns; the worker may be anywhere when the signal arrives, also
at the end of a drain loop that has already found the ring empty. `flush_served`: as long as
nothing goes wrong and `psch_enabled` stays on, a worker that waits on an unset latch has taken
every event from the ring that was published when the signal reached it, and all of these were
acknowledged unless an earlier process was ended while it held them.

The latch carries the proof. It stays set from the signal to the next `ResetLatch`, and after
that `head` is read again before the worker waits.
-/

namespace PgStatCh

open Lib Tla StatsExporter

namespace Bgworker

variable {ε : Type} [StatsExporter ε] {cfg : Config} {s s' : Bgworker ε cfg}

section Served

variable [Scheduled ε]

/-- Nothing goes wrong, and `psch_enabled` stays on. -/
def Served (s : Bgworker ε cfg) : Label ε cfg → Prop
  | .start _ settings => settings.pschEnabled = true
  | .handleConfigReload file => file.pschEnabled = true
  | .work (.beginExport plan) => plan.Served (openingAsks s.sys.exportState.exporter)
  | .work (.exportEvents plan) => System.BatchServed s.sys (.exportEvents plan)
  | _ => True

theorem Served.batchServed {l : Label ε cfg} (h : Served s l) : BatchServed s l := by
  rintro plan rfl -
  exact h

end Served

/-! ## The ring -/

/-- The request is for published events, and the `head` that was read is as old as `seen`. -/
structure RingSeen (s : Bgworker ε cfg) : Prop where
  requested : s.requested ≤ s.sys.queue.shmem.published.length
  head : ∀ buf head, s.sys.queue.shmem.worker = .readTail buf head →
    head = pos s.sys.queue.shmem.start s.seen ∧
    s.sys.queue.shmem.returned.length ≤ s.seen ∧ s.seen ≤ s.sys.queue.shmem.published.length

omit [StatsExporter ε] in
theorem RingSeen.same (h : RingSeen s) (hqueue : s'.sys.queue = s.sys.queue)
    (hrequested : s'.requested = s.requested) (hseen : s'.seen = s.seen) : RingSeen s' := by
  refine ⟨?_, ?_⟩
  · rw [hrequested, hqueue]
    exact h.requested
  · rw [hqueue, hseen]
    exact h.head

omit [StatsExporter ε] in
/-- With no `PschDequeueEvent` under way there is only the request. -/
theorem RingSeen.of_not_reading (hrequested : s.requested ≤ s.sys.queue.shmem.published.length)
    (hw : ∀ buf head, s.sys.queue.shmem.worker ≠ .readTail buf head) : RingSeen s :=
  ⟨hrequested, fun buf head hread => absurd hread (hw buf head)⟩

omit [StatsExporter ε] in
/-- A ring that looks empty was empty when `head` was read. -/
theorem RingSeen.seen_eq (h : RingSeen s) (hring : Shmem.Inv s.sys.queue.shmem) {buf : PschEvent}
    (hw : s.sys.queue.shmem.worker = .readTail buf s.sys.queue.shmem.tail) :
    s.seen = s.sys.queue.shmem.returned.length := by
  obtain ⟨htail, hle, hge⟩ := h.head buf _ hw
  have hbound := hring.bound
  have hcap := cfg.capacity.toNat_lt
  have hdiff : (pos s.sys.queue.shmem.start s.seen -
      pos s.sys.queue.shmem.start s.sys.queue.shmem.returned.length).toNat =
      s.seen - s.sys.queue.shmem.returned.length := pos_sub_toNat hle (by omega)
  rw [← htail, ← hring.tail_eq, UInt64.sub_self] at hdiff
  have hzero : (0 : UInt64).toNat = 0 := rfl
  omega

/-! ## The request -/

/-- What is known of the request inside the drain loop, with the latch unset. -/
def AnsweredIn (s : Bgworker ε cfg) : WorkerPc → Prop
  | .dequeuing _ =>
    ∀ buf head, s.sys.queue.shmem.worker = .readTail buf head → s.requested ≤ s.seen
  | .exporting events => events.length < s.sys.settings.batchMax →
    s.requested ≤ s.sys.queue.shmem.returned.length
  | .returned n => n < s.sys.settings.batchMax →
    s.requested ≤ s.sys.queue.shmem.returned.length
  | _ => True

/-- ... and around it. -/
def Answered (s : Bgworker ε cfg) : MainPc → Prop
  | .starting | .initializing => s.requested = 0
  | .waitLatch => s.requested ≤ s.sys.queue.shmem.returned.length
  | .draining => AnsweredIn s s.sys.pc
  | _ => True

structure Serves (s : Bgworker ε cfg) : Prop where
  ring : RingSeen s
  enabled : ∀ p, s.process = some p → s.sys.settings.pschEnabled = true
  answered : ∀ p, s.process = some p → p.latch = false → Answered s p.pc

theorem Serves.moves (h : Serves s) {p : WorkerProcess} (hp : s.process = some p)
    (hmoves : Moves s p s') : Serves s' := by
  have hon := h.enabled p hp
  have hold := h.answered p hp
  cases hmoves with
  | startupFails | exporterShutdown =>
    exact ⟨h.ring.same rfl rfl rfl, fun q hq => (by cases hq), fun q hq => by cases hq⟩
  | errfinish =>
    refine ⟨h.ring.same rfl rfl rfl, fun _ _ => hon, fun q hq hl => ?_⟩
    cases hq
    exact hold hl
  | storePid hpc =>
    refine ⟨h.ring.same rfl rfl rfl, fun _ _ => hon, fun q hq hl => ?_⟩
    cases hq
    have hnone := hold hl
    rw [hpc] at hnone
    exact hnone
  | made x plan ok x' hpc =>
    refine ⟨h.ring.same rfl rfl rfl, fun _ _ => hon, fun q hq hl => ?_⟩
    cases hq
    have hnone : s.requested = 0 := by
      have hnone := hold hl
      rw [hpc] at hnone
      exact hnone
    change s.requested ≤ _
    rw [hnone]
    exact Nat.zero_le _
  | batchLast n hpc hn hlt =>
    refine ⟨h.ring.same rfl rfl rfl, fun _ _ => hon, fun q hq hl => ?_⟩
    cases hq
    have hin := hold hl
    rw [hpc] at hin
    change AnsweredIn s s.sys.pc at hin
    rw [hn] at hin
    exact hin hlt
  | _ =>
    refine ⟨h.ring.same rfl rfl rfl, fun _ _ => hon, fun q hq _ => ?_⟩
    cases hq
    trivial

variable [Scheduled ε] [LawfulExporter ε]

/-- A step inside `PschExportBatch`: if the batch is not full, the ring was seen empty, and it
was looked at after the request. -/
theorem Serves.work (hring : Shmem.Inv s.sys.queue.shmem) (hi : System.Inv s.sys) (h : Serves s)
    {p : WorkerProcess} (hp : s.process = some p) (hpc : p.pc = .draining)
    {l : System.Label cfg} (hl : isWork l = true) (hok : Served s (.work l))
    {sys : System ε cfg} (hstep : System.Step s.sys l sys) :
    Serves { s.noteWork l with sys := sys } := by
  have hon := h.enabled p hp
  have hreq := h.ring.requested
  have hold : p.latch = false → AnsweredIn s s.sys.pc := by
    intro hlatch
    have hin := h.answered p hp hlatch
    rw [hpc] at hin
    exact hin
  have hnext : ∀ {t : Bgworker ε cfg}, t.process = s.process → RingSeen t →
      t.sys.settings = s.sys.settings → (p.latch = false → AnsweredIn t t.sys.pc) →
      Serves t := by
    intro t hprocess hseen hsettings hin
    refine ⟨hseen, fun _ _ => by rw [hsettings]; exact hon, fun q hq hlatch => ?_⟩
    rw [hprocess, hp] at hq
    cases hq
    rw [hpc]
    exact hin hlatch
  cases hstep with
  | queue | wake | sleep | again => cases hl
  | connected plan x hcalling hx =>
    have hidle : s.sys.queue.shmem.worker = .idle := hi.pc_of hcalling
    refine hnext rfl (h.ring.same rfl rfl rfl) rfl fun _ buf head hw => ?_
    change s.sys.queue.shmem.worker = _ at hw
    rw [hidle] at hw
    cases hw
  | notConnected plan x hcalling hx =>
    obtain ⟨-, -, -, ⟨hfalse, -⟩ | ⟨-, hfault⟩⟩ := System.beginExport_report hi hx
    · cases hfalse
    · exact absurd hok hfault
  | dequeue buf events hin hlt hw =>
    -- `head` is read here, after the request
    refine hnext rfl ⟨hreq, ?_⟩ rfl ?_
    · intro buf' head hread
      cases hread
      exact ⟨hring.head_eq, hring.le, le_rfl⟩
    · intro _
      change AnsweredIn _ s.sys.pc
      rw [hin]
      exact fun _ _ _ => hreq
  | full buf events hin hle =>
    have hidle : s.sys.queue.shmem.worker = .idle := by
      by_contra hne
      exact absurd ((hi.pc_of hin).2.2 hne) (Nat.not_lt.mpr hle)
    refine hnext rfl (.of_not_reading hreq fun buf' head hw => ?_) rfl
      fun _ hlt => absurd hlt (Nat.not_lt.mpr hle)
    change s.sys.queue.shmem.worker = _ at hw
    rw [hidle] at hw
    cases hw
  | dequeueInside events m' tail out pc hin hw hleft =>
    refine hnext rfl (.of_not_reading hreq fun buf head hread => by cases hread) rfl ?_
    intro _
    change AnsweredIn _ s.sys.pc
    rw [hin]
    exact fun buf head hread => by cases hread
  | dequeueEmpty events buf hin hw =>
    refine hnext rfl (.of_not_reading hreq fun buf' head hread => by cases hread) rfl ?_
    intro hlatch _
    have hseen := hold hlatch
    rw [hin] at hseen
    have hle := hseen buf _ hw
    rw [h.ring.seen_eq hring hw] at hle
    exact hle
  | dequeueTaken events tail out hin hw =>
    exact hnext rfl (.of_not_reading hreq fun buf head hread => by cases hread) rfl
      fun _ buf head hread => by cases hread
  | exported plan events n x hin hx =>
    obtain ⟨-, new, hreport, -⟩ := System.exportEvents_report hi hin hx
    have hserved := hok plan rfl
    rw [System.way, hin] at hserved
    obtain ⟨-, rfl⟩ := hreport.served hserved
    refine hnext rfl (h.ring.same rfl rfl rfl) rfl fun hlatch hlt => ?_
    have hout := hold hlatch
    rw [hin] at hout
    exact hout hlt

omit [StatsExporter ε] [Scheduled ε] [LawfulExporter ε] in
/-- A backend adds to the ring, and takes nothing from it. -/
theorem Serves.queue (h : Serves s) {l : Queue.Label cfg} {q : Queue cfg}
    (hl : l.isDequeue = false) (hq : Queue.step l s.sys.queue = some q) :
    Serves { s with sys.queue := q } := by
  have hgrows := Queue.step_grows hq
  have hsame := Queue.sameConsumer_of_step hl hq
  refine ⟨⟨h.ring.requested.trans hgrows.published, fun buf head hw => ?_⟩, h.enabled,
    fun p hp hlatch => ?_⟩
  · change q.shmem.worker = _ at hw
    rw [hsame.worker] at hw
    obtain ⟨hhead, hle, hge⟩ := h.ring.head buf head hw
    change head = pos q.shmem.start s.seen ∧ q.shmem.returned.length ≤ s.seen ∧ _
    rw [hgrows.start, hsame.returned]
    exact ⟨hhead, hle, hge.trans hgrows.published⟩
  · have hold := h.answered p hp hlatch
    cases hpc : p.pc with
    | starting | initializing =>
      rw [hpc] at hold
      exact hold
    | waitLatch =>
      rw [hpc] at hold
      change s.requested ≤ q.shmem.returned.length
      rw [hsame.returned]
      exact hold
    | draining =>
      rw [hpc] at hold
      change AnsweredIn s s.sys.pc at hold
      change AnsweredIn _ s.sys.pc
      cases hin : s.sys.pc with
      | dequeuing events =>
        rw [hin] at hold
        intro buf head hw
        change q.shmem.worker = _ at hw
        rw [hsame.worker] at hw
        exact hold buf head hw
      | exporting events | returned n =>
        rw [hin] at hold
        intro hlt
        change s.requested ≤ q.shmem.returned.length
        rw [hsame.returned]
        exact hold hlt
      | sleeping | calling => trivial
    | _ => trivial

theorem Serves.step (hring : Shmem.Inv s.sys.queue.shmem) (hi : Inv s) (h : Serves s)
    {l : Label ε cfg} (hok : Served s l) (hstep : Step s l s') : Serves s' := by
  cases hstep with
  | queue l q hl hq => exact h.queue hl hq
  | start pid settings hnone hpid hcrashed =>
    refine ⟨⟨Nat.zero_le _, h.ring.head⟩, fun _ _ => hok, fun q hq _ => ?_⟩
    cases hq
    rfl
  | moves l p s' hp hmoves => exact h.moves hp hmoves
  | reload file p sys hp hpc hsys =>
    have hm := hi.running p hp
    rw [hpc] at hm
    have hreloaded : (s.reloaded p file).pschEnabled = true := by
      unfold reloaded
      split
      · exact hok
      · exact h.enabled p hp
    -- the loop is entered, since the worker is on
    have hgoOn : sys.settings.pschEnabled = true ∧ sys.pc = .calling ∧
        sys.queue = s.sys.queue := by
      rcases hm with hsleep | ⟨n, hn, hfull⟩
      · rw [hsleep] at hsys
        cases System.step_cases hsys with
        | wake settings _ => exact ⟨hreloaded, if_pos hreloaded, rfl⟩
      · rw [hn] at hsys
        cases System.step_cases hsys with
        | sleep settings k hk hlt =>
          rw [hn] at hk
          cases hk
          exact absurd hfull (Nat.not_le.mpr hlt)
        | again settings k hk hle => exact ⟨hreloaded, if_pos hreloaded, rfl⟩
    obtain ⟨hon, hcalling, hqueue⟩ := hgoOn
    refine ⟨h.ring.same hqueue rfl rfl, fun _ _ => hon, fun q hq _ => ?_⟩
    cases hq
    simp only [hon, if_true]
    change AnsweredIn _ sys.pc
    rw [hcalling]
    trivial
  | work l p sys hp hpc hl hsys =>
    exact h.work hring hi.sys hp hpc hl hok (System.step_cases hsys)
  | signal sig p hp =>
    refine ⟨h.ring.same rfl rfl rfl, fun _ _ => h.enabled p hp, fun q hq hlatch => ?_⟩
    cases hq
    rw [handle_latch] at hlatch
    cases hlatch
  | dieInside plan k c p hp =>
    refine ⟨h.ring.same (cutShort_queue plan k c s.sys) rfl rfl, fun _ _ => ?_, fun q hq _ => ?_⟩
    · change (cutShort plan k c s.sys).settings.pschEnabled = true
      rw [cutShort_settings]
      exact h.enabled p hp
    · cases hq
      trivial
  | vanish plan k c p hp =>
    exact ⟨h.ring.same (cutShort_queue plan k c s.sys) rfl rfl, fun q hq => (by cases hq),
      fun q hq => by cases hq⟩
  | killed b recycled p hp =>
    refine ⟨⟨le_rfl, h.ring.head⟩, fun _ _ => h.enabled p hp, fun q hq hlatch => ?_⟩
    cases hq
    cases hlatch
  | notRunning => exact h
  | flush | strayed | noSuchProcess | clear =>
    exact ⟨h.ring.same rfl rfl rfl, h.enabled, h.answered⟩

theorem serves_reachable (hs : ((machine ε cfg).under Served).Reachable s) : Serves s := by
  have hknown : ∀ s : Bgworker ε cfg, (machine ε cfg).toSpec.Reachable s →
      Shmem.Inv s.sys.queue.shmem ∧ Inv s := fun _ hs => ⟨shmem_inv hs, inv_reachable hs⟩
  refine Machine.invariant_under hknown ?_ ?_ hs
  · rintro s ⟨queue, exporter, settings, ⟨⟨start, slots, hsh⟩, -⟩, -, rfl⟩
    refine ⟨.of_not_reading (Nat.zero_le _) fun buf head hw => ?_, fun p hp => (by cases hp),
      fun p hp => by cases hp⟩
    change queue.shmem.worker = _ at hw
    rw [hsh] at hw
    cases hw
  · exact fun s s' l hk h hok hstep => h.step hk.1 hk.2 hok (step_cases hstep)

/-- As long as nothing goes wrong and `psch_enabled` stays on, a worker that waits on an unset
latch has taken all events that were published when SIGUSR2 last reached it, and whatever has
left the ring is acknowledged or was in the hands of a process that was ended. -/
theorem flush_served (s : Bgworker ε cfg) (hs : ((machine ε cfg).under Served).Reachable s)
    (p : WorkerProcess) (hp : s.process = some p) (hpc : p.pc = .waitLatch)
    (hlatch : p.latch = false) :
    s.requested ≤ s.sys.queue.shmem.returned.length ∧ ∃ out,
      List.Forall₂ (RoundTrip cfg.hash)
        (s.sys.queue.shmem.published.take s.sys.queue.shmem.returned.length) out ∧
      (s.sys.exportState.acked.flatten ++ s.abandoned).Perm out := by
  have hall := Machine.reachable_of_under hs
  have hanswered := (serves_reachable hs).answered p hp hlatch
  rw [hpc] at hanswered
  have haccounted := accounted_reachable
    (Machine.reachable_under_mono (fun _ _ h => Served.batchServed h) hs)
  have hidle := (inv_reachable hall).running p hp
  rw [hpc] at hidle
  change s.sys.pc = .sleeping at hidle
  refine ⟨hanswered, s.sys.queue.shmem.returned,
    Shmem.returned_roundTrip (shmem_reachable hall), ?_⟩
  unfold Accounted at haccounted
  rw [hidle] at haccounted
  simpa [WorkerPc.events] using haccounted

/-- The worker waits, an event is published, a backend flushes, and the worker serves it. -/
def flushes : List (Label ClickHouseExporter sampleConfig) :=
  upAndWaiting 7 ++ System.oneIn.map .queue ++
    [.flush proc₀, .kill proc₀ false, .wait false, .resetLatch, .processBarrier,
      .checkForInterrupts, .handleConfigReload bootSettings, .work (.beginExport System.allOk)] ++
    System.takeOne.map .work ++
    [.work (.dequeue {}), .work .dequeueStep, .work (.exportEvents System.allOk), .batchDone]

theorem flush_served_one :
    let s := (machine ClickHouseExporter sampleConfig).run sample flushes
    s.requested = 1 ∧ s.sys.exportState.acked.flatten.length = 1 ∧
      s.requested ≤ s.sys.queue.shmem.returned.length := by
  have hinit : ((machine ClickHouseExporter sampleConfig).under Served).Reachable sample :=
    .init sample_init
  refine ⟨by decide +kernel, by decide +kernel,
    (flush_served _ (Machine.run_reachable_under hinit flushes ?_)
      { myProcPid := 7, pc := .waitLatch } (by decide +kernel) rfl rfl).1⟩
  intro l hl s
  simp only [flushes, upAndWaiting, System.takeOne, List.mem_append, List.mem_map, List.mem_cons,
    List.not_mem_nil, or_false] at hl
  have hbegin : Served s (.work (.beginExport System.allOk)) := System.allOk_clean.served _
  have hexport : Served s (.work (.exportEvents System.allOk)) := by
    rintro plan hplan -
    cases hplan
    exact System.allOk_clean.served _
  rcases hl with (((h | ⟨l', -, rfl⟩) | h) | ⟨l', hl', rfl⟩) | h
  · rcases h with rfl | rfl | rfl <;> trivial
  · trivial
  · rcases h with rfl | rfl | rfl | rfl | rfl | rfl | rfl | rfl <;> trivial
  · rcases hl' with rfl | hl'
    · trivial
    · rw [List.eq_of_mem_replicate hl']
      trivial
  · rcases h with rfl | rfl | rfl | rfl <;> trivial

end Bgworker

end PgStatCh
