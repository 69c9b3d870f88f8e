import PgStatCh.Export.Delivery
import PgStatCh.Queue.FastPath
import PgStatCh.Queue.Conservation

/-!
# Export.Snapshot — what `pg_stat_ch_stats()` shows

`PschGetStats` (shmem.c) reads the counters one after the other, then `head`, then
`tail`, without the lock; between the reads backends and the worker go on. What it returns
is made of as many states of a run, in this order:

* the size of the queue is right, and at most its capacity, as long as the worker has
  not passed the `head` that was read (`queue_size_le_iff`). Once it has, the difference
  wraps (`queue_size_wraps`);
* `exported` is at most `enqueued` as long as the worker has dequeued no more events
  when `exported` is read than were counted when `enqueued` was read
  (`exported_le_enqueued`). Events that come and go between the two reads break this, and
  so does an event whose producer has stored `head` and not yet counted it
  (`exported_gt_enqueued`).
-/

namespace PgStatCh

open Lib Tla Prog StatsExporter

/-- What `PschGetStats` returns. -/
structure PschStats where
  enqueued : UInt64
  dropped : UInt64
  exported : UInt64
  sendFailures : UInt64
  queueSize : UInt32
  queueCapacity : UInt32
  lastErrorText : String

/-- Where in a run each read of `PschGetStats` is made. -/
structure StatReads where
  enqueued : ℕ
  dropped : ℕ
  exported : ℕ
  sendFailures : ℕ
  head : ℕ
  tail : ℕ
  /-- with the lock held -/
  lastError : ℕ
  enqueued_le : enqueued ≤ dropped
  dropped_le : dropped ≤ exported
  exported_le : exported ≤ sendFailures
  sendFailures_le : sendFailures ≤ head
  head_le : head ≤ tail
  tail_le : tail ≤ lastError

/-- A row of `pg_stat_ch_stats()`. -/
structure StatsRow where
  enqueued : Int64
  dropped : Int64
  exported : Int64
  sendFailures : Int64
  lastErrorText : Option String
  queueSize : Int32
  queueCapacity : Int32
  usagePct : ℚ

/-- `pg_stat_ch_stats`: the unsigned numbers become signed columns, and an empty text is
null. -/
def pgStatChStats (stats : PschStats) : StatsRow where
  enqueued := stats.enqueued.toInt64
  dropped := stats.dropped.toInt64
  exported := stats.exported.toInt64
  sendFailures := stats.sendFailures.toInt64
  lastErrorText := if stats.lastErrorText = "" then none else some stats.lastErrorText
  queueSize := stats.queueSize.toInt32
  queueCapacity := stats.queueCapacity.toInt32
  usagePct :=
    if 0 < stats.queueCapacity then 100 * stats.queueSize.toNat / stats.queueCapacity.toNat else 0

namespace System

variable {ε : Type} {cfg : Config}

/-- `PschGetStats`, with its reads made in these states of a run. -/
def pschGetStats (st : ℕ → System ε cfg) (reads : StatReads) : PschStats where
  enqueued := (st reads.enqueued).queue.shmem.enqueued
  dropped := (st reads.dropped).queue.shmem.dropped
  exported := (st reads.exported).exportState.exported
  sendFailures := (st reads.sendFailures).exportState.sendFailures
  queueSize :=
    ((st reads.head).queue.shmem.head - (st reads.tail).queue.shmem.tail).toUInt32
  queueCapacity := cfg.capacity
  lastErrorText := (st reads.lastError).exportState.lastErrorText

variable [StatsExporter ε] {s s' : System ε cfg}

/-! ## The size of the queue -/

/-- The two reads as counts of events. -/
theorem queueSize_eq (e : Behavior (machine ε cfg).toSpec) (reads : StatReads) :
    (pschGetStats e.st reads).queueSize =
      (pos (e.st 0).queue.shmem.start (e.st reads.head).queue.shmem.published.length -
        pos (e.st 0).queue.shmem.start (e.st reads.tail).queue.shmem.returned.length).toUInt32 :=
  congrArg UInt64.toUInt32
    (Queue.reads_eq ((refines_queue ε cfg).behavior e) reads.head reads.tail)

/-- While the worker has not passed the `head` that was read, at most as many events wait as
there are slots. -/
theorem waiting_le (e : Behavior (machine ε cfg).toSpec) (reads : StatReads) :
    (e.st reads.head).queue.shmem.published.length -
      (e.st reads.tail).queue.shmem.returned.length ≤ cfg.capacity.toNat := by
  have hbound := (shmem_inv (e.reachable reads.head)).bound
  have hret : (e.st reads.head).queue.shmem.returned.length ≤
      (e.st reads.tail).queue.shmem.returned.length :=
    Queue.returned_mono ((refines_queue ε cfg).behavior e) reads.head_le
  omega

/-- Before the worker has passed the `head` that was read, the size is the number of events
between the two reads; after that it is what is missing to a multiple of `2^32`. -/
theorem queueSize_toNat (e : Behavior (machine ε cfg).toSpec) (reads : StatReads) :
    let published := (e.st reads.head).queue.shmem.published.length
    let dequeued := (e.st reads.tail).queue.shmem.returned.length
    (pschGetStats e.st reads).queueSize.toNat =
      if dequeued ≤ published then published - dequeued
      else 2 ^ 32 - 1 - (dequeued - published - 1) % 2 ^ 32 := by
  intro published dequeued
  have hwaiting : published - dequeued ≤ cfg.capacity.toNat := waiting_le e reads
  have hcap := cfg.capacity.toNat_lt
  rw [queueSize_eq, UInt64.toNat_toUInt32]
  split
  · next hle =>
    rw [pos_sub_toNat hle (by omega)]
    omega
  · next hgt =>
    rw [UInt64.toNat_sub, pos_toNat, pos_toNat]
    omega

theorem usagePct_le (stats : PschStats) (hle : stats.queueSize ≤ stats.queueCapacity) :
    (pgStatChStats stats).usagePct ≤ 100 := by
  have hnat : (stats.queueSize.toNat : ℚ) ≤ stats.queueCapacity.toNat := by
    exact_mod_cast UInt32.le_iff_toNat_le.mp hle
  unfold pgStatChStats
  simp only
  split
  · exact div_le_of_le_mul₀ (by positivity) (by norm_num) (by linarith)
  · norm_num

theorem toInt32_nonneg {n : UInt32} (hlt : n.toNat < 2 ^ 31) : 0 ≤ n.toInt32 := by
  have hint : n.toInt32.toInt = n.toNat := by
    change n.toBitVec.toInt = _
    rw [BitVec.toInt_eq_toNat_of_lt (by simpa using (by omega : 2 * n.toNat < 2 ^ 32))]
    rfl
  rw [Int32.le_iff_toInt_le, hint, Int32.toInt_zero]
  omega

/-- The size is at most the capacity exactly as long as the worker has not passed the `head`
that was read, or has passed it by so much that the difference has wrapped all the way round.
In the first case the size is the number of events between the two reads, the percentage is at
most 100, and the column is not negative if the capacity is one that the setting allows. -/
theorem queue_size_le_iff (e : Behavior (machine ε cfg).toSpec) (reads : StatReads) :
    let stats := pschGetStats e.st reads
    let published := (e.st reads.head).queue.shmem.published.length
    let dequeued := (e.st reads.tail).queue.shmem.returned.length
    (stats.queueSize ≤ stats.queueCapacity ↔
      dequeued ≤ published ∨
        2 ^ 32 ≤ (dequeued - published - 1) % 2 ^ 32 + 1 + cfg.capacity.toNat) ∧
    (dequeued ≤ published →
      stats.queueSize.toNat = published - dequeued ∧ (pgStatChStats stats).usagePct ≤ 100 ∧
        (cfg.capacity.toNat ≤ 4194304 → 0 ≤ (pgStatChStats stats).queueSize)) := by
  intro stats published dequeued
  have hwaiting : published - dequeued ≤ cfg.capacity.toNat := waiting_le e reads
  have hsize : stats.queueSize.toNat = if dequeued ≤ published then published - dequeued
      else 2 ^ 32 - 1 - (dequeued - published - 1) % 2 ^ 32 := queueSize_toNat e reads
  have hiff : stats.queueSize ≤ stats.queueCapacity ↔ dequeued ≤ published ∨
      2 ^ 32 ≤ (dequeued - published - 1) % 2 ^ 32 + 1 + cfg.capacity.toNat := by
    rw [UInt32.le_iff_toNat_le, hsize]
    change _ ≤ cfg.capacity.toNat ↔ _
    split <;> omega
  refine ⟨hiff, ?_⟩
  intro hle
  rw [if_pos hle] at hsize
  refine ⟨hsize, usagePct_le stats (hiff.mpr (Or.inl hle)), ?_⟩
  intro hcap
  have hlt : stats.queueSize.toNat < 2 ^ 31 := by
    rw [hsize]
    omega
  exact toInt32_nonneg hlt

end System

/-- All reads in one state. -/
def StatReads.together (n : ℕ) : StatReads where
  enqueued := n
  dropped := n
  exported := n
  sendFailures := n
  head := n
  tail := n
  lastError := n
  enqueued_le := le_rfl
  dropped_le := le_rfl
  exported_le := le_rfl
  sendFailures_le := le_rfl
  head_le := le_rfl
  tail_le := le_rfl

/-- Everything up to `head` is read in the beginning, the rest later. -/
def StatReads.headFirst (n : ℕ) : StatReads where
  enqueued := 0
  dropped := 0
  exported := 0
  sendFailures := 0
  head := 0
  tail := n
  lastError := n
  enqueued_le := le_rfl
  dropped_le := le_rfl
  exported_le := le_rfl
  sendFailures_le := le_rfl
  head_le := Nat.zero_le n
  tail_le := le_rfl

/-- Only `enqueued` is read in the beginning. -/
def StatReads.enqueuedFirst (n : ℕ) : StatReads where
  enqueued := 0
  dropped := n
  exported := n
  sendFailures := n
  head := n
  tail := n
  lastError := n
  enqueued_le := Nat.zero_le n
  dropped_le := le_rfl
  exported_le := le_rfl
  sendFailures_le := le_rfl
  head_le := le_rfl
  tail_le := le_rfl

namespace System

/-- Two events are enqueued, and the worker takes one of them. -/
def oneOfTwo : Behavior (machine ClickHouseExporter sampleConfig).toSpec :=
  (machine ClickHouseExporter sampleConfig).behavior sampleClickHouse sampleClickHouse_init
    (batch twoIn 1 sampleClickHouse.settings allOk)

theorem queue_size_le_iff_oneOfTwo :
    (oneOfTwo.st 51).queue.shmem.published.length = 2 ∧
    (oneOfTwo.st 51).queue.shmem.returned.length = 1 ∧
    (pschGetStats oneOfTwo.st (.together 51)).queueSize.toNat = 1 ∧
    0 ≤ (pgStatChStats (pschGetStats oneOfTwo.st (.together 51))).queueSize := by
  have hpublished : (oneOfTwo.st 51).queue.shmem.published.length = 2 := by decide +kernel
  have hdequeued : (oneOfTwo.st 51).queue.shmem.returned.length = 1 := by decide +kernel
  obtain ⟨-, hnot⟩ := queue_size_le_iff oneOfTwo (.together 51)
  simp only [StatReads.together, hpublished, hdequeued] at hnot
  obtain ⟨hsize, -, hcolumn⟩ := hnot (by decide)
  exact ⟨hpublished, hdequeued, hsize, hcolumn (by decide)⟩

/-- One event is enqueued and exported. -/
def oneThrough : Behavior (machine ClickHouseExporter sampleConfig).toSpec :=
  (machine ClickHouseExporter sampleConfig).behavior sampleClickHouse sampleClickHouse_init
    (batch oneIn 1 sampleClickHouse.settings allOk)

/-- An event goes through the empty queue between the reads of `head` and `tail`. -/
theorem queue_size_wraps :
    (pschGetStats oneThrough.st (.headFirst 33)).queueCapacity = 1024 ∧
    (pschGetStats oneThrough.st (.headFirst 33)).queueSize = 4294967295 ∧
    (pgStatChStats (pschGetStats oneThrough.st (.headFirst 33))).queueSize = -1 ∧
    100 < (pgStatChStats (pschGetStats oneThrough.st (.headFirst 33))).usagePct := by
  decide +kernel

/-! ## Exported and enqueued -/

section Counters

variable {ε : Type} [StatsExporter ε] {cfg : Config} {s s' : System ε cfg}

/-- The counter of the enqueued events, before it wraps. -/
theorem enqueued_eq (e : Behavior (machine ε cfg).toSpec) (n : ℕ) :
    (e.st n).queue.shmem.enqueued =
      UInt64.ofNat (∑ b, ((e.st n).queue.shmem.tally b).enqueued) :=
  (Shmem.counted_reachable
    (Queue.shmem_reachable ((refines_queue ε cfg).reachable (e.reachable n)))).enqueued

/-- `exported` counts, modulo `2^64`, events that left the ring and are no longer in the
worker's hands. -/
def ExportedLeft (s : System ε cfg) : Prop :=
  ∃ n, s.exportState.exported = UInt64.ofNat n ∧
    n + s.pc.events.length ≤ s.queue.shmem.returned.length

variable [Scheduled ε] [LawfulExporter ε]

theorem ExportedLeft.step (hi : Inv s) (h : ExportedLeft s) {l : Label cfg}
    (hstep : Step s l s') : ExportedLeft s' := by
  obtain ⟨n, hn, hle⟩ := h
  cases hstep.delivers hi with
  | nothing hacked hexported hevents hreturned =>
    exact ⟨n, hexported.trans hn, by rw [hevents, hreturned]; exact hle⟩
  | takes out hstate hevents hreturned =>
    refine ⟨n, by rw [hstate, hn], ?_⟩
    rw [hevents, hreturned, List.length_append, List.length_append]
    omega
  | exports plan ret new hl hreport hevents hreturned =>
    subst hl
    cases hstep with
    | exported _ events ret x hpc hx =>
      rw [hpc] at hle
      rw [ExportedLeft, hevents, hreturned]
      obtain ⟨-, r, hends, -⟩ := exportEvents_ends hi hpc hx
      cases hends with
      | empty r x hempty hsame => exact ⟨n, hsame.exported.trans hn, (Nat.le_add_right _ _).trans hle⟩
      | exported x new hne hserved hacked hall hexported =>
        -- the whole batch is counted, and it was in the worker's hands
        refine ⟨n + events.length, ?_, hle⟩
        rw [UInt64.ofNat_add, ← hn]
        exact hexported
      | broken x a new hne hinOrder hbroken =>
        exact ⟨n, hbroken.exported.trans hn, (Nat.le_add_right _ _).trans hle⟩

theorem exportedLeft_reachable (hs : (machine ε cfg).toSpec.Reachable s) : ExportedLeft s := by
  refine Spec.Reachable.invariant_of (fun _ => inv_reachable) ?_ ?_ hs
  · intro s hinit
    obtain ⟨-, hexported, hreturned, hpc⟩ := Init.nothing hinit
    refine ⟨0, hexported, ?_⟩
    rw [hpc, hreturned]
    exact le_rfl
  · rintro s s' hi h ⟨l, hstep⟩
    exact h.step hi (step_cases hstep)

/-- As long as `enqueued` has not wrapped, `exported` is at most `enqueued` if the worker has
dequeued no more events when `exported` is read than were counted when `enqueued` was read; and
only then, if all events it has dequeued were exported. -/
theorem exported_le_enqueued (e : Behavior (machine ε cfg).toSpec) (reads : StatReads)
    (hlt : ∑ b, ((e.st reads.enqueued).queue.shmem.tally b).enqueued < 2 ^ 64) :
    let stats := pschGetStats e.st reads
    let counted := ∑ b, ((e.st reads.enqueued).queue.shmem.tally b).enqueued
    let dequeued := (e.st reads.exported).queue.shmem.returned.length
    (dequeued ≤ counted → stats.exported ≤ stats.enqueued) ∧
    (stats.exported.toNat = dequeued → (stats.exported ≤ stats.enqueued ↔ dequeued ≤ counted)) := by
  intro stats counted dequeued
  have henqueued : stats.enqueued.toNat = counted := by
    change (e.st reads.enqueued).queue.shmem.enqueued.toNat = counted
    rw [enqueued_eq, UInt64.toNat_ofNat_of_lt' hlt]
  obtain ⟨n, hn, hleft⟩ := exportedLeft_reachable (e.reachable reads.exported)
  have hexported : stats.exported.toNat ≤ n := by
    change (e.st reads.exported).exportState.exported.toNat ≤ n
    rw [hn, UInt64.toNat_ofNat']
    exact Nat.mod_le _ _
  rw [UInt64.le_iff_toNat_le, henqueued]
  constructor
  · intro hle
    omega
  · intro hall
    rw [hall]

end Counters

theorem exported_le_enqueued_oneThrough :
    (pschGetStats oneThrough.st (.together 33)).exported = 1 ∧
    (pschGetStats oneThrough.st (.together 33)).exported ≤
      (pschGetStats oneThrough.st (.together 33)).enqueued := by
  have hcounted : ∑ b, ((oneThrough.st 33).queue.shmem.tally b).enqueued = 1 := by decide +kernel
  have hdequeued : (oneThrough.st 33).queue.shmem.returned.length = 1 := by decide +kernel
  obtain ⟨hle, -⟩ := exported_le_enqueued oneThrough (.together 33) (by
    rw [StatReads.together, hcounted]
    decide)
  refine ⟨by decide +kernel, hle ?_⟩
  rw [StatReads.together, hcounted, hdequeued]

/-- A producer stores `head`, and the event is exported before the producer counts it. -/
def beforeCounted : Behavior (machine ClickHouseExporter sampleConfig).toSpec :=
  (machine ClickHouseExporter sampleConfig).behavior sampleClickHouse sampleClickHouse_init
    (batch (oneIn.take 15) 1 sampleClickHouse.settings allOk)

/-- An event is enqueued and exported between the two reads; or it is exported before it is
counted, and then even reading both counters at once does not help. -/
theorem exported_gt_enqueued :
    ((pschGetStats oneThrough.st (.enqueuedFirst 33)).enqueued = 0 ∧
      (pschGetStats oneThrough.st (.enqueuedFirst 33)).exported = 1) ∧
    ((pschGetStats beforeCounted.st (.together 30)).enqueued = 0 ∧
      (pschGetStats beforeCounted.st (.together 30)).exported = 1) := by
  decide +kernel

end System

end PgStatCh
