import PgStatCh.Export.Calls

/-!
# Export.Backoff — how long the worker sleeps after failures

`CalculateSleepMs` (bgworker.c) takes the flush interval, or the retry delay that the
exporter's count of consecutive failures gives (`PschGetRetryDelayMs`) if that is
longer. So the delay doubles with every failed call, as long as the failures are counted:
`backoff_follows_failures` says for which calls this is the case (`Counted`), by what goes
wrong in them first. The count is kept by `CommitBatch`, `FlushChunk` and `SendArrowBatch`;
what goes wrong outside of these is recorded in `send_failures` only. So a backend to which
no connection can be made is tried again in every flush interval, and so is one whose
failure is not counted because an ERROR leaves the message about it
(`refused_connection_not_counted`). An Arrow block that is acknowledged sets the count to
zero even if a later block of the batch is rejected.
-/

namespace PgStatCh

open Lib Tla Prog StatsExporter

/-! ## The delay -/

def kBaseDelayMs : ℕ := 1000

def kMaxDelayMs : ℕ := 60000

def kMaxConsecutiveFailures : ℕ := 10

/-- `PschGetRetryDelayMs`, for this count of failures. -/
def pschGetRetryDelayMs (failures : ℕ) : ℕ :=
  if failures ≤ 0 then 0
  else
    let cappedFailures :=
      if kMaxConsecutiveFailures < failures then kMaxConsecutiveFailures else failures
    let delay := kBaseDelayMs * 2 ^ (cappedFailures - 1)
    if kMaxDelayMs < delay then kMaxDelayMs else delay

/-- `CalculateSleepMs`, for this count of failures. -/
def calculateSleepMs (flushIntervalMs failures : ℕ) : ℕ :=
  if 0 < failures then
    if flushIntervalMs < pschGetRetryDelayMs failures then pschGetRetryDelayMs failures
    else flushIntervalMs
  else flushIntervalMs

theorem pschGetRetryDelayMs_eq {n : ℕ} (hn : 1 ≤ n) :
    pschGetRetryDelayMs n = min 60000 (1000 * 2 ^ (min n 10 - 1)) := by
  unfold pschGetRetryDelayMs kMaxConsecutiveFailures kMaxDelayMs kBaseDelayMs
  rw [if_neg (by omega)]
  have hcap : (if 10 < n then 10 else n) = min n 10 := by
    split <;> omega
  simp only [hcap]
  split <;> omega

theorem retryDelay_mono {n m : ℕ} (hle : n ≤ m) :
    min 60000 (1000 * 2 ^ (min n 10 - 1)) ≤ min 60000 (1000 * 2 ^ (min m 10 - 1)) := by
  have hexp : min n 10 - 1 ≤ min m 10 - 1 := by omega
  have hpow : 2 ^ (min n 10 - 1) ≤ 2 ^ (min m 10 - 1) := Nat.pow_le_pow_right (by decide) hexp
  omega

/-- With at least `n` failures counted, the worker sleeps as long as `n` failures ask for. -/
theorem le_calculateSleepMs {flushIntervalMs n failures : ℕ} (hn : 1 ≤ n) (hle : n ≤ failures) :
    min 60000 (1000 * 2 ^ (min n 10 - 1)) ≤ calculateSleepMs flushIntervalMs failures ∧
      flushIntervalMs ≤ calculateSleepMs flushIntervalMs failures := by
  have hmono := retryDelay_mono hle
  have hdelay := pschGetRetryDelayMs_eq (hn.trans hle)
  unfold calculateSleepMs
  rw [if_pos (by omega)]
  split <;> omega

/-! ## Which failures are counted -/

section Counted

variable {ε : Type} [StatsExporter ε] [Scheduled ε]

/-- The exporter counts this fault of a batch: with ClickHouse, any that `CommitBatch` comes to
handle; with OpenTelemetry, a request that is rejected or throws, where with log records only the
last one's exception gets to `CommitBatch`. In each case a message is written first. -/
def CountedFault (ε : Type) [StatsExporter ε] (settings : Settings) (asks : List Ask) (plan : Plan)
    (a : Ask) : Prop :=
  if useOtel ε then
    ∃ j, a = .call (.send j) ∧
      ((∃ m, plan (.send j) = .fails m) ∧ plan.passes (.log .sendFailed) = true ∨
        (∃ e, plan (.send j) = .throws e) ∧ plan.passes (.log .sendThrew) = true ∧
          (settings.arrowPassthrough = true ∨ asks.getLast? = some a))
  else ∃ p, a = .call p ∧ plan p ≠ .raises ∧ plan.passes (.log .recordFailure) = true

/-- The call gets past the dequeuing, and what goes wrong there is counted. With Arrow blocks the
count starts again when one is acknowledged. -/
def Counted (s : ExportState ε) (call : ExportCall) : Prop :=
  Begun s call ∧ ∃ a, call.plan.firstFault (call.way s).asks = some a ∧
    CountedFault ε call.settings (call.way s).asks call.plan a ∧
    ((useOtel ε && call.settings.arrowPassthrough) = true →
      a = .call (.send 0) ∨ s.failures = 0)

/-- What counting relies on, of any exporter. -/
class CountingExporter (ε : Type) [StatsExporter ε] [Scheduled ε] : Prop where
  counted_iff : ∀ {plan : Plan} {settings : Settings} {events : List PschEvent} {x : ε} {a : Ask}
      {new : List (List PschEvent)} (n : ℕ), plan.FaultAt (route x settings events).asks a new →
    (∀ j, a = .call (.send j) → j = new.length) →
    ((route x settings events).settled n new +
        ((route x settings events).handled plan a).counted.toNat = n + 1 ↔
      CountedFault ε settings (route x settings events).asks plan a ∧
        ((useOtel ε && settings.arrowPassthrough) = true → a = .call (.send 0) ∨ n = 0))

end Counted

theorem settled_add_iff {way : Route} {new : List (List PschEvent)} {n : ℕ} {counted : Bool} :
    way.settled n new + counted.toNat = n + 1 ↔
      counted = true ∧ (way.resets = true → new = [] ∨ n = 0) := by
  unfold Route.settled
  cases counted with
  | false => split <;> simp
  | true =>
    split
    · next h => simp [h.1, h.2]
    · next h => simpa [or_iff_not_imp_left] using fun hresets hne => absurd ⟨hresets, hne⟩ h

/-- An exception outside of the exporter is not counted. -/
theorem not_counted {h : Handled} (hh : h = .raised ∨ h = ⟨false, 1, some .zero⟩) :
    ¬ h.counted = true := by
  rcases hh with rfl | rfl <;> exact Bool.false_ne_true

/-! ### ClickHouse -/

theorem ClickHouseExporter.counted_iff {plan : Plan} {asks : List Ask} {a : Ask}
    (hfault : plan.firstFault asks = some a) :
    (ClickHouseExporter.handled plan a).counted = true ↔
      ∃ p, a = .call p ∧ plan p ≠ .raises ∧ plan.passes (.log .recordFailure) = true := by
  cases a with
  | call p =>
    have hp := Plan.ne_ok_of_firstFault hfault
    rw [ClickHouseExporter.handled, Plan.counted_handle hp, Plan.counted_logged]
    cases h : plan p with
    | ok => exact absurd h hp
    | fails m | throws e | raises => simp [h]
  | run p =>
    have hthrew := plan.logged_cases .eventStats ⟨false, 1, some .zero⟩
    exact iff_of_false (not_counted (plan.handle_cases hthrew hthrew))
      (by rintro ⟨p, hno, -⟩; cases hno)
  | log l => exact iff_of_false Bool.false_ne_true (by rintro ⟨p, hno, -⟩; cases hno)

instance : CountingExporter ClickHouseExporter where
  counted_iff := by
    intro plan settings events x a new n hfault _
    change plan.FaultAt (ClickHouseExporter.route events.length).asks a new at hfault
    have hcounted : (ClickHouseExporter.handled plan a).counted = true ↔ _ :=
      ClickHouseExporter.counted_iff hfault.first
    rw [settled_add_iff]
    refine (and_congr_left' hcounted).trans (and_congr_right ?_)
    rintro ⟨p, rfl, -⟩
    -- a call that goes wrong does so before the block is in
    have hnone := hfault.unacknowledged (ClickHouseExporter.unacknowledged hfault.first nofun)
    exact iff_of_true (fun _ => Or.inl hnone) fun hno => absurd hno Bool.false_ne_true

/-! ### OpenTelemetry -/

namespace OTelExporter

theorem afterRejection_counted (plan : Plan) (n : ℕ) : (afterRejection plan n).counted = true := by
  unfold afterRejection
  split
  · rfl
  · split <;> rfl
  · rfl

/-- Only requests can fail. -/
theorem call_of_mem_recordAsks {c : Chunk} {i j : ℕ} {events : List PschEvent} {p : Point}
    (h : Ask.call p ∈ recordAsks c i j events) : ∃ k, p = .send k := by
  induction events generalizing c i j with
  | nil =>
    unfold recordAsks at h
    split at h
    · simp at h
    · exact ⟨j, by simpa using h⟩
  | cons ev rest ih =>
    unfold recordAsks at h
    split at h
    · split at h
      · simp only [List.mem_cons, reduceCtorEq, false_or] at h
        exact ih h
      · simp only [List.mem_cons, reduceCtorEq, false_or, Ask.call.injEq] at h
        rcases h with h | h
        · exact ⟨j, h⟩
        · exact ih h
    · simp only [List.mem_cons, reduceCtorEq, false_or] at h
      exact ih h

theorem send_of_firstFault {plan : Plan} {o : OTelExporter} {events : List PschEvent} {p : Point}
    (hfault : plan.firstFault (route o events).asks = some (.call p)) : ∃ j, p = .send j := by
  have hmem := Plan.mem_of_firstFault hfault
  simp only [route, batchAsks, List.cons_append, List.nil_append, List.mem_cons, reduceCtorEq,
    false_or] at hmem
  exact call_of_mem_recordAsks hmem

theorem counted_iff {plan : Plan} {o : OTelExporter} {events : List PschEvent} {a : Ask}
    (hfault : plan.firstFault (route o events).asks = some a) :
    ((route o events).handled plan a).counted = true ↔
      ∃ j, a = .call (.send j) ∧
        ((∃ m, plan (.send j) = .fails m) ∧ plan.passes (.log .sendFailed) = true ∨
          (∃ e, plan (.send j) = .throws e) ∧ plan.passes (.log .sendThrew) = true ∧
            (route o events).asks.getLast? = some a) := by
  have hthrew := plan.logged_cases .eventStats ⟨false, 1, some .zero⟩
  cases a with
  | call p =>
    obtain ⟨j, rfl⟩ := send_of_firstFault hfault
    have hcall : (route o events).handled plan (.call (.send j)) = plan.handle (.send j)
        (if (route o events).asks.getLast? = some (.call (.send j)) then
          plan.logged .sendThrew ⟨true, 1, some .acked⟩ else plan.buildThrew)
        (plan.logged .sendFailed (afterRejection plan events.length)) := rfl
    rw [hcall, Plan.counted_handle (Plan.ne_ok_of_firstFault hfault), Plan.counted_logged]
    have hlast : (if (route o events).asks.getLast? = some (.call (.send j)) then
          plan.logged .sendThrew ⟨true, 1, some .acked⟩ else plan.buildThrew).counted = true ↔
        plan.passes (.log .sendThrew) = true ∧
          (route o events).asks.getLast? = some (.call (.send j)) := by
      split
      · next h => simp [Plan.counted_logged, h]
      · next h => exact iff_of_false (not_counted hthrew) fun hno => h hno.2
    rw [hlast]
    simp only [afterRejection_counted, and_true, Ask.call.injEq, Point.send.injEq,
      exists_eq_left', or_comm]
  | run p =>
    exact iff_of_false (not_counted (plan.handle_cases hthrew hthrew))
      (by rintro ⟨p, hno, -⟩; cases hno)
  | log l => exact iff_of_false Bool.false_ne_true (by rintro ⟨p, hno, -⟩; cases hno)

end OTelExporter

theorem ArrowBatchBuilder.counted_iff {plan : Plan} {asks : List Ask} {a : Ask}
    (hfault : plan.firstFault asks = some a) :
    (ArrowBatchBuilder.handled plan a).counted = true ↔
      ∃ j, a = .call (.send j) ∧
        ((∃ m, plan (.send j) = .fails m) ∧ plan.passes (.log .sendFailed) = true ∨
          (∃ e, plan (.send j) = .throws e) ∧ plan.passes (.log .sendThrew) = true) := by
  have hthrew := plan.logged_cases .arrowExport ⟨false, 1, some .zero⟩
  cases a with
  | call p =>
    have hp := Plan.ne_ok_of_firstFault hfault
    cases p with
    | send j =>
      rw [ArrowBatchBuilder.handled, Plan.counted_handle hp, Plan.counted_logged,
        Plan.counted_logged]
      simp only [and_true, Ask.call.injEq, Point.send.injEq, exists_eq_left', or_comm]
    | arrowInit =>
      exact iff_of_false (not_counted (plan.handle_cases hthrew (plan.logged_cases _ _)))
        (by rintro ⟨j, hno, -⟩; cases hno)
    | _ =>
      refine iff_of_false ?_ (by rintro ⟨j, hno, -⟩; cases hno)
      rw [ArrowBatchBuilder.handled, Plan.counted_handle hp]
      · simp [Plan.counted_logged]
      · nofun
      · nofun
  | run p =>
    exact iff_of_false (not_counted (plan.handle_cases hthrew hthrew))
      (by rintro ⟨p, hno, -⟩; cases hno)
  | log l => exact iff_of_false Bool.false_ne_true (by rintro ⟨p, hno, -⟩; cases hno)

instance : CountingExporter OTelExporter where
  counted_iff := by
    intro plan settings events x a new n hfault hrequest
    rw [settled_add_iff]
    by_cases harrow : settings.arrowPassthrough = true
    · have hway : route x settings events = ArrowBatchBuilder.route settings events := if_pos harrow
      rw [hway] at hfault ⊢
      have hcounted : ((ArrowBatchBuilder.route settings events).handled plan a).counted = true ↔
          _ := ArrowBatchBuilder.counted_iff hfault.first
      have hiff : CountedFault OTelExporter settings (ArrowBatchBuilder.route settings events).asks
          plan a ↔ ((ArrowBatchBuilder.route settings events).handled plan a).counted = true := by
        rw [hcounted]
        simp [CountedFault, useOtel, harrow]
      rw [hiff]
      refine and_congr_right fun hc => ?_
      obtain ⟨j, rfl, -⟩ := hcounted.mp hc
      -- the first block is the one before which none was acknowledged
      have hfirst : new = [] ↔ j = 0 := by
        rw [hrequest j rfl]
        exact List.length_eq_zero_iff.symm
      simp [ArrowBatchBuilder.route, useOtel, harrow, hfirst]
    · have hno : ¬ (useOtel OTelExporter && settings.arrowPassthrough) = true := harrow
      have hway : route x settings events = OTelExporter.route x events := if_neg hno
      rw [hway] at hfault ⊢
      have hcounted := OTelExporter.counted_iff hfault.first
      have hiff : CountedFault OTelExporter settings (OTelExporter.route x events).asks plan a ↔
          ((OTelExporter.route x events).handled plan a).counted = true := by
        rw [hcounted]
        simp [CountedFault, useOtel, harrow]
      rw [hiff]
      exact and_congr_right fun _ => iff_of_true (fun hno => absurd hno Bool.false_ne_true)
        fun hno' => absurd hno' hno

section Calls

variable {ε : Type} [StatsExporter ε] [Scheduled ε] [LawfulExporter ε] {s : ExportState ε}

theorem failures_of_foundNothing (hwf : LawfulExporter.WF s.exporter) {call : ExportCall}
    (hfound : FoundNothing s call) : (after s call).failures = s.failures := by
  have hempty : call.events = [] := List.length_eq_zero_iff.mp hfound.2
  cases (call_ends hwf call).2 with
  | notBegun a hfault => exact absurd hfound.1 (Plan.not_served_of_firstFault hfault)
  | empty hfound hexported hcount hrecorded => exact hcount
  | exported hbegun hserved hevents => exact absurd hempty hevents
  | broken hbegun hevents => exact absurd hempty hevents

variable [CountingExporter ε]

/-- What a failed call does to the count. -/
theorem failures_of_failed (hwf : LawfulExporter.WF s.exporter) {call : ExportCall}
    (hfailed : Failed s call) : (after s call).failures ≤ s.failures + 1 ∧
      ((after s call).failures = s.failures + 1 ↔ Counted s call) := by
  have hnot : ∀ a, call.opening.firstFault (openingAsks s.exporter) = some a → ¬ Begun s call :=
    fun a hfault => Plan.not_served_of_firstFault hfault
  cases (call_ends hwf call).2 with
  | notBegun a hfault hexported hcount hrecorded =>
    exact ⟨by omega, iff_of_false (by omega) fun hcounted => hnot a hfault hcounted.1⟩
  | empty hfound => exact absurd hfound hfailed.1
  | exported hbegun hserved hevents hexported => exact absurd hexported hfailed.2
  | broken hbegun hevents a new hfault hrequest hexported hcount hrecorded =>
    refine ⟨?_, ?_⟩
    · have hsettled : (call.way s).settled s.failures new ≤ s.failures := by
        unfold Route.settled
        split <;> omega
      have hone := Bool.toNat_le ((call.way s).handled call.plan a).counted
      omega
    · rw [hcount, ExportCall.way, CountingExporter.counted_iff s.failures hfault hrequest]
      constructor
      · exact fun h => ⟨hbegun, a, hfault.first, h⟩
      · rintro ⟨-, b, hb, h⟩
        rw [hfault.first] at hb
        cases hb
        exact h

/-- Without a success, and with all failures counted, the count goes up by their number. -/
theorem failures_after (hwf : LawfulExporter.WF s.exporter) {calls : List ExportCall}
    (h : EveryCall (fun s call => ¬ Succeeded s call ∧ (Failed s call → Counted s call)) s calls) :
    (calls.foldl after s).failures = s.failures + failedCalls s calls := by
  induction calls generalizing s with
  | nil => rfl
  | cons call calls ih =>
    obtain ⟨⟨hno, hcounted⟩, hrest⟩ := h
    have hlast := ih (call_ends hwf call).1 hrest
    rw [List.foldl_cons, hlast, failedCalls]
    by_cases hfailed : Failed s call
    · rw [if_pos hfailed, (failures_of_failed hwf hfailed).2.mpr (hcounted hfailed)]
      omega
    · have hfound : FoundNothing s call := by
        by_contra hfound
        exact hfailed ⟨hfound, hno⟩
      rw [if_neg hfailed, Nat.zero_add]
      congr 1
      exact failures_of_foundNothing hwf hfound

/-- After calls of which some failed and none succeeded, the worker sleeps at least as long
as that number of failures asks for, if all of them were counted; and right after a success it
sleeps for the flush interval. A failure raises the count exactly if it is counted, and never by
more than one. -/
theorem backoff_follows_failures (flushIntervalMs : ℕ) (s : ExportState ε)
    (hwf : LawfulExporter.WF s.exporter) :
    (∀ calls, 1 ≤ failedCalls s calls →
      EveryCall (fun s call => ¬ Succeeded s call ∧ (Failed s call → Counted s call)) s calls →
      min 60000 (1000 * 2 ^ (min (failedCalls s calls) 10 - 1)) ≤
          calculateSleepMs flushIntervalMs (calls.foldl after s).failures ∧
        flushIntervalMs ≤ calculateSleepMs flushIntervalMs (calls.foldl after s).failures) ∧
    (∀ call, Succeeded s call →
      calculateSleepMs flushIntervalMs (after s call).failures = flushIntervalMs) ∧
    (∀ call, Failed s call → (after s call).failures ≤ s.failures + 1 ∧
      ((after s call).failures = s.failures + 1 ↔ Counted s call)) := by
  refine ⟨fun calls hn hall => ?_, fun call hsucceeded => ?_,
    fun call hfailed => failures_of_failed hwf hfailed⟩
  · refine le_calculateSleepMs hn ?_
    rw [failures_after hwf hall]
    omega
  · cases (call_ends hwf call).2 with
    | exported hbegun hserved hevents hexported hcount hrecorded =>
      rw [hcount, calculateSleepMs, if_neg (by omega)]
    | notBegun a hfault hexported => exact absurd hexported hsucceeded
    | empty hfound hexported => exact absurd hexported hsucceeded
    | broken hbegun hevents a new hfault hrequest hexported => exact absurd hexported hsucceeded

end Calls

/-- One event, whose insert is rejected. -/
def rejectedCall : ExportCall where
  opening := System.allOk
  plan := System.rejectAll
  settings := System.sampleClickHouse.settings
  events := [{}]
  fits := System.sampleClickHouse.settings.batchMax_range.1

theorem backoff_follows_failures_twice :
    let s : ExportState ClickHouseExporter :=
      { exporter := { memoryContextsReady := true, client := true } }
    failedCalls s [rejectedCall, rejectedCall] = 2 ∧
    2000 ≤ calculateSleepMs 200 ([rejectedCall, rejectedCall].foldl after s).failures := by
  intro s
  have hn : failedCalls s [rejectedCall, rejectedCall] = 2 := by decide +kernel
  have hcounted : ∀ s' : ExportState ClickHouseExporter, Begun s' rejectedCall →
      Counted s' rejectedCall := fun s' hbegun =>
    ⟨hbegun, .call (.send 0), rfl, ⟨.send 0, rfl, nofun, rfl⟩, fun hno => (by cases hno)⟩
  obtain ⟨hsleep, -, -⟩ := backoff_follows_failures 200 s fun _ => rfl
  obtain ⟨hlong, -⟩ := hsleep [rejectedCall, rejectedCall] (by rw [hn]; decide)
    ⟨⟨fun hno => hno rfl, fun _ => hcounted _ (by decide +kernel)⟩,
      ⟨fun hno => hno rfl, fun _ => hcounted _ (by decide +kernel)⟩, trivial⟩
  rw [hn] at hlong
  exact ⟨hn, hlong⟩

/-- The backend cannot be reached. -/
def refuseConnect : Plan
  | .connect => .fails "connection refused"
  | _ => .ok

/-- A call that gets no connection. -/
def refusedCall : ExportCall where
  opening := refuseConnect
  plan := System.allOk
  settings := System.sampleClickHouse.settings
  events := []
  fits := Nat.zero_le _

/-- The insert is rejected, and an ERROR leaves the message about that. -/
def rejectAndCancel : Plan
  | .send _ => .fails "rejected"
  | .log .recordFailure => .raises
  | _ => .ok

def cancelledCall : ExportCall where
  opening := System.allOk
  plan := rejectAndCancel
  settings := System.sampleClickHouse.settings
  events := [{}]
  fits := System.sampleClickHouse.settings.batchMax_range.1

/-- The connection is refused twice, or a block is rejected twice and the message about it left by
an ERROR, and the worker does not back off. -/
theorem refused_connection_not_counted :
    (let s : ExportState ClickHouseExporter := { exporter := {} }
    failedCalls s [refusedCall, refusedCall] = 2 ∧
    calculateSleepMs 200 ([refusedCall, refusedCall].foldl after s).failures = 200) ∧
    (let s : ExportState ClickHouseExporter :=
      { exporter := { memoryContextsReady := true, client := true } }
    failedCalls s [cancelledCall, cancelledCall] = 2 ∧
    calculateSleepMs 200 ([cancelledCall, cancelledCall].foldl after s).failures = 200) := by
  decide +kernel

end PgStatCh
