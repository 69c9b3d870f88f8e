import PgStatCh.Export.Backoff

/-!
# Export.SendFailures — how often a failed attempt is recorded

`send_failures` goes up with every call of `PschRecordExportFailure`. A call of
`PschExportBatch` that finds nothing or exports its batch makes none. One whose attempt
fails should make exactly one. What goes wrong is recorded at exactly one place, with
these exceptions:

* an ERROR that leaves the call before the failure is recorded, where it goes wrong or at
  the message that is written about it, keeps it from being recorded (`Unrecorded`);
* an Arrow block that the backend does not acknowledge is recorded by `SendArrowBatch`, and
  once more by `ExportEventsAsArrowInternal`, whose `export_failed` does not say why;
* a request of log records that is rejected is recorded by `FlushChunk`; if a row throws
  after that, `ExportEventStats` records that, too.

The last two are what makes two failures of one (`RecordedTwice`).
-/

namespace PgStatCh

open Lib Prog StatsExporter

/-! ## Which failures are recorded twice, or not at all -/

section Records

variable {ε : Type} [StatsExporter ε] [Scheduled ε]

/-- This fault of a batch of `n` events is recorded twice. -/
def TwiceFault (ε : Type) [StatsExporter ε] (settings : Settings) (n : ℕ) (plan : Plan) (a : Ask) :
    Prop :=
  useOtel ε = true ∧ ∃ j, a = .call (.send j) ∧
    if settings.arrowPassthrough then
      (∃ m, plan (.send j) = .fails m) ∧ plan.passes (.log .sendFailed) = true ∨
        (∃ e, plan (.send j) = .throws e) ∧ plan.passes (.log .sendThrew) = true
    else
      (∃ m, plan (.send j) = .fails m) ∧ plan.passes (.log .sendFailed) = true ∧
        (∃ p e, plan.firstFault (rowsOnly 0 n) = some (.run p) ∧ plan p = .throws e) ∧
        plan.passes (.log .eventStats) = true

/-- The failure of the call is recorded twice. -/
def RecordedTwice (s : ExportState ε) (call : ExportCall) : Prop :=
  Begun s call ∧ ∃ a, call.plan.firstFault (call.way s).asks = some a ∧
    TwiceFault ε call.settings call.events.length call.plan a

/-- An ERROR leaves the call before its failure is recorded. -/
def Unrecorded (s : ExportState ε) (call : ExportCall) : Prop :=
  (∃ a, call.opening.firstFault (openingAsks s.exporter) = some a ∧
      (opening s.exporter).handled call.opening a = .raised) ∨
    Begun s call ∧ ∃ a, call.plan.firstFault (call.way s).asks = some a ∧
      (call.way s).handled call.plan a = .raised

/-- What is done about a fault, as far as recording it is concerned: nothing, once or twice. -/
def RecordedAs (h : Handled) (twice : Prop) : Prop :=
  h = .raised ∧ ¬ twice ∨ h.recorded = 1 ∧ ¬ twice ∨ h.recorded = 2 ∧ twice

/-- What recording relies on, of any exporter. -/
class RecordingExporter (ε : Type) [StatsExporter ε] [Scheduled ε] : Prop where
  recorded : ∀ {plan : Plan} {settings : Settings} {events : List PschEvent} {x : ε} {a : Ask},
    plan.firstFault (route x settings events).asks = some a →
    RecordedAs ((route x settings events).handled plan a)
      (TwiceFault ε settings events.length plan a)

end Records

theorem recordedAs_of_cases {h h' : Handled} {twice : Prop} (hh : h = .raised ∨ h = h')
    (hone : h'.recorded = 1) (hnot : ¬ twice) : RecordedAs h twice := by
  rcases hh with rfl | rfl
  · exact Or.inl ⟨rfl, hnot⟩
  · exact Or.inr (Or.inl ⟨hone, hnot⟩)

/-! ### ClickHouse -/

instance : RecordingExporter ClickHouseExporter where
  recorded := by
    intro plan settings events x a _
    have hnot : ¬ TwiceFault ClickHouseExporter settings events.length plan a :=
      fun hno => Bool.false_ne_true hno.1
    change RecordedAs (ClickHouseExporter.handled plan a) _
    cases a with
    | call p =>
      have hfailed := plan.logged_cases .recordFailure ⟨true, 1, some .batch⟩
      exact recordedAs_of_cases (plan.handle_cases hfailed hfailed) rfl hnot
    | run p =>
      have hthrew := plan.logged_cases .eventStats ⟨false, 1, some .zero⟩
      exact recordedAs_of_cases (plan.handle_cases hthrew hthrew) rfl hnot
    | log l => exact Or.inl ⟨rfl, hnot⟩

/-! ### OpenTelemetry -/

section OpenTelemetry

variable {plan : Plan} {settings : Settings} {events : List PschEvent} {o : OTelExporter} {a : Ask}

theorem not_twiceFault (n : ℕ) (ha : ∀ j, a ≠ .call (.send j)) :
    ¬ TwiceFault OTelExporter settings n plan a := by
  rintro ⟨-, j, hj, -⟩
  exact ha j hj

theorem ArrowBatchBuilder.recordedAs (harrow : settings.arrowPassthrough = true)
    (hfault : plan.firstFault (ArrowBatchBuilder.route settings events).asks = some a) :
    RecordedAs (ArrowBatchBuilder.handled plan a)
      (TwiceFault OTelExporter settings events.length plan a) := by
  have hthrew := plan.logged_cases .arrowExport ⟨false, 1, some .zero⟩
  cases a with
  | call p =>
    have hp := Plan.ne_ok_of_firstFault hfault
    cases p with
    | send j =>
      have htwice : TwiceFault OTelExporter settings events.length plan (.call (.send j)) ↔
          (∃ m, plan (.send j) = .fails m) ∧ plan.passes (.log .sendFailed) = true ∨
            (∃ e, plan (.send j) = .throws e) ∧ plan.passes (.log .sendThrew) = true := by
        simp [TwiceFault, useOtel, harrow]
      unfold RecordedAs
      rw [htwice, ArrowBatchBuilder.handled]
      cases hsend : plan (.send j) with
      | ok => exact absurd hsend hp
      | raises => simp [Plan.handle_of_raises hsend]
      | fails m =>
        rw [Plan.handle_of_fails hsend, Plan.logged]
        split <;> simp_all
      | throws e =>
        rw [Plan.handle_of_throws hsend, Plan.logged]
        split <;> simp_all
    | arrowInit =>
      exact recordedAs_of_cases (plan.handle_cases hthrew (plan.logged_cases _ _)) rfl
        (not_twiceFault _ (by simp))
    | _ =>
      exact plan.handle_elim (P := fun h => RecordedAs h _)
        (Or.inl ⟨rfl, not_twiceFault _ (by simp)⟩)
        (recordedAs_of_cases hthrew rfl (not_twiceFault _ (by simp)))
        (Or.inr (Or.inl ⟨rfl, not_twiceFault _ (by simp)⟩))
  | run p =>
    exact recordedAs_of_cases (plan.handle_cases hthrew hthrew) rfl (not_twiceFault _ (by simp))
  | log l => exact Or.inl ⟨rfl, not_twiceFault _ (by simp)⟩

/-- After a rejection it is up to the rows. -/
theorem OTelExporter.afterRejection_recorded (plan : Plan) (n : ℕ) :
    (afterRejection plan n).recorded = 2 ∧
        (∃ p e, plan.firstFault (rowsOnly 0 n) = some (.run p) ∧ plan p = .throws e) ∧
        plan.passes (.log .eventStats) = true ∨
      (afterRejection plan n).recorded = 1 ∧
        ¬ ((∃ p e, plan.firstFault (rowsOnly 0 n) = some (.run p) ∧ plan p = .throws e) ∧
          plan.passes (.log .eventStats) = true) := by
  unfold afterRejection
  cases hrows : plan.firstFault (rowsOnly 0 n) with
  | none => simp
  | some a =>
    cases a with
    | call p | log l => simp
    | run p =>
      have hnot := Plan.not_passes_of_firstFault hrows
      rw [Plan.passes] at hnot
      cases hp : plan p with
      | ok | fails m => simp [hp, Reply.exit] at hnot
      | raises => simp [hp]
      | throws e =>
        cases hlog : plan.passes (.log .eventStats) <;> simp [hp]

theorem OTelExporter.recordedAs (harrow : ¬ settings.arrowPassthrough = true)
    (hfault : plan.firstFault (OTelExporter.route o events).asks = some a) :
    RecordedAs ((OTelExporter.route o events).handled plan a)
      (TwiceFault OTelExporter settings events.length plan a) := by
  have hthrew := plan.logged_cases .eventStats ⟨false, 1, some .zero⟩
  cases a with
  | call p =>
    obtain ⟨j, rfl⟩ := send_of_firstFault hfault
    have htwice : TwiceFault OTelExporter settings events.length plan (.call (.send j)) ↔
        (∃ m, plan (.send j) = .fails m) ∧ plan.passes (.log .sendFailed) = true ∧
          (∃ p e, plan.firstFault (rowsOnly 0 events.length) = some (.run p) ∧
            plan p = .throws e) ∧ plan.passes (.log .eventStats) = true := by
      simp [TwiceFault, useOtel, harrow]
    cases hsend : plan (.send j) with
    | ok => exact absurd hsend (Plan.ne_ok_of_firstFault hfault)
    | raises =>
      refine Or.inl ⟨Plan.handle_of_raises hsend, ?_⟩
      rw [htwice, hsend]
      rintro ⟨⟨m, hno⟩, -⟩
      cases hno
    | fails m =>
      have hhandled : (OTelExporter.route o events).handled plan (.call (.send j)) =
          plan.logged .sendFailed (afterRejection plan events.length) := Plan.handle_of_fails hsend
      unfold RecordedAs
      rw [htwice, hhandled, Plan.logged]
      split
      · next hlog =>
        rcases afterRejection_recorded plan events.length with ⟨htwo, hrows⟩ | ⟨hone, hrows⟩
        · exact Or.inr (Or.inr ⟨htwo, ⟨m, hsend⟩, hlog, hrows⟩)
        · exact Or.inr (Or.inl ⟨hone, fun hno => hrows hno.2.2⟩)
      · next hlog => exact Or.inl ⟨rfl, fun hno => hlog hno.2.1⟩
    | throws e =>
      have hnot : ¬ TwiceFault OTelExporter settings events.length plan (.call (.send j)) := by
        rw [htwice, hsend]
        rintro ⟨⟨m, hno⟩, -⟩
        cases hno
      have hhandled : (OTelExporter.route o events).handled plan (.call (.send j)) =
          if (OTelExporter.route o events).asks.getLast? = some (.call (.send j)) then
            plan.logged .sendThrew ⟨true, 1, some .acked⟩ else plan.buildThrew :=
        Plan.handle_of_throws hsend
      rw [hhandled]
      split
      · exact recordedAs_of_cases (plan.logged_cases _ _) rfl hnot
      · exact recordedAs_of_cases hthrew rfl hnot
  | run p =>
    exact recordedAs_of_cases (plan.handle_cases hthrew hthrew) rfl (not_twiceFault _ (by simp))
  | log l => exact Or.inl ⟨rfl, not_twiceFault _ (by simp)⟩

end OpenTelemetry

instance : RecordingExporter OTelExporter where
  recorded := by
    intro plan settings events x a hfault
    by_cases harrow : settings.arrowPassthrough = true
    · have hway : route x settings events = ArrowBatchBuilder.route settings events := if_pos harrow
      rw [hway] at hfault ⊢
      exact ArrowBatchBuilder.recordedAs harrow hfault
    · have hno : ¬ (useOtel OTelExporter && settings.arrowPassthrough) = true := harrow
      have hway : route x settings events = OTelExporter.route x events := if_neg hno
      rw [hway] at hfault ⊢
      exact OTelExporter.recordedAs harrow hfault

/-! ## Calls -/

section Calls

variable {ε : Type} [StatsExporter ε] [Scheduled ε] [LawfulExporter ε] [RecordingExporter ε]
  {s : ExportState ε}

/-- What a failed call does to `send_failures`. -/
inductive FailureRecorded (s : ExportState ε) (call : ExportCall) (s' : ExportState ε) : Prop where
  | never (hun : Unrecorded s call) (htwice : ¬ RecordedTwice s call)
      (hrecorded : s'.sendFailures = s.sendFailures)
  | once (hun : ¬ Unrecorded s call) (htwice : ¬ RecordedTwice s call)
      (hrecorded : s'.sendFailures = s.sendFailures + 1)
  | twice (hun : ¬ Unrecorded s call) (htwice : RecordedTwice s call)
      (hrecorded : s'.sendFailures = s.sendFailures + 2)

theorem failure_recorded (hwf : LawfulExporter.WF s.exporter) {call : ExportCall}
    (hfailed : Failed s call) : FailureRecorded s call (after s call) := by
  cases (call_ends hwf call).2 with
  | empty hfound => exact absurd hfound hfailed.1
  | exported hbegun hserved hevents hexported => exact absurd hexported hfailed.2
  | notBegun a hfault hexported hcount hrecorded =>
    have hnot : ¬ Begun s call := Plan.not_served_of_firstFault hfault
    have htwice : ¬ RecordedTwice s call := fun hno => hnot hno.1
    rcases opening_handled_cases s.exporter call.opening a with h | h
    · rw [h] at hrecorded
      exact .never (Or.inl ⟨a, hfault, h⟩) htwice (hrecorded.trans (UInt64.add_zero _))
    · refine .once ?_ htwice (by rw [hrecorded, h]; rfl)
      rintro (⟨b, hb, hraised⟩ | ⟨hbegun, -⟩)
      · rw [hfault] at hb
        cases hb
        rw [h] at hraised
        cases hraised
      · exact hnot hbegun
  | broken hbegun hevents a new hfault hrequest hexported hcount hrecorded =>
    have hunrecorded : Unrecorded s call ↔ (call.way s).handled call.plan a = .raised := by
      constructor
      · rintro (⟨b, hb, -⟩ | ⟨-, b, hb, hraised⟩)
        · exact absurd hbegun (Plan.not_served_of_firstFault hb)
        · rw [hfault.first] at hb
          cases hb
          exact hraised
      · exact fun hraised => Or.inr ⟨hbegun, a, hfault.first, hraised⟩
    have htwice : RecordedTwice s call ↔
        TwiceFault ε call.settings call.events.length call.plan a := by
      constructor
      · rintro ⟨-, b, hb, h⟩
        rw [hfault.first] at hb
        cases hb
        exact h
      · exact fun h => ⟨hbegun, a, hfault.first, h⟩
    have hne : ∀ n, ((call.way s).handled call.plan a).recorded = n + 1 → ¬ Unrecorded s call := by
      intro n hn hun
      rw [hunrecorded.mp hun] at hn
      cases hn
    rcases RecordingExporter.recorded hfault.first with ⟨hraised, hnot⟩ | ⟨hone, hnot⟩ | ⟨htwo, hyes⟩
    · change (call.way s).handled call.plan a = _ at hraised
      rw [hraised] at hrecorded
      exact .never (hunrecorded.mpr hraised) (fun h => hnot (htwice.mp h))
        (hrecorded.trans (UInt64.add_zero _))
    · change ((call.way s).handled call.plan a).recorded = _ at hone
      exact .once (hne 0 hone) (fun h => hnot (htwice.mp h)) (by rw [hrecorded, hone]; rfl)
    · change ((call.way s).handled call.plan a).recorded = _ at htwo
      exact .twice (hne 1 htwo) (htwice.mpr hyes) (by rw [hrecorded, htwo]; rfl)

omit [RecordingExporter ε] in
/-- A call that finds nothing or exports its batch records no failure. -/
theorem recorded_of_good (hwf : LawfulExporter.WF s.exporter) {call : ExportCall}
    (hgood : FoundNothing s call ∨ Succeeded s call) :
    (after s call).sendFailures = s.sendFailures := by
  cases (call_ends hwf call).2 with
  | empty hfound hexported hcount hrecorded => exact hrecorded
  | exported hbegun hserved hevents hexported hcount hrecorded => exact hrecorded
  | notBegun a hfault hexported =>
    rcases hgood with hfound | hsucceeded
    · exact absurd hfound.1 (Plan.not_served_of_firstFault hfault)
    · exact absurd hexported hsucceeded
  | broken hbegun hevents a new hfault hrequest hexported =>
    rcases hgood with hfound | hsucceeded
    · exact absurd (List.length_eq_zero_iff.mp hfound.2) hevents
    · exact absurd hexported hsucceeded

/-- Over a sequence of calls, each of which records a failure once. -/
theorem sendFailures_after (hwf : LawfulExporter.WF s.exporter) {calls : List ExportCall}
    (h : EveryCall (fun s call => ¬ Unrecorded s call ∧ ¬ RecordedTwice s call) s calls) :
    (calls.foldl after s).sendFailures = s.sendFailures + UInt64.ofNat (failedCalls s calls) := by
  induction calls generalizing s with
  | nil => simp [failedCalls]
  | cons call calls ih =>
    obtain ⟨⟨hrecorded, hone⟩, hrest⟩ := h
    rw [List.foldl_cons, ih (call_ends hwf call).1 hrest, failedCalls]
    by_cases hfailed : Failed s call
    · rw [if_pos hfailed]
      cases failure_recorded hwf hfailed with
      | never hun => exact absurd hun hrecorded
      | once hun htwice hrecorded =>
        rw [hrecorded, UInt64.ofNat_add, UInt64.add_assoc]
        rfl
      | twice hun htwice => exact absurd htwice hone
    · have hgood : FoundNothing s call ∨ Succeeded s call := by
        by_contra hno
        exact hfailed (not_or.mp hno)
      rw [if_neg hfailed, recorded_of_good hwf hgood, Nat.zero_add]

/-- A call that finds the queue empty or exports its batch records no failure. One whose attempt
fails records exactly one, unless it is `Unrecorded`, and then it records none, or `RecordedTwice`,
and then it records two; with ClickHouse none is recorded twice. So after any calls of which none is
either, `send_failures` has gone up by the number of failed attempts. -/
theorem failure_recorded_once_iff (s : ExportState ε) (hwf : LawfulExporter.WF s.exporter) :
    (∀ call, FoundNothing s call ∨ Succeeded s call →
      (after s call).sendFailures = s.sendFailures) ∧
    (∀ call, Failed s call →
      ((after s call).sendFailures = s.sendFailures + 1 ↔
        ¬ Unrecorded s call ∧ ¬ RecordedTwice s call) ∧
      (Unrecorded s call → (after s call).sendFailures = s.sendFailures) ∧
      (RecordedTwice s call → (after s call).sendFailures = s.sendFailures + 2)) ∧
    (useOtel ε = false → ∀ call, ¬ RecordedTwice s call) ∧
    (∀ calls, EveryCall (fun s call => ¬ Unrecorded s call ∧ ¬ RecordedTwice s call) s calls →
      (calls.foldl after s).sendFailures =
        s.sendFailures + UInt64.ofNat (failedCalls s calls)) := by
  refine ⟨fun call hgood => recorded_of_good hwf hgood, fun call hfailed => ?_,
    fun hch call hno => ?_, fun calls => sendFailures_after hwf⟩
  · cases failure_recorded hwf hfailed with
    | never hun htwice hrecorded =>
      refine ⟨iff_of_false ?_ fun hno => hno.1 hun, fun _ => hrecorded, fun h => absurd h htwice⟩
      rw [hrecorded]
      simp
    | once hun htwice hrecorded =>
      exact ⟨iff_of_true hrecorded ⟨hun, htwice⟩, fun h => absurd h hun, fun h => absurd h htwice⟩
    | twice hun htwice hrecorded =>
      refine ⟨iff_of_false ?_ fun hno => hno.2 htwice, fun h => absurd h hun, fun _ => hrecorded⟩
      rw [hrecorded]
      simp
  · obtain ⟨-, a, -, hotel, -⟩ := hno
    rw [hch] at hotel
    cases hotel

end Calls

/-- The insert of the one event is rejected; that is recorded once. -/
theorem failure_recorded_once_iff_rejected :
    let s : ExportState ClickHouseExporter :=
      { exporter := { memoryContextsReady := true, client := true } }
    Failed s rejectedCall ∧ (after s rejectedCall).sendFailures = 1 := by
  intro s
  have hfails : Failed s rejectedCall := by decide +kernel
  obtain ⟨-, honce, hch, -⟩ := failure_recorded_once_iff s fun _ => rfl
  refine ⟨hfails, (honce rejectedCall hfails).1.mpr ⟨?_, hch rfl rejectedCall⟩⟩
  rintro (⟨a, hno, -⟩ | ⟨-, a, hfault, hraised⟩)
  · cases hno
  · cases hfault
    cases hraised

/-- The default of `psch_batch_max` is in its range. -/
theorem default_batchMax_range : 1 ≤ 200000 ∧ 200000 ≤ 1000000 := by decide

theorem one_le_default_batchMax : 1 ≤ 200000 := by decide

/-- One event, as an Arrow block that the collector rejects. -/
def rejectedBlock : ExportCall where
  opening := System.allOk
  plan := System.rejectAll
  settings := { arrowPassthrough := true, batchMax_range := default_batchMax_range }
  events := [{}]
  fits := one_le_default_batchMax

/-- The failure is recorded for the block, and again for the batch. -/
theorem rejected_block_recorded_twice :
    let s : ExportState OTelExporter := { exporter := { stub := true } }
    Failed s rejectedBlock ∧ (after s rejectedBlock).sendFailures = 2 := by
  decide

end PgStatCh
