import PgStatCh.Export.Calls
import PgStatCh.Lib.ProgRel

/-!
# Export.Simulation — one exporter in the place of another

Two exporters that do the same under every plan, operation by operation, do the same in every
sequence of calls of `PschExportBatch`: the calls return the same numbers, and leave the same
counters and the same acknowledged requests behind. Their states are related by `Busy` while a
batch is under way and by `Idle`, which may be weaker, between batches.
-/

namespace PgStatCh

open Lib Prog

/-- The exporters are related, and all else is the same. -/
structure Alike {ε δ : Type} (R : ε → δ → Prop) (s : ExportState ε) (t : ExportState δ) :
    Prop where
  exporter : R s.exporter t.exporter
  exported : s.exported = t.exported
  sendFailures : s.sendFailures = t.sendFailures
  lastErrorText : s.lastErrorText = t.lastErrorText
  sent : s.sent = t.sent
  acked : s.acked = t.acked

/-- The two programs return the same, with related exporters. -/
def Returns {ε δ α : Type} (R : ε → δ → Prop) (a b : α) (s : ExportState ε) (t : ExportState δ) :
    Prop :=
  a = b ∧ Alike R s t

open StatsExporter in
/-- Whatever `ε` does, `δ` does as well. -/
structure Simulation (ε δ : Type) [StatsExporter ε] [StatsExporter δ] where
  Idle : ε → δ → Prop
  Busy : ε → δ → Prop
  idle_of_busy : ∀ {x y}, Busy x y → Idle x y
  useOtel_eq : useOtel ε = useOtel δ
  isConnected_eq : ∀ {x y}, Idle x y → isConnected x = isConnected y
  numExported_eq : ∀ {x y}, Idle x y → numExported x = numExported y
  numConsecutiveFailures_eq : ∀ {x y}, Idle x y →
    numConsecutiveFailures x = numConsecutiveFailures y
  rel_beginBatch : ∀ {plan s t}, Alike Idle s t →
    rel (beginBatch plan) (beginBatch plan) (Returns Busy) (fun _ => Alike Idle) s t
  rel_beginRow : ∀ {plan s t}, Alike Busy s t →
    rel (beginRow plan) (beginRow plan) (Returns Busy) (fun _ => Alike Idle) s t
  rel_appendRow : ∀ {plan s t} (i ev), Alike Busy s t →
    rel (appendRow plan i ev) (appendRow plan i ev) (Returns Busy) (fun _ => Alike Idle) s t
  rel_commitBatch : ∀ {plan s t}, Alike Busy s t →
    rel (commitBatch plan) (commitBatch plan) (Returns Idle) (fun _ => Alike Idle) s t
  rel_establishNewConnection : ∀ {plan s t}, Alike Idle s t →
    rel (establishNewConnection plan) (establishNewConnection plan) (Returns Idle)
      (fun _ => Alike Idle) s t
  rel_sendArrowBatch : ∀ {plan s t} (rows), Alike Idle s t →
    rel (sendArrowBatch plan rows) (sendArrowBatch plan rows) (Returns Idle)
      (fun _ => Alike Idle) s t

/-! ## The calls to the outside -/

section Calls

variable {ε δ : Type} {R R' : ε → δ → Prop} {s : ExportState ε} {t : ExportState δ} {plan : Plan}

theorem Alike.mono (h : Alike R s t) (hR : R s.exporter t.exporter → R' s.exporter t.exporter) :
    Alike R' s t :=
  ⟨hR h.exporter, h.exported, h.sendFailures, h.lastErrorText, h.sent, h.acked⟩

/-- A change of the exporters alone. -/
theorem Alike.modify (h : Alike R s t) {x : ε} {y : δ} (hR : R' x y) :
    Alike R' { s with exporter := x } { t with exporter := y } :=
  ⟨hR, h.exported, h.sendFailures, h.lastErrorText, h.sent, h.acked⟩

theorem rel_call (h : Alike R s t) (p : Point) :
    rel (plan.call p) (plan.call p) (Returns R) (fun _ => Alike R) s t := by
  unfold Plan.call
  cases plan p with
  | ok => exact ⟨rfl, h⟩
  | fails m => exact ⟨rfl, h⟩
  | throws e => exact ⟨rfl, h⟩
  | raises => exact ⟨rfl, h⟩

theorem rel_run (h : Alike R s t) (p : Point) :
    rel (plan.run p) (plan.run p) (Returns R) (fun _ => Alike R) s t := by
  unfold Plan.run
  cases plan p with
  | ok => exact ⟨rfl, h⟩
  | fails m => exact ⟨rfl, h⟩
  | throws e => exact ⟨rfl, h⟩
  | raises => exact ⟨rfl, h⟩

theorem rel_log (h : Alike R s t) (l : LogStatement) :
    rel (plan.log l) (plan.log l) (Returns R) (fun _ => Alike R) s t := by
  unfold Plan.log
  cases plan (.log l) with
  | raises => exact ⟨rfl, h⟩
  | _ => exact ⟨rfl, h⟩

theorem rel_recordExporterFailure {E : Exit → ExportState ε → ExportState δ → Prop}
    (h : Alike R s t) (m : String) :
    rel (recordExporterFailure m) (recordExporterFailure m) (Returns R) E s t := by
  refine ⟨rfl, h.exporter, h.exported, ?_, rfl, h.sent, h.acked⟩
  show s.sendFailures + 1 = t.sendFailures + 1
  rw [h.sendFailures]

/-- A failure is recorded, and that is the end. -/
theorem rel_recordAndStop {E : Exit → ExportState ε → ExportState δ → Prop} {α : Type}
    (h : Alike R s t) (m : String) (stop : α) :
    rel (do recordExporterFailure m; pure stop) (do recordExporterFailure m; pure stop)
      (Returns R) E s t := by
  refine rel_bind (rel_recordExporterFailure h m) ?_
  rintro _ _ s' t' ⟨-, h'⟩
  exact ⟨rfl, h'⟩

/-- An ERROR passes the handlers, and leaves what they would have found. -/
theorem rel_catching {α β : Type} {x : ExportM ε α} {y : ExportM δ β}
    {handler : Exception → ExportM ε α} {handler' : Exception → ExportM δ β}
    {Q : α → β → ExportState ε → ExportState δ → Prop}
    (h : rel x y Q (fun _ => Alike R) s t)
    (hhandler : ∀ e s' t', Alike R s' t' →
      rel (handler e) (handler' e) Q (fun _ => Alike R) s' t') :
    rel (catching x handler) (catching y handler') Q (fun _ => Alike R) s t := by
  refine rel_tryCatch h ?_
  intro e s' t' h'
  cases e with
  | exception e => exact hhandler e s' t' h'
  | error => exact ⟨rfl, h'⟩

/-- The handlers of the barriers. -/
theorem rel_handleException {α : Type} (h : Alike R s t) (l : LogStatement) (oom : String)
    (stop : α) (e : Exception) :
    rel (handleException plan l oom stop e) (handleException plan l oom stop e) (Returns R)
      (fun _ => Alike R) s t := by
  refine rel_bind (rel_log h l) ?_
  rintro _ _ s' t' ⟨-, h'⟩
  exact rel_recordAndStop h' _ _

theorem rel_send (h : Alike R s t) (rows : List PschEvent) :
    rel (plan.send rows) (plan.send rows) (Returns R) (fun _ => Alike R) s t := by
  have hsent : ∀ n, Alike R { s with sent := n } { t with sent := n } := fun n =>
    ⟨h.exporter, h.exported, h.sendFailures, h.lastErrorText, rfl, h.acked⟩
  unfold Plan.send
  apply rel_get_bind
  rw [h.sent]
  refine rel_bind (P := fun _ _ => Alike R) (rel_modify ?_) ?_
  · have := hsent (t.sent + 1)
    rwa [← h.sent] at this ⊢
  · intro _ _ s' t' h'
    refine rel_bind (rel_call h' _) ?_
    rintro r _ s' t' ⟨rfl, h'⟩
    cases r with
    | some m => exact ⟨rfl, h'⟩
    | none =>
      refine ⟨rfl, h'.exporter, h'.exported, h'.sendFailures, h'.lastErrorText, h'.sent, ?_⟩
      show s'.acked ++ [rows] = t'.acked ++ [rows]
      rw [h'.acked]

theorem rel_addExported {E : Exit → ExportState ε → ExportState δ → Prop}
    (h : Alike R s t) (n : ℕ) : rel (addExported n) (addExported n) (Returns R) E s t := by
  refine ⟨rfl, h.exporter, ?_, h.sendFailures, h.lastErrorText, h.sent, h.acked⟩
  show s.exported + UInt64.ofNat n = t.exported + UInt64.ofNat n
  rw [h.exported]

/-- `PschExportBatch`'s own handler. -/
theorem rel_exportBarrier {α : Type} {stop : α} {x : ExportM ε α} {y : ExportM δ α}
    (h : rel x y (Returns R) (fun _ => Alike R) s t) :
    rel (exportBarrier plan stop x) (exportBarrier plan stop y) (Returns R) (fun _ => Alike R)
      s t :=
  rel_catching h fun e _ _ h' => rel_handleException h' _ _ _ e

/-- What is left behind, with the worker's own handler around it. -/
theorem alike_recovered {α : Type} {initial : α} {x : ExportM ε α} {y : ExportM δ α}
    (h : rel x y (Returns R) (fun _ => Alike R) s t) :
    Alike R (System.recovered initial (x s)).2 (System.recovered initial (y t)).2 := by
  unfold rel wp at h
  cases hx : x s with
  | ok a s' =>
    cases hy : y t with
    | ok b t' =>
      simp only [hx, hy] at h
      exact h.2
    | error e t' => simp only [hx, hy] at h
  | error e s' =>
    cases hy : y t with
    | ok b t' => simp only [hx, hy] at h
    | error e' t' =>
      simp only [hx, hy] at h
      exact h.2

end Calls

/-! ## A batch -/

namespace Simulation

variable {ε δ : Type} [StatsExporter ε] [StatsExporter δ] {s : ExportState ε} {t : ExportState δ}
  {plan : Plan} (sim : Simulation ε δ)

theorem alike_idle (h : Alike sim.Busy s t) : Alike sim.Idle s t := h.mono sim.idle_of_busy

/-- A message while a batch is under way. -/
theorem rel_logBusy (h : Alike sim.Busy s t) (l : LogStatement) :
    rel (plan.log l) (plan.log l) (Returns sim.Busy) (fun _ => Alike sim.Idle) s t :=
  rel_mono (rel_log h l) (fun _ _ _ _ => id) fun _ _ _ => sim.alike_idle

theorem rel_exportRows (h : Alike sim.Busy s t) (i : ℕ) (events : List PschEvent) :
    rel (exportRows plan i events) (exportRows plan i events) (Returns sim.Busy)
      (fun _ => Alike sim.Idle) s t := by
  induction events generalizing i s t with
  | nil => exact ⟨rfl, h⟩
  | cons ev rest ih =>
    refine rel_bind (sim.rel_beginRow h) ?_
    rintro _ _ s₁ t₁ ⟨-, h₁⟩
    refine rel_bind (sim.rel_appendRow i ev h₁) ?_
    rintro _ _ s₂ t₂ ⟨-, h₂⟩
    exact ih h₂ (i + 1)

/-- When the appends went through, the batch is still under way. -/
theorem rel_exportEventStats (h : Alike sim.Idle s t) (events : List PschEvent) :
    rel (exportEventStats plan events) (exportEventStats plan events)
      (fun a b s' t' => Returns sim.Idle a b s' t' ∧ (a = true → Alike sim.Busy s' t'))
      (fun _ => Alike sim.Idle) s t := by
  refine rel_catching ?_ ?_
  · refine rel_bind (P := Returns sim.Busy) ?_ ?_
    · refine rel_bind (rel_log h _) ?_
      rintro _ _ s₁ t₁ ⟨-, h₁⟩
      refine rel_bind (sim.rel_beginBatch h₁) ?_
      rintro _ _ s₂ t₂ ⟨-, h₂⟩
      refine rel_bind (sim.rel_exportRows h₂ 0 events) ?_
      rintro _ _ s₃ t₃ ⟨-, h₃⟩
      exact sim.rel_logBusy h₃ _
    · rintro _ _ s₁ t₁ ⟨-, h₁⟩
      exact ⟨⟨rfl, sim.alike_idle h₁⟩, fun _ => h₁⟩
  · intro e s₁ t₁ h₁
    refine rel_bind (rel_log h₁ _) ?_
    rintro _ _ s₂ t₂ ⟨-, h₂⟩
    refine rel_bind (rel_recordExporterFailure h₂ _) ?_
    rintro _ _ s₃ t₃ ⟨-, h₃⟩
    exact ⟨⟨rfl, h₃⟩, nofun⟩

/-! ## Arrow blocks -/

theorem rel_flushBuilder (h : Alike sim.Idle s t) (b : ArrowBatchBuilder) :
    rel (flushBuilder plan b) (flushBuilder plan b) (Returns sim.Idle)
      (fun _ => Alike sim.Idle) s t := by
  apply rel_get_bind
  rw [h.sent]
  refine rel_bind (rel_call h _) ?_
  rintro r _ s₁ t₁ ⟨rfl, h₁⟩
  cases r with
  | some m => exact ⟨rfl, h₁⟩
  | none =>
    show rel (if b.rows = [] then _ else _) (if b.rows = [] then _ else _) _ _ _ _
    split
    · exact ⟨rfl, h₁⟩
    · exact sim.rel_sendArrowBatch b.rows h₁

theorem rel_exportArrowRows (h : Alike sim.Idle s t) (settings : Settings) (i : ℕ)
    (events : List PschEvent) (b : ArrowBatchBuilder) (total : ℕ) :
    rel (exportArrowRows plan settings i events b total)
      (exportArrowRows plan settings i events b total) (Returns sim.Idle)
      (fun _ => Alike sim.Idle) s t := by
  induction events generalizing i b total s t with
  | nil => exact ⟨rfl, h⟩
  | cons ev rest ih =>
    refine rel_bind (rel_call h _) ?_
    rintro r _ s₁ t₁ ⟨rfl, h₁⟩
    cases r with
    | some m => exact ⟨rfl, h₁⟩
    | none =>
      simp only
      split
      · refine rel_bind (sim.rel_flushBuilder h₁ _) ?_
        rintro ok _ s₂ t₂ ⟨rfl, h₂⟩
        cases ok with
        | false => exact ⟨rfl, h₂⟩
        | true =>
          apply rel_get_bind
          rw [h₂.sent]
          refine rel_bind (rel_run h₂ _) ?_
          rintro _ _ s₃ t₃ ⟨-, h₃⟩
          exact ih h₃ _ _ _
      · exact ih h₁ _ _ _

theorem rel_flushRest (h : Alike sim.Idle s t) (b : ArrowBatchBuilder) (total : ℕ)
    (failed : Bool) :
    rel (flushRest plan b total failed) (flushRest plan b total failed) (Returns sim.Idle)
      (fun _ => Alike sim.Idle) s t := by
  unfold flushRest
  split
  · refine rel_bind (sim.rel_flushBuilder h b) ?_
    rintro ok _ s₁ t₁ ⟨rfl, h₁⟩
    cases ok with
    | false => exact ⟨rfl, h₁⟩
    | true => exact ⟨rfl, h₁⟩
  · exact ⟨rfl, h⟩

theorem rel_exportEventsAsArrow (h : Alike sim.Idle s t) (settings : Settings)
    (events : List PschEvent) :
    rel (exportEventsAsArrow plan settings events) (exportEventsAsArrow plan settings events)
      (Returns sim.Idle) (fun _ => Alike sim.Idle) s t := by
  refine rel_catching ?_ fun e _ _ h' => rel_handleException h' _ _ _ e
  · refine rel_bind (rel_call h _) ?_
    rintro r _ s₁ t₁ ⟨rfl, h₁⟩
    cases r with
    | some m =>
      refine rel_bind (rel_log h₁ _) ?_
      rintro _ _ s₂ t₂ ⟨-, h₂⟩
      exact rel_recordAndStop h₂ _ _
    | none =>
      refine rel_bind (sim.rel_exportArrowRows h₁ settings 0 events {} 0) ?_
      rintro ⟨b, total, failed⟩ _ s₂ t₂ ⟨rfl, h₂⟩
      refine rel_bind (sim.rel_flushRest h₂ b total failed) ?_
      rintro ⟨total, failed⟩ _ s₃ t₃ ⟨rfl, h₃⟩
      cases failed with
      | true => exact rel_recordAndStop h₃ _ _
      | false =>
        simp only [Bool.false_eq_true, if_false]
        split
        · refine rel_bind (rel_addExported h₃ total) ?_
          rintro _ _ s₄ t₄ ⟨-, h₄⟩
          exact ⟨rfl, h₄⟩
        · exact ⟨rfl, h₃⟩

/-! ## Calls -/

theorem rel_beginDequeue (h : Alike sim.Idle s t) :
    rel (beginDequeue plan) (beginDequeue plan) (Returns sim.Idle) (fun _ => Alike sim.Idle)
      s t := by
  refine rel_bind (rel_log h _) ?_
  rintro _ _ s₁ t₁ ⟨-, h₁⟩
  refine rel_bind (rel_run h₁ _) ?_
  rintro _ _ s₂ t₂ ⟨-, h₂⟩
  exact ⟨rfl, h₂⟩

theorem rel_beginExport (h : Alike sim.Idle s t) :
    rel (beginExport plan) (beginExport plan) (Returns sim.Idle) (fun _ => Alike sim.Idle)
      s t := by
  apply rel_exportBarrier
  refine rel_bind (rel_log h _) ?_
  rintro _ _ s₁ t₁ ⟨-, h₁⟩
  apply rel_get_bind
  rw [sim.isConnected_eq h₁.exporter]
  split
  · exact sim.rel_beginDequeue h₁
  · refine rel_bind (rel_log h₁ _) ?_
    rintro _ _ s₂ t₂ ⟨-, h₂⟩
    refine rel_bind (sim.rel_establishNewConnection h₂) ?_
    rintro ok _ s₃ t₃ ⟨rfl, h₃⟩
    cases ok with
    | false => exact rel_recordAndStop h₃ _ _
    | true => exact sim.rel_beginDequeue h₃

theorem rel_exportAsRows (h : Alike sim.Idle s t) (events : List PschEvent) :
    rel (exportAsRows plan events) (exportAsRows plan events) (Returns sim.Idle)
      (fun _ => Alike sim.Idle) s t := by
  refine rel_bind (sim.rel_exportEventStats h events) ?_
  rintro ok _ s₁ t₁ ⟨⟨rfl, h₁⟩, hbusy⟩
  cases ok with
  | false => exact ⟨rfl, h₁⟩
  | true =>
    refine rel_bind (sim.rel_commitBatch (hbusy rfl)) ?_
    rintro ok _ s₂ t₂ ⟨rfl, h₂⟩
    have hcount := sim.numExported_eq h₂.exporter
    cases ok with
    | false => exact ⟨hcount, h₂⟩
    | true =>
      apply rel_get_bind
      rw [hcount]
      refine rel_bind (rel_addExported h₂ _) ?_
      rintro _ _ s₃ t₃ ⟨-, h₃⟩
      exact ⟨rfl, h₃⟩

theorem rel_exportEvents (h : Alike sim.Idle s t) (settings : Settings)
    (events : List PschEvent) :
    rel (exportEvents plan settings events) (exportEvents plan settings events)
      (Returns sim.Idle) (fun _ => Alike sim.Idle) s t := by
  apply rel_exportBarrier
  rw [sim.useOtel_eq]
  split
  · refine rel_bind (rel_log h _) ?_
    rintro _ _ s₁ t₁ ⟨-, h₁⟩
    exact ⟨rfl, h₁⟩
  · refine rel_bind (rel_log h _) ?_
    rintro _ _ s₁ t₁ ⟨-, h₁⟩
    split
    · exact sim.rel_exportEventsAsArrow h₁ settings events
    · exact sim.rel_exportAsRows h₁ events

theorem rel_pschExportBatch (h : Alike sim.Idle s t) (call : ExportCall) :
    rel (pschExportBatch call) (pschExportBatch call) (Returns sim.Idle)
      (fun _ => Alike sim.Idle) s t := by
  refine rel_bind (sim.rel_beginExport h) ?_
  rintro ok _ s₁ t₁ ⟨rfl, h₁⟩
  cases ok with
  | false => exact ⟨rfl, h₁⟩
  | true =>
    refine rel_bind (P := fun _ _ => Alike sim.Idle) (rel_modify ?_) ?_
    · exact ⟨h₁.exporter, h₁.exported, h₁.sendFailures, h₁.lastErrorText, rfl, h₁.acked⟩
    · intro _ _ s₂ t₂ h₂
      exact sim.rel_exportEvents h₂ call.settings call.events

theorem alike_after (h : Alike sim.Idle s t) (call : ExportCall) :
    Alike sim.Idle (after s call) (after t call) :=
  alike_recovered (sim.rel_pschExportBatch h call)

/-- Any calls of `PschExportBatch` with one exporter, from related states on, leave what they
leave with the other. -/
theorem alike_calls (h : Alike sim.Idle s t) (calls : List ExportCall) :
    Alike sim.Idle (calls.foldl after s) (calls.foldl after t) := by
  induction calls generalizing s t with
  | nil => exact h
  | cons call calls ih => exact ih (sim.alike_after h call)

end Simulation

end PgStatCh
