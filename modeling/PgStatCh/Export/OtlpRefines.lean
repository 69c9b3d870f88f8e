import PgStatCh.Export.OtlpChunks
import PgStatCh.Export.Simulation

/-!
# Export.OtlpRefines — the OpenTelemetry exporter with and without its requests

`OtlpExporter` does what `OTelExporter` does, under every plan: its state is that of
`OTelExporter`, and the requests beside it. Only when an exception or an ERROR has struck in the
middle of a row do the two disagree on the request that is given up with it, until the next batch begins with
a new one.
-/

namespace PgStatCh

open Lib Prog Otlp

namespace OtlpExporter

/-- The same exporter, except for the request at hand. -/
def SameSettled (x : OtlpExporter) (y : OTelExporter) : Prop :=
  ∃ request currentRecord chunkCount chunkBytes, x.toOTelExporter =
    { y with request := request, currentRecord := currentRecord
             chunkCount := chunkCount, chunkBytes := chunkBytes }

/-- The same exporter. -/
def Same (x : OtlpExporter) (y : OTelExporter) : Prop := x.toOTelExporter = y

variable {s : ExportState OtlpExporter} {t : ExportState OTelExporter} {plan : Plan}

theorem Same.sameSettled {x : OtlpExporter} {y : OTelExporter} (h : Same x y) : SameSettled x y :=
  ⟨y.request, y.currentRecord, y.chunkCount, y.chunkBytes, h⟩

theorem alike_settled (h : Alike Same s t) : Alike SameSettled s t := h.mono Same.sameSettled

/-- What `OTelExporter` has of a state. -/
def base (s : ExportState OtlpExporter) : ExportState OTelExporter :=
  { exporter := s.exporter.toOTelExporter, exported := s.exported, sendFailures := s.sendFailures
    lastErrorText := s.lastErrorText, sent := s.sent, acked := s.acked }

theorem alike_base (s : ExportState OtlpExporter) : Alike Same s (base s) :=
  ⟨rfl, rfl, rfl, rfl, rfl, rfl⟩

theorem eq_base (h : Alike Same s t) : t = base s := by
  obtain ⟨y, exported, sendFailures, lastErrorText, sent, acked⟩ := t
  obtain ⟨hexporter, rfl, rfl, rfl, rfl, rfl⟩ := h
  rw [base, show s.exporter.toOTelExporter = y from hexporter]

/-! ## Requests -/

theorem rel_resetChunk {p : Point} (h : Alike SameSettled s t) :
    rel (resetChunk plan p) (OTelExporter.resetChunk plan p) (Returns Same)
      (fun _ => Alike SameSettled) s t := by
  refine rel_bind (rel_run h p) ?_
  rintro _ _ s₁ t₁ ⟨-, h₁⟩
  obtain ⟨request, currentRecord, chunkCount, chunkBytes, hx⟩ := h₁.exporter
  refine ⟨rfl, h₁.modify ?_⟩
  show ({ s₁.exporter.toOTelExporter with request := [], currentRecord := false, chunkCount := 0
                                          chunkBytes := kRequestOverheadBytes } : OTelExporter) = _
  rw [hx]

theorem rel_addLogRecord {E : Exit → ExportState OtlpExporter → ExportState OTelExporter → Prop}
    (h : Alike Same s t) :
    rel addLogRecord OTelExporter.addLogRecord (Returns Same) E s t := by
  obtain rfl := eq_base h
  exact ⟨rfl, alike_base _⟩

theorem rel_flushChunk (h : Alike Same s t) :
    rel (flushChunk plan) (OTelExporter.flushChunk plan) (Returns Same)
      (fun _ => Alike Same) s t := by
  obtain rfl := eq_base h
  apply rel_get_bind
  show rel (if s.exporter.stub = false ∨ s.exporter.chunkCount = 0 then _ else _)
    (if s.exporter.stub = false ∨ s.exporter.chunkCount = 0 then _ else _) _ _ _ _
  split
  · exact ⟨rfl, h⟩
  · apply rel_modify_left
    refine rel_bind (rel_send (alike_base _) _) ?_
    rintro r _ s₁ t₁ ⟨rfl, h₁⟩
    obtain rfl := eq_base h₁
    cases r with
    | none => exact ⟨rfl, alike_base _⟩
    | some message =>
      apply rel_modify_left
      apply rel_modify_right
      refine rel_bind (rel_log (alike_base _) _) ?_
      rintro _ _ s₂ t₂ ⟨-, h₂⟩
      obtain rfl := eq_base h₂
      exact ⟨rfl, alike_base _⟩

theorem rel_beginBatch (h : Alike SameSettled s t) :
    rel (beginBatch plan) (OTelExporter.beginBatch plan) (Returns Same)
      (fun _ => Alike SameSettled) s t := by
  refine rel_bind (P := fun _ _ => Alike SameSettled) (rel_modify ?_) ?_
  · obtain ⟨request, currentRecord, chunkCount, chunkBytes, hx⟩ := h.exporter
    refine h.modify ⟨request, currentRecord, chunkCount, chunkBytes, ?_⟩
    show ({ s.exporter.toOTelExporter with exportedCount := 0, batchFailed := false } :
      OTelExporter) = _
    rw [hx]
  · exact fun _ _ _ _ h₁ => rel_resetChunk h₁

theorem rel_beginRow (h : Alike Same s t) :
    rel (beginRow plan) (OTelExporter.beginRow plan) (Returns Same)
      (fun _ => Alike SameSettled) s t := by
  obtain rfl := eq_base h
  apply rel_get_bind
  show rel (if s.exporter.batchFailed then _ else if s.exporter.chunkFull then _ else _)
    (if s.exporter.batchFailed then _ else if s.exporter.chunkFull then _ else _) _ _ _ _
  split
  · exact ⟨rfl, h⟩
  · split
    · refine rel_bind (rel_mono (rel_flushChunk h) (fun _ _ _ _ => id) fun _ _ _ => alike_settled) ?_
      rintro ok _ s₁ t₁ ⟨rfl, h₁⟩
      cases ok with
      | false =>
        obtain rfl := eq_base h₁
        exact ⟨rfl, alike_base _⟩
      | true =>
        apply rel_get_bind
        rw [h₁.sent]
        refine rel_bind (rel_resetChunk (alike_settled h₁)) ?_
        rintro _ _ s₂ t₂ ⟨-, h₂⟩
        exact rel_addLogRecord h₂
    · exact rel_addLogRecord h

/-! ## Rows -/

/-- The appends to a record change the request at hand only. -/
theorem wp_appendCols_current (ev : PschEvent) (cs : List Col)
    (hcurrent : s.exporter.currentRecord = true) :
    wp (appendCols ev cs)
      (fun _ s' => ∃ message, s' = { s with
        exporter.message := message
        exporter.chunkBytes := s.exporter.chunkBytes + estimateUpTo ev cs })
      (fun _ _ => False) s := by
  induction cs generalizing s with
  | nil => exact ⟨s.exporter.message, rfl⟩
  | cons c cs ih =>
    have hsum : ∀ n, n + (makeColumn c.factory).estimate (c.cell ev) + estimateUpTo ev cs =
        n + estimateUpTo ev (c :: cs) := by
      intro n
      rw [estimateUpTo, estimateUpTo, List.map_cons, List.sum_cons, Nat.add_assoc]
    unfold appendCols append
    simp only [wp_bind, wp_get]
    rw [if_pos hcurrent, wp_modify]
    refine wp_mono (ih hcurrent) ?_ fun _ _ => id
    rintro _ s' ⟨message, rfl⟩
    exact ⟨message, by simp only [hsum]⟩

/-- Some appends of an event, wherever they break off. -/
theorem wp_appendCols_settled (ev : PschEvent) (cs : List Col) :
    wp (appendCols ev cs) (fun _ s' => Alike SameSettled s' (base s)) (fun _ _ => False) s := by
  cases hcurrent : s.exporter.currentRecord with
  | false => exact wp_appendCols_idle cs hcurrent (alike_settled (alike_base s))
  | true =>
    refine wp_mono (wp_appendCols_current ev cs hcurrent) ?_ fun _ _ => id
    rintro _ s' ⟨message, rfl⟩
    exact ⟨⟨_, _, _, _, rfl⟩, rfl, rfl, rfl, rfl, rfl⟩

/-- The row that the coarser exporter adds at once. -/
def addRow (ev : PschEvent) : OTelExporter.M Unit := do
  let s ← get
  if s.exporter.currentRecord then
    modify fun s =>
      { s with exporter.request := s.exporter.request ++ [ev]
               exporter.chunkBytes := s.exporter.chunkBytes + appendBytes ev }
  else pure ()

/-- An event that is appended to all columns. -/
theorem rel_appendCols {E : Exit → ExportState OtlpExporter → ExportState OTelExporter → Prop}
    (ev : PschEvent) :
    rel (do noteRow ev; appendCols ev Col.appended) (addRow ev) (Returns Same) E s (base s) := by
  apply rel_modify_left
  cases hcurrent : s.exporter.currentRecord with
  | false =>
    refine rel_of_wp (F := fun _ _ => False)
      (wp_appendCols_idle (Q := fun _ s' => s' = s) _ hcurrent rfl) ?_ nofun
    rintro _ s' rfl
    have hbase : ¬ (base s').exporter.currentRecord = true := Bool.eq_false_iff.mp hcurrent
    rw [addRow, wp_bind, wp_get, if_neg hbase]
    exact ⟨rfl, alike_base _⟩
  | true =>
    refine rel_of_wp (wp_appendCols_current ev _ hcurrent) ?_ nofun
    rintro _ s' ⟨message, rfl⟩
    have hbase : (base s).exporter.currentRecord = true := hcurrent
    rw [addRow, wp_bind, wp_get, if_pos hbase, wp_modify]
    refine ⟨rfl, ?_, rfl, rfl, rfl, rfl, rfl⟩
    simp only [Same, estimateUpTo_appended, if_true]
    rfl

/-- An event that breaks off: the coarser exporter has not begun it. -/
theorem rel_appendCut {next : Unit → OTelExporter.M Unit} (i : ℕ) (ev : PschEvent) (e : Exit) :
    rel (do noteRow ev; appendCut i ev e) (throw e >>= next) (Returns Same)
      (fun _ => Alike SameSettled) s (base s) := by
  apply rel_modify_left
  refine rel_of_wp (P := fun _ _ => False)
    (F := fun e' s' => e' = e ∧ Alike SameSettled s' (base s)) ?_ nofun ?_
  · rw [appendCut, wp_bind, wp_get, wp_bind]
    refine wp_mono (wp_appendCols_settled ev _) ?_ nofun
    intro _ s' hs'
    obtain ⟨request, currentRecord, chunkCount, chunkBytes, hx⟩ := hs'.exporter
    exact ⟨rfl, ⟨request, currentRecord, chunkCount, chunkBytes, hx⟩, hs'.exported,
      hs'.sendFailures, hs'.lastErrorText, hs'.sent, hs'.acked⟩
  · rintro e' s' ⟨rfl, hs'⟩
    exact ⟨rfl, hs'⟩

theorem rel_appendRow (i : ℕ) (ev : PschEvent) (h : Alike Same s t) :
    rel (appendRow plan i ev) (OTelExporter.appendRow plan i ev) (Returns Same)
      (fun _ => Alike SameSettled) s t := by
  obtain rfl := eq_base h
  unfold appendRow OTelExporter.appendRow Plan.run
  cases plan (.row i) with
  | throws e => exact rel_appendCut i ev (.exception e)
  | raises => exact rel_appendCut i ev .error
  | ok => exact rel_appendCols ev
  | fails m => exact rel_appendCols ev

/-! ## The other operations -/

/-- A change that does not look at the request at hand. -/
theorem SameSettled.update {x x' : OtlpExporter} {y : OTelExporter} (h : SameSettled x y)
    (f : OTelExporter → OTelExporter)
    (hf : ∀ o request currentRecord chunkCount chunkBytes,
      f { o with request := request, currentRecord := currentRecord
                 chunkCount := chunkCount, chunkBytes := chunkBytes } =
        { f o with request := request, currentRecord := currentRecord
                   chunkCount := chunkCount, chunkBytes := chunkBytes })
    (hx' : x'.toOTelExporter = f x.toOTelExporter) : SameSettled x' (f y) := by
  obtain ⟨request, currentRecord, chunkCount, chunkBytes, hx⟩ := h
  refine ⟨request, currentRecord, chunkCount, chunkBytes, ?_⟩
  rw [hx', hx, hf]

/-- A failure that is recorded and counted. -/
theorem rel_countFailure {E : Exit → ExportState OtlpExporter → ExportState OTelExporter → Prop}
    (h : Alike SameSettled s t) (m : String) :
    rel (countFailure m) (OTelExporter.countFailure m) (Returns SameSettled) E s t := by
  refine rel_bind (rel_recordExporterFailure h m) ?_
  rintro _ _ s₁ t₁ ⟨-, h₁⟩
  refine ⟨rfl, h₁.modify ?_⟩
  exact h₁.exporter.update
    (f := fun o => { o with consecutiveFailures := o.consecutiveFailures + 1 })
    (fun _ _ _ _ _ => rfl) rfl

/-- A failure that is written about, recorded and counted. -/
theorem rel_logAndCount (h : Alike SameSettled s t) (l : LogStatement) (m : String) :
    rel (do plan.log l; countFailure m) (do plan.log l; OTelExporter.countFailure m)
      (Returns SameSettled) (fun _ => Alike SameSettled) s t := by
  refine rel_bind (rel_log h l) ?_
  rintro _ _ s₁ t₁ ⟨-, h₁⟩
  exact rel_countFailure h₁ m

theorem rel_resetFailures {E : Exit → ExportState OtlpExporter → ExportState OTelExporter → Prop}
    (h : Alike Same s t) :
    rel (do resetFailures; pure true) (do OTelExporter.resetFailures; pure true)
      (Returns SameSettled) E s t := by
  obtain rfl := eq_base h
  exact ⟨rfl, alike_settled (alike_base _)⟩

theorem rel_commitBatch (h : Alike Same s t) :
    rel (commitBatch plan) (OTelExporter.commitBatch plan) (Returns SameSettled)
      (fun _ => Alike SameSettled) s t := by
  obtain rfl := eq_base h
  apply rel_get_bind
  show rel (if s.exporter.batchFailed then _ else if s.exporter.stub then _ else _)
    (if s.exporter.batchFailed then _ else if s.exporter.stub then _ else _) _ _ _ _
  split
  · exact ⟨rfl, alike_settled h⟩
  · split
    · refine rel_catching ?_ fun e _ _ h₁ => rel_logAndCount h₁ _ _
      refine rel_bind (rel_mono (rel_flushChunk h) (fun _ _ _ _ => id)
        fun _ _ _ => alike_settled) ?_
      rintro ok _ s₁ t₁ ⟨rfl, h₁⟩
      cases ok with
      | false => exact ⟨rfl, alike_settled h₁⟩
      | true => exact rel_resetFailures h₁
    · exact rel_resetFailures h

theorem rel_setStub {E : Exit → ExportState OtlpExporter → ExportState OTelExporter → Prop}
    (h : Alike SameSettled s t) (stub : Bool) :
    rel (do modify fun s => { s with exporter.stub := stub }; pure stub)
      (do modify fun s => { s with exporter.stub := stub }; pure stub)
      (Returns SameSettled) E s t := by
  refine ⟨rfl, h.modify ?_⟩
  exact h.exporter.update (f := fun o => { o with stub := stub }) (fun _ _ _ _ _ => rfl) rfl

/-- "OTel init failed". -/
theorem rel_initFailed (h : Alike SameSettled s t) :
    rel (do plan.log .otelInitFailed; modify fun s => { s with exporter.stub := false }; pure false)
      (do plan.log .otelInitFailed; modify fun s => { s with exporter.stub := false }; pure false)
      (Returns SameSettled) (fun _ => Alike SameSettled) s t := by
  refine rel_bind (rel_log h _) ?_
  rintro _ _ s₁ t₁ ⟨-, h₁⟩
  exact rel_setStub h₁ false

theorem rel_establishNewConnection (h : Alike SameSettled s t) :
    rel (establishNewConnection plan) (OTelExporter.establishNewConnection plan)
      (Returns SameSettled) (fun _ => Alike SameSettled) s t := by
  refine rel_catching ?_ fun _ _ _ h₁ => rel_initFailed h₁
  refine rel_bind (P := fun _ _ => Alike SameSettled) (rel_modify (h.modify ?_)) ?_
  · exact h.exporter.update (f := OTelExporter.configureLogExport) (fun _ _ _ _ _ => rfl) rfl
  · intro _ _ s₁ t₁ h₁
    refine rel_bind (rel_call h₁ .connect) ?_
    rintro r _ s₂ t₂ ⟨rfl, h₂⟩
    cases r with
    | some m => exact rel_initFailed h₂
    | none => exact rel_setStub h₂ true

section Fields

variable {x : OtlpExporter} {y : OTelExporter}

theorem SameSettled.stub_eq (h : SameSettled x y) : x.stub = y.stub := by
  obtain ⟨request, currentRecord, chunkCount, chunkBytes, hx⟩ := h
  rw [hx]

theorem SameSettled.exportedCount_eq (h : SameSettled x y) :
    x.exportedCount = y.exportedCount := by
  obtain ⟨request, currentRecord, chunkCount, chunkBytes, hx⟩ := h
  rw [hx]

theorem SameSettled.consecutiveFailures_eq (h : SameSettled x y) :
    x.consecutiveFailures = y.consecutiveFailures := by
  obtain ⟨request, currentRecord, chunkCount, chunkBytes, hx⟩ := h
  rw [hx]

end Fields

theorem rel_sendArrowBatch (rows : List PschEvent) (h : Alike SameSettled s t) :
    rel (sendArrowBatch plan rows) (OTelExporter.sendArrowBatch plan rows)
      (Returns SameSettled) (fun _ => Alike SameSettled) s t := by
  apply rel_get_bind
  rw [h.exporter.stub_eq]
  split
  · exact ⟨rfl, h⟩
  · refine rel_catching ?_ fun e _ _ h₁ => rel_logAndCount h₁ _ _
    refine rel_bind (rel_send h rows) ?_
    rintro r _ s₁ t₁ ⟨rfl, h₁⟩
    cases r with
    | some m => exact rel_logAndCount h₁ _ m
    | none =>
      refine ⟨rfl, h₁.modify ?_⟩
      exact h₁.exporter.update
        (f := fun o => { o with exportedCount := o.exportedCount + rows.length
                                consecutiveFailures := 0 })
        (fun _ _ _ _ _ => rfl) rfl

/-- `OTelExporter` does what `OtlpExporter` does. -/
def simulation : Simulation OtlpExporter OTelExporter where
  Idle := SameSettled
  Busy := Same
  idle_of_busy := Same.sameSettled
  useOtel_eq := rfl
  isConnected_eq := SameSettled.stub_eq
  numExported_eq := SameSettled.exportedCount_eq
  numConsecutiveFailures_eq := SameSettled.consecutiveFailures_eq
  rel_beginBatch := rel_beginBatch
  rel_beginRow := rel_beginRow
  rel_appendRow := rel_appendRow
  rel_commitBatch := rel_commitBatch
  rel_establishNewConnection := rel_establishNewConnection
  rel_sendArrowBatch := rel_sendArrowBatch

/-- Whatever calls of `PschExportBatch` a new exporter with requests goes through, the counters
and the acknowledged events are those of the exporter without. -/
theorem calls_refine (o : OtlpExporter) (calls : List ExportCall) :
    let s := calls.foldl after ({ exporter := o } : ExportState OtlpExporter)
    let t := calls.foldl after ({ exporter := o.toOTelExporter } : ExportState OTelExporter)
    s.exported = t.exported ∧ s.sendFailures = t.sendFailures ∧
      s.lastErrorText = t.lastErrorText ∧ s.acked = t.acked ∧ s.failures = t.failures := by
  intro s t
  have h : Alike SameSettled s t :=
    simulation.alike_calls (alike_settled (alike_base { exporter := o })) calls
  exact ⟨h.exported, h.sendFailures, h.lastErrorText, h.acked,
    simulation.numConsecutiveFailures_eq h.exporter⟩

end OtlpExporter

end PgStatCh
