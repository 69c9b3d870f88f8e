import PgStatCh.Export.Outcome

/-!
# Export.OTelOutcome — what a call leaves behind, for OpenTelemetry

The exporter sends a batch in several requests, as log records or as Arrow blocks,
and stops at the first one that is rejected. What carries the proofs is an invariant
of the loop over the events: the acknowledged requests, followed by the request that
is being built, are the events seen so far, and what is left of the schedule is that
of the events to come.

After a request of log records is rejected the rows are still gone through, without a
record, and one that throws then makes `ExportEventStats` record a second failure.
-/

namespace PgStatCh

open Lib Prog StatsExporter Plan

namespace OTelExporter

variable {plan : Plan} {way : Route} {s₀ s s' : ExportState OTelExporter}
  {done events all : List PschEvent} {new : List (List PschEvent)} {asks rest : List Ask} {a : Ask}

/-- Since `s₀` the requests `new` were acknowledged, and nothing has gone wrong. -/
structure Sending (way : Route) (s₀ s : ExportState OTelExporter) (new : List (List PschEvent)) :
    Prop where
  stub : s.exporter.stub = true
  acked : s.acked = s₀.acked ++ new
  exported : s.exported = s₀.exported
  failures : s.failures = way.settled s₀.failures new
  recorded : s.sendFailures = s₀.sendFailures
  sent : s.sent = new.length

/-- Then something goes wrong, and nothing has been done about it. -/
theorem Sending.broken (h : Sending way s₀ s new) (hfault : plan.FaultAt way.asks a new)
    (hrequest : ∀ j, a = .call (.send j) → j = s.sent) (hacked : s'.acked = s.acked)
    (hexported : s'.exported = s.exported) (hfailures : s'.failures = s.failures)
    (hrecorded : s'.sendFailures = s.sendFailures) :
    Broken plan way a new .raised s₀ s' where
  fault := hfault
  request := fun j hj => (hrequest j hj).trans h.sent
  acked := hacked.trans h.acked
  exported := hexported.trans h.exported
  failures := hfailures.trans h.failures
  recorded := (hrecorded.trans h.recorded).trans (UInt64.add_zero _).symm

/-- It goes wrong where no request is made. -/
theorem Sending.broken_here (h : Sending way s₀ s new) (hfault : plan.FaultAt way.asks a new)
    (hrequest : ∀ j, a ≠ .call (.send j)) : Broken plan way a new .raised s₀ s :=
  h.broken hfault (fun j hj => absurd hj (hrequest j)) rfl rfl rfl rfl

/-! ## The schedule of the records -/

/-- With a record in it, the request at the end is sent. -/
theorem recordAsks_eq_concat (c : Chunk) (i j : ℕ) (events : List PschEvent) (hcount : c.count ≠ 0) :
    ∃ j' asks, j ≤ j' ∧ recordAsks c i j events = asks ++ [.call (.send j')] := by
  induction events generalizing c i j with
  | nil => exact ⟨j, [.log .builtRows], le_rfl, by simp [recordAsks, hcount]⟩
  | cons ev rest ih =>
    have hadd : ∀ c : Chunk, (c.add ev).count ≠ 0 := fun _ => Nat.succ_ne_zero _
    unfold recordAsks
    simp only [hcount, if_false]
    split
    · obtain ⟨j', asks, hle, hasks⟩ := ih (c.reset.add ev) (i + 1) (j + 1) (hadd _)
      exact ⟨j', _ :: _ :: _ :: asks, by omega, by rw [hasks]; rfl⟩
    · obtain ⟨j', asks, hle, hasks⟩ := ih (c.add ev) (i + 1) j (hadd _)
      exact ⟨j', _ :: asks, hle, by rw [hasks]; rfl⟩

/-- So a request that is sent on the way is not the last. -/
theorem getLast?_ne_send {c : Chunk} {i j : ℕ} (before : List Ask) (hcount : c.count ≠ 0)
    (hreached : plan.Reached asks (before ++ recordAsks c i (j + 1) events) new) :
    asks.getLast? ≠ some (.call (.send j)) := by
  obtain ⟨done, rfl, -⟩ := hreached
  obtain ⟨j', between, hle, hrecords⟩ := recordAsks_eq_concat c i (j + 1) events hcount
  rw [hrecords, ← List.append_assoc, ← List.append_assoc, List.getLast?_concat]
  intro hno
  cases hno
  omega

/-! ## Log records -/

/-- The request before a record, with the events `done` seen: `n` records are in it, the last of
which may have been begun only. -/
structure Building (s₀ s : ExportState OTelExporter) (events done : List PschEvent) (n : ℕ)
    (new : List (List PschEvent)) : Prop
    extends Sending (route s₀.exporter events) s₀ s new where
  good : s.exporter.batchFailed = false
  count : s.exporter.exportedCount = new.flatten.length
  rows : new.flatten ++ s.exporter.request = done
  records : s.exporter.chunkCount = s.exporter.request.length + n

/-- A request was rejected, which is recorded and counted. -/
structure Rejected (plan : Plan) (s₀ s : ExportState OTelExporter) (events : List PschEvent) :
    Prop where
  record : s.exporter.currentRecord = false
  rejected : ∃ new j m, plan (.send j) = .fails m ∧ plan.passes (.log .sendFailed) = true ∧
    Broken plan (route s₀.exporter events) (.call (.send j)) new ⟨true, 1, none⟩ s₀ s ∧
    new.flatten <+: events ∧ s.exporter.exportedCount = new.flatten.length

/-- What is done about the rejection in all is then up to the rows. -/
theorem handled_rejected {o : OTelExporter} {j : ℕ} {m : String} (hm : plan (.send j) = .fails m)
    (hpass : plan.passes (.log .sendFailed) = true) :
    (route o events).handled plan (.call (.send j)) = afterRejection plan events.length :=
  (Plan.handle_of_fails hm).trans (Plan.logged_of_passes hpass)

theorem afterRejection_of_fault {n : ℕ} {x : Exit} (hfault : plan.firstFault (rowsOnly 0 n) = some a)
    (hx : plan.exit a = some x) :
    afterRejection plan n = (⟨true, 1, none⟩ : Handled).leftBy plan .eventStats x := by
  have hmem := Plan.mem_of_firstFault hfault
  rw [rowsOnly, List.mem_append, List.mem_map, List.mem_singleton] at hmem
  unfold afterRejection
  rw [hfault]
  rcases hmem with ⟨k, -, rfl⟩ | rfl
  · cases x with
    | error => exact if_neg fun hno => hno.1 (Reply.exit_eq_error.mp hx)
    | exception e =>
      have hthrows : plan (.row k) = .throws e := Reply.exit_eq_exception.mp hx
      simp [hthrows, Handled.leftBy]
  · rw [Plan.exit] at hx
    split at hx <;> cases hx
    rfl

/-- What leaves the rows of a batch. -/
abbrev RowsLeft (plan : Plan) (s₀ : ExportState OTelExporter) (events : List PschEvent) :
    Exit → ExportState OTelExporter → Prop :=
  Left plan (route s₀.exporter events) .eventStats events s₀

theorem Rejected.left {x : Exit} (h : Rejected plan s₀ s events)
    (hfault : plan.firstFault (rowsOnly 0 events.length) = some a) (hx : plan.exit a = some x) :
    RowsLeft plan s₀ events x s := by
  obtain ⟨new, j, m, hm, hpass, hb, hle, -⟩ := h.rejected
  exact ⟨_, new, _, hb, hle, rfl,
    (handled_rejected hm hpass).trans (afterRejection_of_fault hfault hx)⟩

/-- What can only be left is left with nothing done about it. -/
theorem Sending.left {x : Exit} (h : Sending (route s₀.exporter events) s₀ s new)
    (ha : (∃ p, a = .run p) ∨ ∃ l, a = .log l) (hle : new.flatten <+: events)
    (hreached : plan.Reached (route s₀.exporter events).asks (a :: rest) new)
    (hx : plan.exit a = some x) : RowsLeft plan s₀ events x s := by
  have hfault := hreached.fault (Plan.not_passes_of_exit hx)
  rcases ha with ⟨p, rfl⟩ | ⟨l, rfl⟩
  · refine (h.broken_here hfault nofun).left hle ?_
    cases x with
    | error => exact Plan.handle_of_raises (Reply.exit_eq_error.mp hx)
    | exception e => exact Plan.handle_of_throws (Reply.exit_eq_exception.mp hx)
  · refine (h.broken_here hfault nofun).left hle ?_
    rw [Plan.exit] at hx
    split at hx <;> cases hx
    rfl

theorem Building.le {n : ℕ} (h : Building s₀ s events done n new) (hdone : done <+: events) :
    new.flatten <+: events := by
  refine List.IsPrefix.trans ?_ hdone
  rw [← h.rows]
  exact List.prefix_append _ _

theorem Building.request_eq_nil (h : Building s₀ s events done 0 new)
    (hcount : s.exporter.chunkCount = 0) : s.exporter.request = [] := by
  have hlen := h.records
  rw [hcount] at hlen
  exact List.length_eq_zero_iff.mp hlen.symm

theorem Building.flatten_eq (h : Building s₀ s events done 0 new)
    (hcount : s.exporter.chunkCount = 0) : new.flatten = done := by
  have hrows := h.rows
  rwa [h.request_eq_nil hcount, List.append_nil] at hrows

/-- How `FlushChunk` is left: a failure of the request may also be left by an ERROR. -/
def FlushLeft (plan : Plan) (s₀ s : ExportState OTelExporter) (events : List PschEvent)
    (new : List (List PschEvent)) (x : Exit) (s' : ExportState OTelExporter) : Prop :=
  Broken plan (route s₀.exporter events) (.call (.send s.sent)) new .raised s₀ s' ∧
    s'.exporter.exportedCount = s.exporter.exportedCount ∧
    (x = .error ∧ (route s₀.exporter events).handled plan (.call (.send s.sent)) = .raised ∨
      ∃ e, x = .exception e ∧ plan (.send s.sent) = .throws e)

/-- How `FlushChunk` returns: all events seen are acknowledged, or the request is rejected. -/
def Flushed (plan : Plan) (s₀ s : ExportState OTelExporter) (events done : List PschEvent)
    (rest : List Ask) (ok : Bool) (s' : ExportState OTelExporter) : Prop :=
  ok = true ∧ s'.exporter.chunk = { s.exporter.chunk with count := 0, bytes := 0 } ∧
      s'.sent = s.sent + 1 ∧
      (∃ new, Building s₀ s' events done 0 new ∧
        plan.Reached (route s₀.exporter events).asks rest new) ∨
    ok = false ∧ Rejected plan s₀ s' events

/-- A request with records in it is acknowledged or rejected. -/
theorem wp_flushChunk (h : Building s₀ s events done 0 new) (hdone : done <+: events)
    (hcount : s.exporter.chunkCount ≠ 0)
    (hreached : plan.Reached (route s₀.exporter events).asks (.call (.send s.sent) :: rest) new) :
    wp (flushChunk plan)
      (Flushed plan s₀ s events done rest) (FlushLeft plan s₀ s events new) s := by
  have hle := h.le hdone
  have hbroken : ∀ s', s'.acked = s.acked → s'.exported = s.exported → s'.failures = s.failures →
      s'.sendFailures = s.sendFailures → plan.passes (.call (.send s.sent)) = false →
      Broken plan (route s₀.exporter events) (.call (.send s.sent)) new .raised s₀ s' := by
    intro s' hacked hexported hfailures hrecorded hfault
    refine h.broken (hreached.fault hfault) (fun j hj => ?_) hacked hexported hfailures hrecorded
    cases hj
    rfl
  have hsend : ¬ (s.exporter.stub = false ∨ s.exporter.chunkCount = 0) := by
    simp [h.stub, hcount]
  unfold flushChunk
  simp only [wp_bind, wp_get]
  rw [if_neg hsend, wp_bind]
  refine wp_send (fun hok => ?_) (fun m hm => ?_) fun x hx => ?_
  · simp only [wp_bind, wp_modify, wp_pure]
    have hall : (new ++ [s.exporter.request]).flatten = done := by simpa using h.rows
    refine Or.inl ⟨rfl, rfl, rfl, new ++ [s.exporter.request],
      ⟨⟨h.stub, ?_, h.exported, h.failures, h.recorded, ?_⟩, h.good, ?_, ?_, rfl⟩,
      hreached.ack hok _⟩
    · rw [h.acked, List.append_assoc]
    · simp [h.sent]
    · simp [h.count, h.records]
    · rw [hall, List.append_nil]
  · have hfault := Plan.not_passes_of_fails hm
    simp only [wp_bind, wp_modify]
    refine wp_log (fun hpass => ?_) fun hraises => ?_
    · simp only [countFailure, wp_bind, wp_recordExporterFailure, wp_modify, wp_pure]
      refine Or.inr ⟨rfl, rfl, new, s.sent, m, hm, hpass, ?_, hle, h.count⟩
      exact (hbroken s rfl rfl rfl rfl hfault).more (n := 1) rfl rfl rfl rfl (Nat.zero_le _) rfl
    · exact ⟨hbroken _ rfl rfl rfl rfl hfault, rfl, Or.inl ⟨rfl,
        (Plan.handle_of_fails hm).trans (Plan.logged_of_raises hraises)⟩⟩
  · refine ⟨hbroken _ rfl rfl rfl rfl (Plan.not_passes_of_exit hx), rfl, ?_⟩
    cases x with
    | error => exact Or.inl ⟨rfl, Plan.handle_of_raises (Reply.exit_eq_error.mp hx)⟩
    | exception e => exact Or.inr ⟨e, rfl, Reply.exit_eq_exception.mp hx⟩

/-- `FlushChunk` on the way: there are more records to come. -/
theorem FlushLeft.left {x : Exit} (h : FlushLeft plan s₀ s events new x s')
    (hlast : (route s₀.exporter events).asks.getLast? ≠ some (.call (.send s.sent)))
    (hle : new.flatten <+: events) : RowsLeft plan s₀ events x s' := by
  obtain ⟨hb, -, ⟨rfl, hhandled⟩ | ⟨e, rfl, hthrows⟩⟩ := h
  · exact hb.left hle hhandled
  · exact hb.left hle ((Plan.handle_of_throws hthrows).trans (if_neg hlast))

/-- The state inside row `i`, of the event `ev`: a record was begun, unless a request was
rejected. -/
def Begun (plan : Plan) (s₀ : ExportState OTelExporter) (events done : List PschEvent) (i : ℕ)
    (ev : PschEvent) (later : List PschEvent) (s : ExportState OTelExporter) : Prop :=
  (∃ new, Building s₀ s events done 1 new ∧ s.exporter.currentRecord = true ∧
      plan.Reached (route s₀.exporter events).asks
        (.run (.row i) :: recordAsks
          { s.exporter.chunk with bytes := s.exporter.chunkBytes + appendBytes ev }
          (i + 1) s.sent later) new) ∨
    s.exporter.batchFailed = true ∧ Rejected plan s₀ s events

section Rows

variable {i : ℕ} {ev : PschEvent} {later : List PschEvent}

/-- A new request, with a record. -/
theorem wp_startRecord {c : Chunk} (h : Building s₀ s events done 0 new) (hdone : done <+: events)
    (hempty : s.exporter.request = []) (hlimits : c.reset = s.exporter.chunk.reset)
    (hreached : plan.Reached (route s₀.exporter events).asks
      (.run (.reset s.sent) :: .run (.row i) :: recordAsks (c.reset.add ev) (i + 1) s.sent later)
      new) :
    wp (resetChunk plan (.reset s.sent) >>= fun _ => addLogRecord)
      (fun _ s' => Begun plan s₀ events done i ev later s') (RowsLeft plan s₀ events) s := by
  unfold resetChunk addLogRecord
  simp only [wp_bind]
  refine wp_run (fun hpass => ?_) fun x hx => ?_
  · have hrows := h.rows
    rw [hempty] at hrows
    rw [hlimits] at hreached
    simp only [wp_modify]
    exact Or.inl ⟨new, ⟨⟨h.stub, h.acked, h.exported, h.failures, h.recorded, h.sent⟩, h.good,
      h.count, hrows, rfl⟩, rfl, hreached.pass hpass⟩
  · exact h.left (Or.inl ⟨_, rfl⟩) (h.le hdone) hreached hx

/-- `BeginRow` begins a record, in a new request if the old one is full. -/
theorem wp_beginRow (h : Building s₀ s events done 0 new) (hdone : done <+: events)
    (hreached : plan.Reached (route s₀.exporter events).asks
      (recordAsks s.exporter.chunk i s.sent (ev :: later)) new) :
    wp (beginRow plan) (fun _ s' => Begun plan s₀ events done i ev later s')
      (RowsLeft plan s₀ events) s := by
  unfold beginRow
  simp only [wp_bind, wp_get, h.good, Bool.false_eq_true, if_false]
  rw [recordAsks] at hreached
  split
  · next hfull =>
    have hfull' : s.exporter.chunk.full := hfull
    rw [if_pos hfull'] at hreached
    rw [wp_bind]
    by_cases hcount : s.exporter.chunkCount = 0
    · -- not even one record has room, and nothing is sent
      have hcount' : s.exporter.chunk.count = 0 := hcount
      rw [if_pos hcount'] at hreached
      unfold flushChunk
      simp only [wp_bind, wp_get, hcount, or_true, if_true, wp_pure]
      rw [← wp_bind]
      exact wp_startRecord h hdone (h.request_eq_nil hcount) rfl hreached
    · have hcount' : s.exporter.chunk.count ≠ 0 := hcount
      rw [if_neg hcount'] at hreached
      refine wp_mono (wp_flushChunk h hdone hcount hreached) ?_ ?_
      · rintro ok s₁ (⟨rfl, hchunk, hsent, new₁, h₁, hreached₁⟩ | ⟨rfl, hrejected⟩)
        · have hcount₁ : s₁.exporter.chunkCount = 0 := congrArg Chunk.count hchunk
          rw [← hsent] at hreached₁
          simp only [if_true, wp_bind, wp_get]
          rw [← wp_bind]
          refine wp_startRecord h₁ hdone (h₁.request_eq_nil hcount₁) ?_ hreached₁
          rw [hchunk]
          rfl
        · obtain ⟨hrecord, new', j, m, hm, hpass, hb, hle, hnum⟩ := hrejected
          simp only [Bool.false_eq_true, if_false, wp_modify]
          exact Or.inr ⟨rfl, hrecord, new', j, m, hm, hpass,
            hb.same ⟨rfl, rfl, rfl, rfl⟩ rfl rfl, hle, hnum⟩
      · intro x s₁ hleft
        refine hleft.left ?_ (h.le hdone)
        exact getLast?_ne_send [_, _, _] (Nat.succ_ne_zero _) hreached
  · next hfull =>
    have hfull' : ¬ s.exporter.chunk.full := hfull
    rw [if_neg hfull'] at hreached
    unfold addLogRecord
    rw [wp_modify]
    exact Or.inl ⟨new, ⟨⟨h.stub, h.acked, h.exported, h.failures, h.recorded, h.sent⟩, h.good,
      h.count, h.rows, by rw [h.records]⟩, rfl, hreached⟩

/-- The state between two rows, before row `i`. -/
def Between (plan : Plan) (s₀ : ExportState OTelExporter) (events done : List PschEvent) (i : ℕ)
    (later : List PschEvent) (s : ExportState OTelExporter) : Prop :=
  (∃ new, Building s₀ s events done 0 new ∧
      plan.Reached (route s₀.exporter events).asks
        (recordAsks s.exporter.chunk i s.sent later) new) ∨
    s.exporter.batchFailed = true ∧ Rejected plan s₀ s events

theorem wp_beginRow_between (h : Between plan s₀ events done i (ev :: later) s)
    (hdone : done <+: events) :
    wp (beginRow plan) (fun _ s' => Begun plan s₀ events done i ev later s')
      (RowsLeft plan s₀ events) s := by
  rcases h with ⟨new, h, hreached⟩ | ⟨hfailed, hrejected⟩
  · exact wp_beginRow h hdone hreached
  · unfold beginRow
    simp only [wp_bind, wp_get, hfailed, if_true, wp_pure]
    exact Or.inr ⟨hfailed, hrejected⟩

/-- `AppendRow` fills the record in, if there is one. -/
theorem wp_appendRow {n : ℕ} (h : Begun plan s₀ events done i ev later s) (hdone : done <+: events)
    (hrows : plan.Reached (rowsOnly 0 events.length) (rowsOnly i (n + 1)) []) :
    wp (appendRow plan i ev)
      (fun _ s' => Between plan s₀ events (done ++ [ev]) (i + 1) later s' ∧
        plan.Reached (rowsOnly 0 events.length) (rowsOnly (i + 1) n) [])
      (RowsLeft plan s₀ events) s := by
  rw [rowsOnly_succ] at hrows
  unfold appendRow
  simp only [wp_bind]
  refine wp_run (fun hpass => ?_) fun x hx => ?_
  · have hrows' := hrows.pass hpass
    simp only [wp_bind, wp_get]
    rcases h with ⟨new, h, hrecord, hreached⟩ | ⟨hfailed, hrejected⟩
    · simp only [hrecord, if_true, wp_modify]
      refine ⟨Or.inl ⟨new, ⟨⟨h.stub, h.acked, h.exported, h.failures, h.recorded, h.sent⟩, h.good,
        h.count, ?_, ?_⟩, hreached.pass hpass⟩, hrows'⟩
      · rw [← List.append_assoc, h.rows]
      · rw [List.length_append, h.records]
        rfl
    · simp only [hrejected.record, Bool.false_eq_true, if_false, wp_pure]
      exact ⟨Or.inr ⟨hfailed, hrejected⟩, hrows'⟩
  · rcases h with ⟨new, h, -, hreached⟩ | ⟨-, hrejected⟩
    · exact h.left (Or.inl ⟨_, rfl⟩) (h.le hdone) hreached hx
    · exact hrejected.left (hrows.fault (Plan.not_passes_of_exit hx)).first hx

/-- The loop over the rows. -/
theorem wp_exportRows (i : ℕ) (later : List PschEvent)
    (h : Between plan s₀ events done i later s) (hdone : done ++ later = events)
    (hrows : plan.Reached (rowsOnly 0 events.length) (rowsOnly i later.length) []) :
    wp (exportRows plan i later)
      (fun _ s' => Between plan s₀ events events events.length [] s' ∧
        plan.Reached (rowsOnly 0 events.length) [.log .builtRows] [])
      (RowsLeft plan s₀ events) s := by
  induction later generalizing s i done with
  | nil =>
    rw [List.append_nil] at hdone
    subst hdone
    exact ⟨h, hrows⟩
  | cons ev later ih =>
    have hle : done <+: events := hdone ▸ List.prefix_append _ _
    unfold exportRows
    simp only [wp_bind]
    change wp (beginRow plan) _ _ s
    refine wp_mono (wp_beginRow_between h hle) ?_ fun _ _ => id
    intro _ s₁ h₁
    rw [wp_bind]
    change wp (appendRow plan i ev) _ _ s₁
    refine wp_mono (wp_appendRow h₁ hle hrows) ?_ fun _ _ => id
    rintro - s₂ ⟨h₂, hrows₂⟩
    exact ih (i + 1) h₂ (by simpa using hdone) hrows₂

end Rows

/-- All rows are gone through: the last request is built, or one was rejected. -/
def Built (plan : Plan) (s₀ : ExportState OTelExporter) (events : List PschEvent)
    (s : ExportState OTelExporter) : Prop :=
  plan.Served (rowsOnly 0 events.length) ∧
    ((∃ new, Building s₀ s events events 0 new ∧
        plan.Reached (route s₀.exporter events).asks
          (if s.exporter.chunkCount = 0 then [] else [.call (.send s.sent)]) new) ∨
      s.exporter.batchFailed = true ∧ Rejected plan s₀ s events)

theorem barred_exportEventStats (events : List PschEvent) (hstub : s.exporter.stub = true)
    (hsent : s.sent = 0)
    (h : plan.Reached (route s.exporter events).asks (.log .buildingRows :: .run .beginBatch ::
      recordAsks s.exporter.chunk.reset 0 s.sent events) []) :
    barred (exportEventStats plan events)
      (fun r s' => True ∧ ((∃ v, r = some v ∧ v = true ∧ Built plan s events s') ∨
        BrokenOff plan (route s.exporter events) events s false .zero r s')) s := by
  have hsending : ∀ s', s'.exporter.stub = true → s'.acked = s.acked → s'.exported = s.exported →
      s'.failures = s.failures → s'.sendFailures = s.sendFailures → s'.sent = s.sent →
      Sending (route s.exporter events) s s' [] := by
    intro s' hstub' hacked hexported hfailures hrecorded hsent'
    exact ⟨hstub', by rw [hacked, List.append_nil], hexported, hfailures, hrecorded,
      hsent'.trans hsent⟩
  refine barred_handled (C := fun _ => True) ?_
  unfold exportEventStatsInternal
  simp only [wp_bind]
  refine wp_log (fun hlog => ?_) fun hraises => ⟨trivial, ?_⟩
  · rw [wp_bind]
    change wp (beginBatch plan) _ _ s
    unfold beginBatch resetChunk
    simp only [wp_bind, wp_modify]
    have h₁ := h.pass hlog
    refine wp_run (fun hbegin => ?_) fun x hx => ⟨trivial, ?_⟩
    · rw [wp_modify, wp_bind]
      have h₂ := h₁.pass hbegin
      refine wp_mono (wp_exportRows 0 events (Or.inl ⟨[], ⟨hsending _ hstub rfl rfl rfl rfl rfl, rfl,
        rfl, rfl, rfl⟩, h₂⟩) rfl (.start plan _)) ?_ fun _ _ hleft => ⟨trivial, hleft⟩
      rintro - s₁ ⟨⟨new, hbuilding, hreached⟩ | ⟨hfailed, hrejected⟩, hrows⟩
      · refine wp_log (fun hlog' => ?_) fun hraises => ⟨trivial, ?_⟩
        · exact ⟨trivial, rfl, (hrows.pass hlog').served, Or.inl ⟨new, hbuilding, hreached.pass hlog'⟩⟩
        · exact hbuilding.left (Or.inr ⟨_, rfl⟩) (hbuilding.le List.prefix_rfl) hreached
            (Plan.exit_log hraises)
      · refine wp_log (fun hlog' => ?_) fun hraises => ⟨trivial, ?_⟩
        · exact ⟨trivial, rfl, (hrows.pass hlog').served, Or.inr ⟨hfailed, hrejected⟩⟩
        · have hx := Plan.exit_log hraises
          exact hrejected.left (hrows.fault (Plan.not_passes_of_exit hx)).first hx
    · have hcleared : Sending (route s.exporter events) s
          { s with exporter.exportedCount := 0, exporter.batchFailed := false } [] :=
        hsending _ hstub rfl rfl rfl rfl rfl
      exact hcleared.left (Or.inl ⟨_, rfl⟩) List.nil_prefix h₁ hx
  · exact (hsending s hstub rfl rfl rfl rfl rfl).left (Or.inr ⟨_, rfl⟩) List.nil_prefix h
      (Plan.exit_log hraises)

/-- How `CommitBatch` ends. -/
structure Commits (plan : Plan) (s₀ : ExportState OTelExporter) (events : List PschEvent)
    (r : Option Bool) (s : ExportState OTelExporter) : Prop where
  count : ∀ new, s.acked = s₀.acked ++ new → s.exporter.exportedCount = new.flatten.length
  ends : r = some true ∧ plan.Served (route s₀.exporter events).asks ∧
      (∃ new, s.acked = s₀.acked ++ new ∧ new.flatten = events) ∧ s.exported = s₀.exported ∧
      s.failures = 0 ∧ s.sendFailures = s₀.sendFailures ∨
    BrokenOff plan (route s₀.exporter events) events s₀ false .acked r s

theorem count_of_acked (hacked : s.acked = s₀.acked ++ new)
    (hcount : s.exporter.exportedCount = new.flatten.length) (new' : List (List PschEvent))
    (hacked' : s.acked = s₀.acked ++ new') : s.exporter.exportedCount = new'.flatten.length := by
  rw [hacked] at hacked'
  rw [hcount, List.append_cancel_left hacked']

/-- The rows have gone well, and so nothing is added. -/
theorem Rejected.commits (h : Rejected plan s₀ s events)
    (hserved : plan.Served (rowsOnly 0 events.length)) : Commits plan s₀ events (some false) s := by
  obtain ⟨-, new, j, m, hm, hpass, hb, hle, hnum⟩ := h
  have hafter : afterRejection plan events.length = ⟨true, 1, some .acked⟩ := by
    rw [afterRejection, Plan.firstFault_eq_none.mpr hserved]
  have hb' : Broken plan (route s₀.exporter events) (.call (.send j)) new ⟨true, 1, some .acked⟩
      s₀ s := hb.same (.refl s) rfl rfl
  exact ⟨count_of_acked hb.acked hnum,
    Or.inr (hb'.off hle ((handled_rejected hm hpass).trans hafter) rfl)⟩

theorem Building.commits (h : Building s₀ s events events 0 new) (hcount : s.exporter.chunkCount = 0)
    (hserved : plan.Served (route s₀.exporter events).asks) :
    Commits plan s₀ events (some true) { s with exporter.consecutiveFailures := 0 } :=
  ⟨count_of_acked h.acked h.count,
    Or.inl ⟨rfl, hserved, ⟨new, h.acked, h.flatten_eq hcount⟩, h.exported, rfl, h.recorded⟩⟩

theorem barred_commitBatch (h : Built plan s₀ events s) :
    barred (commitBatch plan) (Commits plan s₀ events) s := by
  unfold commitBatch barred
  simp only [wp_bind, wp_get]
  obtain ⟨hrows, ⟨new, h, hreached⟩ | ⟨hfailed, hrejected⟩⟩ := h
  · simp only [h.good, h.stub, Bool.false_eq_true, if_false, if_true]
    have hle : new.flatten <+: events := h.le List.prefix_rfl
    by_cases hcount : s.exporter.chunkCount = 0
    · -- nothing is left to send
      rw [if_pos hcount] at hreached
      refine wp_catching (M := fun _ _ => False) ?_ nofun nofun
      unfold flushChunk resetFailures
      simp only [wp_bind, wp_get]
      rw [if_pos (Or.inr hcount)]
      exact h.commits hcount hreached.served
    · rw [if_neg hcount] at hreached
      have hlast : (route s₀.exporter events).asks.getLast? = some (.call (.send s.sent)) := by
        obtain ⟨done, hasks, -⟩ := hreached
        rw [hasks, List.getLast?_concat]
      refine wp_catching (M := FlushLeft plan s₀ s events new) ?_ ?_ ?_
      · rw [wp_bind]
        refine wp_mono (wp_flushChunk h List.prefix_rfl hcount hreached) ?_ fun _ _ => id
        rintro ok s₁ (⟨rfl, hchunk, -, new₁, h₁, hreached₁⟩ | ⟨rfl, hrejected⟩)
        · unfold resetFailures
          simp only [if_true, wp_bind, wp_modify, wp_pure]
          exact h₁.commits (congrArg Chunk.count hchunk) hreached₁.served
        · exact hrejected.commits hrows
      · -- the handlers of `CommitBatch`
        rintro e s₁ ⟨hb, hnum, ⟨hno, -⟩ | ⟨e', -, hthrows⟩⟩
        · cases hno
        have hhandled : (route s₀.exporter events).handled plan (.call (.send s.sent)) =
            plan.logged .sendThrew ⟨true, 1, some .acked⟩ :=
          (Plan.handle_of_throws hthrows).trans (if_pos hlast)
        rw [wp_bind]
        refine wp_log (fun hpass => ?_) fun hraises => ⟨rfl, ?_⟩
        · have hb' : Broken plan (route s₀.exporter events) (.call (.send s.sent)) new
              ⟨true, 1, some .acked⟩ s₀
              { s₁ with
                sendFailures := s₁.sendFailures + 1, lastErrorText := e.what
                exporter.consecutiveFailures := s₁.exporter.consecutiveFailures + 1 } :=
            hb.more (n := 1) rfl rfl rfl rfl (Nat.zero_le _) rfl
          exact ⟨count_of_acked hb'.acked (hnum.trans h.count),
            Or.inr (hb'.off hle (hhandled.trans (Plan.logged_of_passes hpass)) rfl)⟩
        · exact ⟨count_of_acked hb.acked (hnum.trans h.count),
            Or.inr (hb.off_raised hle (hhandled.trans (Plan.logged_of_raises hraises)) rfl)⟩
      · rintro s₁ ⟨hb, hnum, ⟨-, hhandled⟩ | ⟨e, hno, -⟩⟩
        · exact ⟨rfl, count_of_acked hb.acked (hnum.trans h.count),
            Or.inr (hb.off_raised hle hhandled rfl)⟩
        · cases hno
  · simp only [hfailed, if_true, wp_pure]
    exact hrejected.commits hrows

/-- A batch that goes out as log records. -/
theorem barred_exportAsRows (settings : Settings) (events : List PschEvent) (hevents : events ≠ [])
    (hway : PgStatCh.route s.exporter settings events = route s.exporter events)
    (hstub : s.exporter.stub = true) (hsent : s.sent = 0)
    (h : plan.Reached (route s.exporter events).asks (.log .buildingRows :: .run .beginBatch ::
      recordAsks s.exporter.chunk.reset 0 0 events) []) :
    barred (exportAsRows plan events) (fun r s' => Ends plan settings events s r s') s := by
  unfold exportAsRows barred
  rw [wp_bind]
  refine wp_mono (barred_exportEventStats events hstub hsent (by rwa [hsent])) ?_ ?_
  · rintro ok s₁ ⟨-, ⟨v, hok, rfl, hbuilt⟩ | hoff⟩
    · obtain rfl := Option.some_inj.mp hok
      simp only [if_true, wp_bind]
      refine wp_mono (barred_commitBatch hbuilt) ?_ ?_
      · rintro ok s₂ ⟨hcount, ⟨hok, hserved, ⟨new, hacked, hall⟩, hexported, hfailures, hrecorded⟩ |
          hoff⟩
        · obtain rfl := Option.some_inj.mp hok
          have hnum : numExported s₂.exporter = events.length := hall ▸ hcount new hacked
          simp only [if_true, wp_bind, wp_get, hnum]
          exact .exported _ new hevents (hway ▸ hserved) hacked hall
            (congrArg (· + UInt64.ofNat events.length) hexported) hfailures hrecorded
        · obtain ⟨rfl, new, hacked, hends⟩ := BrokenOff.ends hevents (hway ▸ hoff)
          have hnum : numExported s₂.exporter = new.flatten.length := hcount new hacked
          simp only [Bool.false_eq_true, if_false, wp_bind, wp_get, hnum]
          exact hends
      · rintro x s₂ ⟨rfl, -, ⟨hno, -⟩ | hoff⟩
        · cases hno
        · exact ⟨rfl, BrokenOff.ends_raised hevents (hway ▸ hoff)⟩
    · obtain ⟨rfl, new, -, hends⟩ := BrokenOff.ends hevents (hway ▸ hoff)
      exact hends
  · rintro x s₁ ⟨rfl, -, ⟨v, hno, -⟩ | hoff⟩
    · cases hno
    · exact ⟨rfl, BrokenOff.ends_raised hevents (hway ▸ hoff)⟩

/-! ## Arrow blocks -/

section Blocks

variable {settings : Settings} {b : ArrowBatchBuilder} {total : ℕ}

/-- A block could not be built or sent, which is recorded once more at the end of the batch. -/
structure Stopped (plan : Plan) (settings : Settings) (s₀ : ExportState OTelExporter)
    (events : List PschEvent) (total : ℕ) (s : ExportState OTelExporter) : Prop where
  stopped : ∃ a new h, total = new.flatten.length ∧ new.flatten <+: events ∧
    Broken plan (ArrowBatchBuilder.route settings events) a new h s₀ s ∧
    ArrowBatchBuilder.handled plan a = ⟨h.counted, h.recorded + 1, some .acked⟩

/-- What leaves the loop over the blocks. -/
abbrev BlocksLeft (plan : Plan) (settings : Settings) (s₀ : ExportState OTelExporter)
    (events : List PschEvent) : Exit → ExportState OTelExporter → Prop :=
  Left plan (ArrowBatchBuilder.route settings events) .arrowExport events s₀

theorem Sending.blocksLeft {x : Exit} (h : Sending (ArrowBatchBuilder.route settings events) s₀ s new)
    (hle : new.flatten <+: events)
    (hreached : plan.Reached (ArrowBatchBuilder.route settings events).asks (a :: rest) new)
    (ha : ∀ j, a ≠ .call (.send j)) (hx : plan.exit a = some x) :
    BlocksLeft plan settings s₀ events x s := by
  refine (h.broken_here (hreached.fault (Plan.not_passes_of_exit hx)) ha).left hle ?_
  cases a with
  | call p =>
    cases x with
    | error =>
      cases p
      all_goals exact Plan.handle_of_raises (Reply.exit_eq_error.mp hx)
    | exception e =>
      have hthrows := Reply.exit_eq_exception.mp hx
      cases p with
      | send j => exact absurd rfl (ha j)
      | _ => exact Plan.handle_of_throws hthrows
  | run p =>
    cases x with
    | error => exact Plan.handle_of_raises (Reply.exit_eq_error.mp hx)
    | exception e => exact Plan.handle_of_throws (Reply.exit_eq_exception.mp hx)
  | log l =>
    rw [Plan.exit] at hx
    split at hx <;> cases hx
    rfl

/-- A call that fails, and is no request. -/
theorem Sending.stopped {p : Point} {m : String}
    (h : Sending (ArrowBatchBuilder.route settings events) s₀ s new)
    (hle : new.flatten <+: events)
    (hreached : plan.Reached (ArrowBatchBuilder.route settings events).asks (.call p :: rest) new)
    (hp : ArrowBatchBuilder.handled plan (.call p) = ⟨false, 1, some .acked⟩)
    (hsend : ∀ j, p ≠ .send j) (hm : plan p = .fails m) :
    Stopped plan settings s₀ events new.flatten.length s := by
  have hb := h.broken_here (hreached.fault (Plan.not_passes_of_fails hm))
    (fun j hj => hsend j (Ask.call.inj hj))
  exact ⟨_, new, _, rfl, hle, hb, hp⟩

/-- A block is acknowledged or not. -/
def Sent (plan : Plan) (settings : Settings) (s₀ : ExportState OTelExporter)
    (events : List PschEvent) (new : List (List PschEvent)) (rows : List PschEvent)
    (rest : List Ask) (ok : Bool) (s : ExportState OTelExporter) : Prop :=
  ok = true ∧ Sending (ArrowBatchBuilder.route settings events) s₀ s (new ++ [rows]) ∧
      plan.Reached (ArrowBatchBuilder.route settings events).asks rest (new ++ [rows]) ∨
    ok = false ∧ Stopped plan settings s₀ events new.flatten.length s

theorem wp_sendArrowBatch {rows : List PschEvent}
    (h : Sending (ArrowBatchBuilder.route settings events) s₀ s new) (hrows : rows ≠ [])
    (hle : new.flatten <+: events)
    (hreached : plan.Reached (ArrowBatchBuilder.route settings events).asks
      (.call (.send s.sent) :: rest) new) :
    wp (sendArrowBatch plan rows) (Sent plan settings s₀ events new rows rest)
      (BlocksLeft plan settings s₀ events) s := by
  have hbroken : ∀ s', s'.acked = s.acked → s'.exported = s.exported → s'.failures = s.failures →
      s'.sendFailures = s.sendFailures → plan.passes (.call (.send s.sent)) = false →
      Broken plan (ArrowBatchBuilder.route settings events) (.call (.send s.sent)) new .raised
        s₀ s' := by
    intro s' hacked hexported hfailures hrecorded hfault
    refine h.broken (hreached.fault hfault) (fun j hj => ?_) hacked hexported hfailures hrecorded
    cases hj
    rfl
  have hcounted : ∀ s' : ExportState OTelExporter, ∀ m : String,
      Broken plan (ArrowBatchBuilder.route settings events) (.call (.send s.sent)) new .raised
        s₀ s' →
      ArrowBatchBuilder.handled plan (.call (.send s.sent)) = ⟨true, 2, some .acked⟩ →
      Stopped plan settings s₀ events new.flatten.length
        { s' with
          sendFailures := s'.sendFailures + 1, lastErrorText := m
          exporter.consecutiveFailures := s'.exporter.consecutiveFailures + 1 } := by
    intro s' m hb hhandled
    exact ⟨_, new, ⟨true, 1, none⟩, rfl, hle,
      hb.more (n := 1) rfl rfl rfl rfl (Nat.zero_le _) rfl, hhandled⟩
  have hsend : ¬ (s.exporter.stub = false ∨ rows = []) := by simp [h.stub, hrows]
  unfold sendArrowBatch
  simp only [wp_bind, wp_get]
  rw [if_neg hsend]
  -- what reaches the handlers
  refine wp_catching (M := fun x s' => x = .error ∧ BlocksLeft plan settings s₀ events .error s' ∨
    ∃ e, x = .exception e ∧ plan (.send s.sent) = .throws e ∧
      Broken plan (ArrowBatchBuilder.route settings events) (.call (.send s.sent)) new .raised
        s₀ s') ?_ ?_ ?_
  · rw [wp_bind]
    refine wp_send (fun hok => ?_) (fun m hm => ?_) fun x hx => ?_
    · simp only [wp_bind, wp_modify, wp_pure]
      refine Or.inl ⟨rfl, ⟨h.stub, ?_, h.exported, ?_, h.recorded, ?_⟩, hreached.ack hok _⟩
      · rw [h.acked, List.append_assoc]
      · rw [Route.settled, if_pos ⟨rfl, by simp⟩]
        rfl
      · simp [h.sent]
    · have hb := hbroken { s with sent := s.sent + 1 } rfl rfl rfl rfl (Plan.not_passes_of_fails hm)
      have hhandled : ArrowBatchBuilder.handled plan (.call (.send s.sent)) =
          plan.logged .sendFailed ⟨true, 2, some .acked⟩ := Plan.handle_of_fails hm
      rw [wp_bind]
      refine wp_log (fun hpass => ?_) fun hraises => ?_
      · exact Or.inr ⟨rfl, hcounted _ m hb (hhandled.trans (Plan.logged_of_passes hpass))⟩
      · exact Or.inl ⟨rfl, hb.left hle (hhandled.trans (Plan.logged_of_raises hraises))⟩
    · have hb := hbroken { s with sent := s.sent + 1 } rfl rfl rfl rfl (Plan.not_passes_of_exit hx)
      cases x with
      | error =>
        exact Or.inl ⟨rfl, hb.left hle (Plan.handle_of_raises (Reply.exit_eq_error.mp hx))⟩
      | exception e => exact Or.inr ⟨e, rfl, Reply.exit_eq_exception.mp hx, hb⟩
  · rintro e s' (⟨hno, -⟩ | ⟨e', -, hthrows, hb⟩)
    · cases hno
    have hhandled : ArrowBatchBuilder.handled plan (.call (.send s.sent)) =
        plan.logged .sendThrew ⟨true, 2, some .acked⟩ := Plan.handle_of_throws hthrows
    rw [wp_bind]
    refine wp_log (fun hpass => ?_) fun hraises => ?_
    · exact Or.inr ⟨rfl, hcounted _ e.what hb (hhandled.trans (Plan.logged_of_passes hpass))⟩
    · exact hb.left hle (hhandled.trans (Plan.logged_of_raises hraises))
  · rintro s' (⟨-, hleft⟩ | ⟨e, hno, -⟩)
    · exact hleft
    · cases hno

theorem wp_flushBuilder (h : Sending (ArrowBatchBuilder.route settings events) s₀ s new)
    (hrows : b.rows ≠ []) (hle : new.flatten <+: events)
    (hreached : plan.Reached (ArrowBatchBuilder.route settings events).asks
      (.call (.finish s.sent) :: .call (.send s.sent) :: rest) new) :
    wp (flushBuilder plan b) (Sent plan settings s₀ events new b.rows rest)
      (BlocksLeft plan settings s₀ events) s := by
  unfold flushBuilder
  simp only [wp_bind, wp_get]
  refine wp_call (fun hok => ?_) (fun m hm => ?_) fun x hx => ?_
  · rw [if_neg hrows]
    exact wp_sendArrowBatch h hrows hle (hreached.pass (decide_eq_true hok))
  · exact Or.inr ⟨rfl, h.stopped hle hreached (Plan.handle_of_fails hm) nofun hm⟩
  · exact h.blocksLeft hle hreached nofun hx

/-- The state in the loop over the events: the acknowledged blocks, followed by the builder, are
the events `done`. -/
def Looping (plan : Plan) (settings : Settings) (s₀ : ExportState OTelExporter)
    (events done : List PschEvent) (i : ℕ) (later : List PschEvent) (b : ArrowBatchBuilder)
    (total : ℕ) (s : ExportState OTelExporter) : Prop :=
  ∃ new, Sending (ArrowBatchBuilder.route settings events) s₀ s new ∧
    new.flatten ++ b.rows = done ∧ total = new.flatten.length ∧
    plan.Reached (ArrowBatchBuilder.route settings events).asks
      (ArrowBatchBuilder.blockAsks settings b i s.sent later) new

theorem wp_exportArrowRows (i : ℕ) (later : List PschEvent)
    (h : Looping plan settings s₀ events done i later b total s) (hdone : done ++ later = events) :
    wp (exportArrowRows plan settings i later b total)
      (fun r s' => r.2.2 = false ∧
          Looping plan settings s₀ events events events.length [] r.1 r.2.1 s' ∨
        r.2.2 = true ∧ Stopped plan settings s₀ events r.2.1 s')
      (BlocksLeft plan settings s₀ events) s := by
  induction later generalizing s i b total done with
  | nil =>
    rw [List.append_nil] at hdone
    subst hdone
    exact Or.inl ⟨rfl, h⟩
  | cons ev later ih =>
    obtain ⟨new, h, hrows, rfl, hreached⟩ := h
    have hle : new.flatten <+: events := by
      rw [← hdone, ← hrows, List.append_assoc]
      exact List.prefix_append _ _
    rw [ArrowBatchBuilder.blockAsks] at hreached
    unfold exportArrowRows
    rw [wp_bind]
    refine wp_call (fun hok => ?_) (fun m hm => ?_) fun x hx => ?_
    · have hreached₁ := hreached.pass (decide_eq_true hok)
      have happend : new.flatten ++ (b.append settings.extraBytes ev).rows = done ++ [ev] := by
        rw [← hrows, ArrowBatchBuilder.append, List.append_assoc]
      have hmore : (done ++ [ev]) ++ later = events := by simpa using hdone
      simp only
      split
      · -- the block is full
        next hfull =>
        rw [if_pos hfull] at hreached₁
        rw [wp_bind]
        have hne : (b.append settings.extraBytes ev).rows ≠ [] := by simp [ArrowBatchBuilder.append]
        refine wp_mono (wp_flushBuilder h hne hle hreached₁) ?_ fun _ _ => id
        rintro ok s₁ (⟨rfl, h₁, hreached₂⟩ | ⟨rfl, hstopped⟩)
        · have hall : (new ++ [(b.append settings.extraBytes ev).rows]).flatten = done ++ [ev] := by
            simpa using happend
          have hsent : s₁.sent = s.sent + 1 := by
            rw [h₁.sent, h.sent, List.length_append]
            rfl
          rw [← hsent] at hreached₂
          simp only [if_true, wp_bind, wp_get]
          refine wp_run (fun hpass => ?_) fun x hx => ?_
          · refine ih (i + 1) ⟨_, h₁, ?_, ?_, hreached₂.pass hpass⟩ hmore
            · simpa using hall
            · simp
          · refine h₁.blocksLeft ?_ hreached₂ nofun hx
            rw [hall, ← hmore]
            exact List.prefix_append _ _
        · exact Or.inr ⟨rfl, hstopped⟩
      · next hfull =>
        rw [if_neg hfull] at hreached₁
        exact ih (i + 1) ⟨new, h, happend, rfl, hreached₁⟩ hmore
    · exact Or.inr ⟨rfl, h.stopped hle hreached (Plan.handle_of_fails hm) nofun hm⟩
    · exact h.blocksLeft hle hreached nofun hx

/-- What is in the builder after the loop goes out as one more block. -/
theorem wp_flushRest {i : ℕ} {failed : Bool}
    (h : failed = false ∧ Looping plan settings s₀ events events i [] b total s ∨
      failed = true ∧ Stopped plan settings s₀ events total s) :
    wp (flushRest plan b total failed)
      (fun r s' => r.2 = false ∧ (∃ new,
          Sending (ArrowBatchBuilder.route settings events) s₀ s' new ∧ new.flatten = events ∧
          r.1 = events.length ∧ plan.Served (ArrowBatchBuilder.route settings events).asks) ∨
        r.2 = true ∧ Stopped plan settings s₀ events r.1 s')
      (BlocksLeft plan settings s₀ events) s := by
  unfold flushRest
  rcases h with ⟨rfl, new, h, hrows, rfl, hreached⟩ | ⟨rfl, hstopped⟩
  · have hle : new.flatten <+: events := hrows ▸ List.prefix_append _ _
    rw [ArrowBatchBuilder.blockAsks] at hreached
    by_cases hempty : b.rows = []
    · rw [if_pos hempty] at hreached
      rw [hempty, List.append_nil] at hrows
      rw [if_neg (fun hno => hno.2 hempty)]
      exact Or.inl ⟨rfl, new, h, hrows, by rw [hrows], hreached.served⟩
    · rw [if_neg hempty] at hreached
      rw [if_pos ⟨rfl, hempty⟩, wp_bind]
      refine wp_mono (wp_flushBuilder h hempty hle hreached) ?_ fun _ _ => id
      rintro ok s₁ (⟨rfl, h₁, hreached₁⟩ | ⟨rfl, hstopped⟩)
      · have hall : (new ++ [b.rows]).flatten = events := by simpa using hrows
        refine Or.inl ⟨rfl, _, h₁, hall, ?_, hreached₁.served⟩
        rw [← hrows, List.length_append]
      · exact Or.inr ⟨rfl, hstopped⟩
  · rw [if_neg (fun hno => absurd hno.1 (by simp))]
    exact Or.inr ⟨rfl, hstopped⟩

/-- A batch that goes out as Arrow blocks. -/
theorem barred_exportEventsAsArrow (events : List PschEvent) (hevents : events ≠ [])
    (hway : PgStatCh.route s.exporter settings events = ArrowBatchBuilder.route settings events)
    (hstub : s.exporter.stub = true) (hsent : s.sent = 0)
    (hreached : plan.Reached (ArrowBatchBuilder.route settings events).asks
      (.call .arrowInit :: ArrowBatchBuilder.blockAsks settings {} 0 0 events) []) :
    barred (exportEventsAsArrow plan settings events) (Ends plan settings events s) s := by
  have hstart : Sending (ArrowBatchBuilder.route settings events) s s [] :=
    ⟨hstub, (List.append_nil _).symm, rfl, (if_neg fun hno => hno.2 rfl).symm, rfl, hsent⟩
  have hbody : wp (exportEventsAsArrowInternal plan settings events)
      (fun n s' => True ∧ Ends plan settings events s (some n) s')
      (fun x s' => True ∧ BlocksLeft plan settings s events x s') s := by
    unfold exportEventsAsArrowInternal
    rw [wp_bind]
    refine wp_call (fun hok => ?_) (fun m hm => ?_) fun x hx => ?_
    · rw [wp_bind]
      have hlooping : Looping plan settings s events [] 0 events {} 0 s :=
        ⟨[], hstart, rfl, rfl, by rw [hsent]; exact hreached.pass (decide_eq_true hok)⟩
      refine wp_mono (wp_exportArrowRows 0 events hlooping rfl) ?_ fun _ _ hleft => ⟨trivial, hleft⟩
      rintro ⟨b, total, failed⟩ s₁ h₁
      rw [wp_bind]
      refine wp_mono (wp_flushRest h₁) ?_ fun _ _ hleft => ⟨trivial, hleft⟩
      rintro ⟨total', failed'⟩ s₂ (⟨rfl, new, h₂, hall, rfl, hserved⟩ |
        ⟨rfl, a, new, h, rfl, hle, hb, hhandled⟩)
      · have hpos : 0 < events.length := List.length_pos_iff.mpr hevents
        have hne : new ≠ [] := by
          rintro rfl
          exact hevents hall.symm
        have hzero : s₂.failures = 0 := h₂.failures.trans (if_pos ⟨rfl, hne⟩)
        simp only [Bool.false_eq_true, if_false, if_pos hpos]
        exact ⟨trivial, .exported _ new hevents (hway ▸ hserved) h₂.acked hall
          (congrArg (· + UInt64.ofNat events.length) h₂.exported) hzero h₂.recorded⟩
      · have hb' : Broken plan (ArrowBatchBuilder.route settings events) a new
            ⟨h.counted, h.recorded + 1, some .acked⟩ s
            { s₂ with
              sendFailures := s₂.sendFailures + 1
              lastErrorText := "Arrow batch build/send failed" } :=
          hb.more (n := 1) rfl rfl (by simp [ExportState.failures]) rfl le_rfl rfl
        rw [← hway] at hb'
        exact ⟨trivial, hb'.ends hevents hle (hway ▸ hhandled)⟩
    · have hb := hstart.broken_here (hreached.fault (Plan.not_passes_of_fails hm)) (by simp)
      have hhandled : ArrowBatchBuilder.handled plan (.call .arrowInit) =
          plan.logged .arrowInitFailed ⟨false, 1, some .zero⟩ := Plan.handle_of_fails hm
      rw [wp_bind]
      refine wp_log (fun hpass => ?_) fun hraises => ?_
      · have hb' : Broken plan (ArrowBatchBuilder.route settings events) (.call .arrowInit) []
            ⟨false, 1, some .zero⟩ s
            { s with
              sendFailures := s.sendFailures + 1
              lastErrorText := "Arrow batch builder init failed" } :=
          hb.more (n := 1) rfl rfl rfl rfl le_rfl rfl
        rw [← hway] at hb'
        refine ⟨trivial, hb'.ends hevents List.nil_prefix ?_⟩
        rw [hway]
        exact hhandled.trans (Plan.logged_of_passes hpass)
      · exact ⟨trivial,
          hb.left List.nil_prefix (hhandled.trans (Plan.logged_of_raises hraises))⟩
    · exact ⟨trivial, hstart.blocksLeft List.nil_prefix hreached (by simp) hx⟩
  refine barred_mono (barred_handled (C := fun _ => True) hbody) ?_
  rintro r s' ⟨-, ⟨n, rfl, hends⟩ | hoff⟩
  · exact hends
  · rw [← hway] at hoff
    cases r with
    | none => exact hoff.ends_raised hevents
    | some n =>
      obtain ⟨rfl, new, -, hends⟩ := hoff.ends hevents
      exact hends

end Blocks

/-! ## The whole call -/

theorem barred_exportEvents (plan : Plan) (settings : Settings) (events : List PschEvent)
    (hstub : s.exporter.stub = true) (hsent : s.sent = 0) :
    barred (exportEvents plan settings events)
      (fun r s' => True ∧ Ends plan settings events s r s') s := by
  by_cases harrow : (useOtel OTelExporter && settings.arrowPassthrough) = true
  · have hway : PgStatCh.route s.exporter settings events =
        ArrowBatchBuilder.route settings events := if_pos harrow
    refine barred_exportEvents_of (W := fun _ => True)
      (.call .arrowInit :: ArrowBatchBuilder.blockAsks settings {} 0 0 events) trivial
      (by rw [hway]; rfl) (by rw [hway]; rfl) fun hevents hreached => ?_
    rw [if_pos harrow]
    refine barred_mono (barred_exportEventsAsArrow events hevents hway hstub hsent
      (by rwa [hway] at hreached)) ?_
    exact fun _ _ hends => ⟨trivial, hends⟩
  · have hway : PgStatCh.route s.exporter settings events = route s.exporter events :=
      if_neg harrow
    refine barred_exportEvents_of (W := fun _ => True)
      (.log .buildingRows :: .run .beginBatch :: recordAsks s.exporter.chunk.reset 0 0 events)
      trivial
      (by rw [hway]; rfl) (by rw [hway]; rfl) fun hevents hreached => ?_
    rw [if_neg harrow]
    refine barred_mono (barred_exportAsRows settings events hevents hway hstub hsent
      (by rwa [hway] at hreached)) ?_
    exact fun _ _ hends => ⟨trivial, hends⟩

theorem wp_establishNewConnection :
    wp (establishNewConnection plan)
      (fun ok s' => True ∧ Untouched s s' ∧ PgStatCh.Connects plan s ok s')
      (fun x s' => True ∧ Untouched s s' ∧ ConnectLeft plan s x) s := by
  have hstart : plan.Reached (Scheduled.connectAsks s.exporter) [.call .connect] [] := .start plan _
  -- an exception is still to be handled, an ERROR is not
  refine wp_catching (M := fun x s' => Untouched s s' ∧
    plan.firstFault (Scheduled.connectAsks s.exporter) = some (.call .connect) ∧
    (x = .error ∧ connectHandled plan .connect = .raised ∨
      ∃ e, x = .exception e ∧ plan .connect = .throws e)) ?_ ?_ ?_
  · simp only [wp_bind, wp_modify]
    refine wp_call (fun hok => ?_) (fun m hm => ?_) fun x hx => ?_
    · exact ⟨trivial, ⟨rfl, rfl, rfl, rfl⟩,
        Or.inl ⟨rfl, (hstart.pass (decide_eq_true hok)).served, rfl⟩⟩
    · have hfault := (hstart.fault (Plan.not_passes_of_fails hm)).first
      have hhandled : connectHandled plan .connect =
          plan.logged .otelInitFailed ⟨false, 1, some .zero⟩ := Plan.handle_of_fails hm
      rw [wp_bind]
      refine wp_log (fun hpass => ?_) fun hraises => ?_
      · exact ⟨trivial, ⟨rfl, rfl, rfl, rfl⟩, Or.inr ⟨rfl, _, hfault,
          hhandled.trans (Plan.logged_of_passes hpass)⟩⟩
      · exact ⟨⟨rfl, rfl, rfl, rfl⟩, hfault,
          Or.inl ⟨rfl, hhandled.trans (Plan.logged_of_raises hraises)⟩⟩
    · refine ⟨⟨rfl, rfl, rfl, rfl⟩, (hstart.fault (Plan.not_passes_of_exit hx)).first, ?_⟩
      cases x with
      | error => exact Or.inl ⟨rfl, Plan.handle_of_raises (Reply.exit_eq_error.mp hx)⟩
      | exception e => exact Or.inr ⟨e, rfl, Reply.exit_eq_exception.mp hx⟩
  · rintro e s' ⟨hsame, hfault, ⟨hno, -⟩ | ⟨e', -, hthrows⟩⟩
    · cases hno
    have hhandled : connectHandled plan .connect =
        plan.logged .otelInitFailed ⟨false, 1, some .zero⟩ := Plan.handle_of_throws hthrows
    rw [wp_bind]
    refine wp_log (fun hpass => ?_) fun hraises => ?_
    · exact ⟨trivial, ⟨hsame.acked, hsame.exported, hsame.failures, hsame.recorded⟩,
        Or.inr ⟨rfl, _, hfault, hhandled.trans (Plan.logged_of_passes hpass)⟩⟩
    · exact ⟨trivial, hsame, _, hfault, hhandled.trans (Plan.logged_of_raises hraises)⟩
  · rintro s' ⟨hsame, hfault, ⟨-, hhandled⟩ | ⟨e, hno, -⟩⟩
    · exact ⟨trivial, hsame, _, hfault, hhandled⟩
    · cases hno

instance : LawfulExporter OTelExporter where
  WF := fun _ => True
  made := fun _ => trivial
  isConnected_connected := fun _ => rfl
  noRequest := fun _ _ => by simp [Scheduled.connectAsks]
  connectHandled_cases := fun _ plan _ =>
    plan.handle_cases (plan.logged_cases _ _) (plan.logged_cases _ _)
  connect := fun _ _ _ => wp_establishNewConnection
  exportEvents := fun plan settings events _ _ => barred_exportEvents plan settings events

end OTelExporter

end PgStatCh
