import Mathlib.Data.List.TakeWhile
import PgStatCh.Export.Batch

/-!
# Export.Schedule — what a call asks of the outside, in order

When nothing goes wrong, a call of `PschExportBatch` asks the outside for a fixed list of things:
which ones and in which order follows from the exporter, the settings and the events. The first of
them that goes wrong decides what becomes of the call, and what is then done about it is a matter
of the handlers (`Handled`): whether the exporter counts the failure, how often it is recorded in
`send_failures`, and what the call returns.

All of this is about the inputs of a call; that the code goes this way is proved in `Outcome` and
`OTelOutcome`.
-/

namespace PgStatCh

open Lib StatsExporter

/-! ## Asks -/

/-- Something that a call asks of the outside. -/
inductive Ask where
  /-- a call that can return an error -/
  | call (p : Point)
  /-- a call that can only be left -/
  | run (p : Point)
  | log (l : LogStatement)
deriving DecidableEq, Repr

/-- How a call with this reply is left. -/
def Reply.exit : Reply → Option Exit
  | .throws e => some (.exception e)
  | .raises => some .error
  | _ => none

theorem Reply.exit_eq_error {r : Reply} : r.exit = some .error ↔ r = .raises := by
  cases r <;> simp [Reply.exit]

theorem Reply.exit_eq_exception {r : Reply} {e : Exception} :
    r.exit = some (.exception e) ↔ r = .throws e := by
  cases r <;> simp [Reply.exit]

namespace Plan

/-- It goes well. -/
def passes (plan : Plan) : Ask → Bool
  | .call p => decide (plan p = .ok)
  | .run p => (plan p).exit.isNone
  | .log l => decide (plan (.log l) ≠ .raises)

/-- How it is left, if it is. -/
def exit (plan : Plan) : Ask → Option Exit
  | .call p => (plan p).exit
  | .run p => (plan p).exit
  | .log l => if plan (.log l) = .raises then some .error else none

/-- Every call returns: nothing throws, and no ERROR leaves one. -/
def NoExit (plan : Plan) : Prop := ∀ p, (plan p).exit = none

/-- Nothing goes wrong anywhere. -/
def Clean (plan : Plan) : Prop := ∀ p, plan p = .ok

/-- The first thing that goes wrong. -/
def firstFault (plan : Plan) (asks : List Ask) : Option Ask :=
  asks.find? fun a => !plan.passes a

/-- Nothing goes wrong. -/
def Served (plan : Plan) (asks : List Ask) : Prop := ∀ a ∈ asks, plan.passes a = true

/-- No request gets through before something goes wrong. -/
def Unacknowledged (plan : Plan) (asks : List Ask) : Prop :=
  ∀ j, Ask.call (.send j) ∉ asks.takeWhile plan.passes

instance (plan : Plan) (asks : List Ask) : Decidable (plan.Served asks) :=
  inferInstanceAs (Decidable (∀ a ∈ asks, _))

section Faults

variable {plan : Plan} {asks : List Ask} {a : Ask}

theorem not_passes_of_exit {x : Exit} (h : plan.exit a = some x) : plan.passes a = false := by
  cases a with
  | call p =>
    refine decide_eq_false fun hok => ?_
    rw [exit, hok] at h
    cases h
  | run p =>
    rw [exit] at h
    rw [passes, h]
    rfl
  | log l =>
    rw [exit] at h
    split at h
    · next hraises => exact decide_eq_false (not_not_intro hraises)
    · cases h

@[simp] theorem served_nil : plan.Served [] := fun _ h => absurd h List.not_mem_nil

@[simp] theorem served_cons : plan.Served (a :: asks) ↔ plan.passes a = true ∧ plan.Served asks :=
  List.forall_mem_cons

@[simp] theorem served_append {asks' : List Ask} :
    plan.Served (asks ++ asks') ↔ plan.Served asks ∧ plan.Served asks' :=
  List.forall_mem_append

theorem Clean.served (h : plan.Clean) (asks : List Ask) : plan.Served asks := by
  intro a _
  cases a <;> simp [passes, h _, Reply.exit]

theorem not_noExit {p : Point} {x : Exit} (h : (plan p).exit = some x) : ¬ plan.NoExit := by
  intro hno
  rw [hno p] at h
  cases h

theorem not_noExit_of_raises {p : Point} (h : plan p = .raises) : ¬ plan.NoExit :=
  not_noExit (Reply.exit_eq_error.mpr h)

theorem NoExit.passes_run (h : plan.NoExit) (p : Point) : plan.passes (.run p) = true := by
  rw [passes, h p]
  rfl

theorem NoExit.passes_log (h : plan.NoExit) (l : LogStatement) : plan.passes (.log l) = true :=
  decide_eq_true fun hraises => not_noExit_of_raises hraises h

theorem firstFault_eq_none : plan.firstFault asks = none ↔ plan.Served asks := by
  simp [firstFault, Served]

theorem not_served_of_firstFault (h : plan.firstFault asks = some a) : ¬ plan.Served asks := by
  intro hserved
  rw [firstFault_eq_none.mpr hserved] at h
  cases h

theorem firstFault_append {done rest : List Ask} (h : plan.Served done) :
    plan.firstFault (done ++ rest) = plan.firstFault rest := by
  rw [firstFault, List.find?_append, ← firstFault, firstFault_eq_none.mpr h]
  rfl

theorem firstFault_append_of_some {rest : List Ask} (h : plan.firstFault asks = some a) :
    plan.firstFault (asks ++ rest) = some a := by
  unfold firstFault at h ⊢
  rw [List.find?_append, h]
  rfl

theorem firstFault_cons_of_not_passes {rest : List Ask} (h : plan.passes a = false) :
    plan.firstFault (a :: rest) = some a := by
  rw [firstFault, List.find?_cons_of_pos]
  rw [h]
  rfl

theorem mem_of_firstFault (h : plan.firstFault asks = some a) : a ∈ asks :=
  List.mem_of_find?_eq_some h

theorem not_passes_of_firstFault (h : plan.firstFault asks = some a) : plan.passes a = false := by
  have hnot := List.find?_some h
  rwa [Bool.not_eq_true'] at hnot

theorem ne_ok_of_firstFault {p : Point} (h : plan.firstFault asks = some (.call p)) :
    plan p ≠ .ok :=
  of_decide_eq_false (not_passes_of_firstFault h)

end Faults

/-- How far a call has come: `rest` of `asks` is left, all before it has gone well, and the
requests `new` were acknowledged on the way. -/
def Reached (plan : Plan) (asks rest : List Ask) (new : List (List PschEvent)) : Prop :=
  ∃ done, asks = done ++ rest ∧ plan.Served done ∧
    (new ≠ [] → ∃ j, Ask.call (.send j) ∈ done)

/-- Here the call goes wrong for the first time. -/
structure FaultAt (plan : Plan) (asks : List Ask) (a : Ask) (new : List (List PschEvent)) :
    Prop where
  first : plan.firstFault asks = some a
  unacknowledged : plan.Unacknowledged asks → new = []

namespace Reached

variable {plan : Plan} {asks rest : List Ask} {new : List (List PschEvent)} {a : Ask}

theorem start (plan : Plan) (asks : List Ask) : plan.Reached asks asks [] :=
  ⟨[], rfl, fun _ h => absurd h List.not_mem_nil, fun h => absurd rfl h⟩

theorem served (h : plan.Reached asks [] new) : plan.Served asks := by
  obtain ⟨done, rfl, hdone, -⟩ := h
  rwa [List.append_nil]

theorem pass (h : plan.Reached asks (a :: rest) new) (hpass : plan.passes a = true) :
    plan.Reached asks rest new := by
  obtain ⟨done, rfl, hdone, hnew⟩ := h
  refine ⟨done ++ [a], by simp, fun b hb => ?_, fun hne => ?_⟩
  · rcases List.mem_append.mp hb with hb | hb
    · exact hdone b hb
    · rwa [List.mem_singleton.mp hb]
  · obtain ⟨j, hj⟩ := hnew hne
    exact ⟨j, List.mem_append_left _ hj⟩

/-- A part of the rest goes well in which there is no request, or none that counts. -/
theorem passes {part : List Ask} (h : plan.Reached asks (part ++ rest) new)
    (hpart : plan.Served part) : plan.Reached asks rest new := by
  induction part with
  | nil => exact h
  | cons a part ih =>
    obtain ⟨hpass, hpart'⟩ := served_cons.mp hpart
    exact ih (h.pass hpass) hpart'

theorem ack {j : ℕ} (h : plan.Reached asks (.call (.send j) :: rest) new)
    (hok : plan (.send j) = .ok) (rows : List PschEvent) :
    plan.Reached asks rest (new ++ [rows]) := by
  obtain ⟨done, rfl, hdone, -⟩ := h
  refine ⟨done ++ [.call (.send j)], by simp, fun b hb => ?_, fun _ => ⟨j, by simp⟩⟩
  rcases List.mem_append.mp hb with hb | hb
  · exact hdone b hb
  · rw [List.mem_singleton.mp hb]
    exact decide_eq_true hok

theorem fault (h : plan.Reached asks (a :: rest) new) (hfault : plan.passes a = false) :
    plan.FaultAt asks a new := by
  obtain ⟨done, rfl, hdone, hnew⟩ := h
  refine ⟨(firstFault_append hdone).trans (firstFault_cons_of_not_passes hfault), fun hun => ?_⟩
  by_contra hne
  obtain ⟨j, hj⟩ := hnew hne
  refine hun j ?_
  rw [List.takeWhile_append_of_pos hdone]
  exact List.mem_append_left _ hj

/-- Where the rest goes wrong, the whole does. -/
theorem firstFault_eq (h : plan.Reached asks rest new) :
    plan.firstFault asks = plan.firstFault rest := by
  obtain ⟨done, rfl, hdone, -⟩ := h
  exact firstFault_append hdone

end Reached

end Plan

/-! ## What is done about a fault -/

/-- What a call returns. -/
inductive Returned where
  | zero
  /-- the number of acknowledged events -/
  | acked
  /-- the size of the batch -/
  | batch
deriving DecidableEq, Repr

def Returned.value (acked batch : ℕ) : Returned → ℕ
  | .zero => 0
  | .acked => acked
  | .batch => batch

/-- What is done about the first thing that goes wrong. -/
structure Handled where
  /-- the exporter counts a failure -/
  counted : Bool
  /-- how often it is recorded in `send_failures` -/
  recorded : ℕ
  /-- what the call returns, unless an ERROR leaves it -/
  returns : Option Returned
deriving DecidableEq, Repr

/-- An ERROR leaves the call, and nothing else happens. -/
def Handled.raised : Handled := ⟨false, 0, none⟩

/-- A message is written about the fault before anything else is done about it. -/
def Plan.logged (plan : Plan) (l : LogStatement) (h : Handled) : Handled :=
  if plan.passes (.log l) then h else .raised

/-- What `plan` says about an exception, or a failure, at a point. -/
def Plan.handle (plan : Plan) (p : Point) (threw failed : Handled) : Handled :=
  match plan p with
  | .raises => .raised
  | .throws _ => threw
  | _ => failed

section Handled

variable {plan : Plan} {l : LogStatement} {p : Point} {h threw failed : Handled}

theorem Plan.logged_of_passes (hpass : plan.passes (.log l) = true) : plan.logged l h = h :=
  if_pos hpass

theorem Plan.logged_of_raises (hraises : plan (.log l) = .raises) : plan.logged l h = .raised := by
  refine if_neg fun hpass => ?_
  exact of_decide_eq_true hpass hraises

theorem Plan.handle_of_raises (hp : plan p = .raises) : plan.handle p threw failed = .raised := by
  rw [Plan.handle, hp]

theorem Plan.handle_of_throws {e : Exception} (hp : plan p = .throws e) :
    plan.handle p threw failed = threw := by
  rw [Plan.handle, hp]

theorem Plan.handle_of_fails {m : String} (hp : plan p = .fails m) :
    plan.handle p threw failed = failed := by
  rw [Plan.handle, hp]

theorem Plan.counted_logged :
    (plan.logged l h).counted = true ↔ plan.passes (.log l) = true ∧ h.counted = true := by
  unfold Plan.logged
  split
  · next hpass => simp [hpass]
  · next hraises => simp [hraises, Handled.raised]

/-- Where the reply is a fault. -/
theorem Plan.counted_handle (hp : plan p ≠ .ok) :
    (plan.handle p threw failed).counted = true ↔
      (∃ e, plan p = .throws e) ∧ threw.counted = true ∨
        (∃ m, plan p = .fails m) ∧ failed.counted = true := by
  unfold Plan.handle
  cases h : plan p with
  | ok => exact absurd h hp
  | fails m | throws e | raises => simp [Handled.raised]

theorem Plan.logged_cases (plan : Plan) (l : LogStatement) (h : Handled) :
    plan.logged l h = .raised ∨ plan.logged l h = h := by
  unfold Plan.logged
  split
  · exact Or.inr rfl
  · exact Or.inl rfl

theorem Plan.handle_elim (plan : Plan) {P : Handled → Prop} (hraised : P .raised)
    (hthrew : P threw) (hfailed : P failed) : P (plan.handle p threw failed) := by
  unfold Plan.handle
  split
  · exact hraised
  · exact hthrew
  · exact hfailed

theorem Plan.handle_cases (plan : Plan) (hthrew : threw = .raised ∨ threw = h)
    (hfailed : failed = .raised ∨ failed = h) :
    plan.handle p threw failed = .raised ∨ plan.handle p threw failed = h :=
  plan.handle_elim (P := fun h' => h' = .raised ∨ h' = h) (Or.inl rfl) hthrew hfailed

end Handled

/-- An exception in `ExportEventStats`. -/
def Plan.buildThrew (plan : Plan) : Handled := plan.logged .eventStats ⟨false, 1, some .zero⟩

/-- An exception that only `PschExportBatch` handles. -/
def Plan.batchThrew (plan : Plan) : Handled := plan.logged .exportBatch ⟨false, 1, some .zero⟩

/-! ## The ways a batch takes -/

/-- A way to export a batch. -/
structure Route where
  /-- what is asked in turn -/
  asks : List Ask
  /-- what is done about the first of them that goes wrong -/
  handled : Plan → Ask → Handled
  /-- a request that is acknowledged sets the count of failures to zero at once -/
  resets : Bool

/-- With these plans the call adds to `exported` what was acknowledged of the batch: all of it, or
nothing. -/
def Route.CountsExactly (way : Route) (plan : Plan) : Prop :=
  plan.Served way.asks ∨ plan.Unacknowledged way.asks

/-- With these plans the call returns the number of events acknowledged, which is 0 when an ERROR
leaves it. -/
def Route.ReturnsExactly (way : Route) (plan : Plan) : Prop :=
  ∀ a, plan.firstFault way.asks = some a →
    (way.handled plan a).returns = some .acked ∨
      plan.Unacknowledged way.asks ∧ (way.handled plan a).returns ≠ some .batch

/-- The count of failures before anything is done about a fault. -/
def Route.settled (way : Route) (failures : ℕ) (new : List (List PschEvent)) : ℕ :=
  if way.resets = true ∧ new ≠ [] then 0 else failures

/-- The rows of a batch from event `i` on, `n` of them, and the message after the last. -/
def rowsOnly (i n : ℕ) : List Ask :=
  (List.range' i n).map (fun k => .run (.row k)) ++ [.log .builtRows]

theorem rowsOnly_succ (i n : ℕ) : rowsOnly i (n + 1) = .run (.row i) :: rowsOnly (i + 1) n := by
  rw [rowsOnly, List.range'_succ]
  rfl

namespace ClickHouseExporter

def connectAsks (c : ClickHouseExporter) : List Ask :=
  (if c.memoryContextsReady then [] else [.call .memoryContexts]) ++
    [.call .connect, .log .connected]

/-- No connection is recorded by `PschExportBatch`. -/
def connectHandled (plan : Plan) : Point → Handled
  | .connect =>
    plan.handle .connect plan.batchThrew (plan.logged .connectFailed ⟨false, 1, some .zero⟩)
  | p => plan.handle p plan.batchThrew ⟨false, 1, some .zero⟩

/-- `CommitBatch`, with a connection. -/
def commitAsks : List Ask :=
  [.call .blockBuilderInit, .call .crunch, .log .inserting, .call (.send 0), .log .inserted]

/-- What can fail is inside `CommitBatch`, and what can only throw before it. -/
def handled (plan : Plan) : Ask → Handled
  | .call p =>
    let failed := plan.logged .recordFailure ⟨true, 1, some .batch⟩
    plan.handle p failed failed
  | .run p => plan.handle p plan.buildThrew plan.buildThrew
  | .log _ => .raised

/-- A batch of `n` events. -/
def route (n : ℕ) : Route where
  asks := [.log .exporting, .log .buildingRows, .run .beginBatch] ++ (rowsOnly 0 n ++ commitAsks)
  handled := handled
  resets := true

end ClickHouseExporter

namespace OTelExporter

/-- `EstablishNewConnection` has handlers of its own. -/
def connectHandled (plan : Plan) (p : Point) : Handled :=
  let failed := plan.logged .otelInitFailed ⟨false, 1, some .zero⟩
  plan.handle p failed failed

/-- The limits of a request, and how much is in it. -/
structure Chunk where
  maxRecords : ℕ
  maxBytes : ℕ
  count : ℕ
  bytes : ℕ

def chunk (o : OTelExporter) : Chunk :=
  ⟨o.maxChunkRecords, o.maxChunkBytes, o.chunkCount, o.chunkBytes⟩

namespace Chunk

def full (c : Chunk) : Prop := c.maxRecords ≤ c.count ∨ c.maxBytes ≤ c.bytes

instance (c : Chunk) : Decidable c.full := inferInstanceAs (Decidable (_ ∨ _))

/-- A new request. -/
def reset (c : Chunk) : Chunk := { c with count := 0, bytes := kRequestOverheadBytes }

/-- One more record. -/
def add (c : Chunk) (ev : PschEvent) : Chunk :=
  { c with count := c.count + 1, bytes := c.bytes + kLogRecordOverheadBytes + appendBytes ev }

end Chunk

/-- The records of a batch from event `i` on, after `j` requests, with this in the request. -/
def recordAsks : Chunk → ℕ → ℕ → List PschEvent → List Ask
  | c, _, j, [] => .log .builtRows :: if c.count = 0 then [] else [.call (.send j)]
  | c, i, j, ev :: rest =>
    if c.full then
      if c.count = 0 then
        .run (.reset j) :: .run (.row i) :: recordAsks (c.reset.add ev) (i + 1) j rest
      else
        .call (.send j) :: .run (.reset (j + 1)) :: .run (.row i) ::
          recordAsks (c.reset.add ev) (i + 1) (j + 1) rest
    else .run (.row i) :: recordAsks (c.add ev) (i + 1) j rest

/-- A batch of these events, as log records. -/
def batchAsks (o : OTelExporter) (events : List PschEvent) : List Ask :=
  [.log .exporting, .log .buildingRows, .run .beginBatch] ++ recordAsks o.chunk.reset 0 0 events

/-- A rejected request is recorded and counted. If that was on the way, the rows are gone through
all the same, and `ExportEventStats` records once more when one of them throws. -/
def afterRejection (plan : Plan) (n : ℕ) : Handled :=
  match plan.firstFault (rowsOnly 0 n) with
  | none => ⟨true, 1, some .acked⟩
  | some (.run p) =>
    if plan p ≠ .raises ∧ plan.passes (.log .eventStats) then ⟨true, 2, some .zero⟩
    else ⟨true, 1, none⟩
  | some _ => ⟨true, 1, none⟩

/-- An exception in the last request is `CommitBatch`'s, one in another is `ExportEventStats`'s. -/
def handled (asks : List Ask) (n : ℕ) (plan : Plan) : Ask → Handled
  | .call p =>
    plan.handle p
      (if asks.getLast? = some (.call p) then plan.logged .sendThrew ⟨true, 1, some .acked⟩
        else plan.buildThrew)
      (plan.logged .sendFailed (afterRejection plan n))
  | .run p => plan.handle p plan.buildThrew plan.buildThrew
  | .log _ => .raised

/-- Only the last request sets the count to zero, and nothing goes wrong after it. -/
def route (o : OTelExporter) (events : List PschEvent) : Route where
  asks := o.batchAsks events
  handled := handled (o.batchAsks events) events.length
  resets := false

end OTelExporter

namespace ArrowBatchBuilder

/-- The blocks of a batch from event `i` on, after `j` blocks, with this in the builder. -/
def blockAsks (settings : Settings) : ArrowBatchBuilder → ℕ → ℕ → List PschEvent → List Ask
  | b, _, j, [] => if b.rows = [] then [] else [.call (.finish j), .call (.send j)]
  | b, i, j, ev :: rest =>
    .call (.row i) ::
      if max 65536 settings.otelMaxBlockBytes ≤ (b.append settings.extraBytes ev).estimatedBytes then
        .call (.finish j) :: .call (.send j) :: .run (.reset (j + 1)) ::
          blockAsks settings {} (i + 1) (j + 1) rest
      else blockAsks settings (b.append settings.extraBytes ev) (i + 1) j rest

/-- A block that is not acknowledged is recorded by `SendArrowBatch`, and again as the end of the
batch. -/
def handled (plan : Plan) : Ask → Handled
  | .call (.send j) =>
    plan.handle (.send j) (plan.logged .sendThrew ⟨true, 2, some .acked⟩)
      (plan.logged .sendFailed ⟨true, 2, some .acked⟩)
  | .call .arrowInit =>
    plan.handle .arrowInit (plan.logged .arrowExport ⟨false, 1, some .zero⟩)
      (plan.logged .arrowInitFailed ⟨false, 1, some .zero⟩)
  | .call p =>
    plan.handle p (plan.logged .arrowExport ⟨false, 1, some .zero⟩) ⟨false, 1, some .acked⟩
  | .run p =>
    let threw := plan.logged .arrowExport ⟨false, 1, some .zero⟩
    plan.handle p threw threw
  | .log _ => .raised

/-- A batch of these events, as Arrow blocks. -/
def route (settings : Settings) (events : List PschEvent) : Route where
  asks := [.log .exporting, .call .arrowInit] ++ blockAsks settings {} 0 0 events
  handled := handled
  resets := true

end ArrowBatchBuilder

/-! ## Any exporter -/

/-- What an exporter asks, and how it gets a batch out in rows. -/
class Scheduled (ε : Type) [StatsExporter ε] where
  connectAsks : ε → List Ask
  /-- what is done about the first of them that goes wrong -/
  connectHandled : ε → Plan → Point → Handled
  /-- the exporter that has connected -/
  connected : ε → ε
  rows : ε → List PschEvent → Route

instance : Scheduled ClickHouseExporter where
  connectAsks := ClickHouseExporter.connectAsks
  connectHandled := fun _ => ClickHouseExporter.connectHandled
  connected := fun c => { c with memoryContextsReady := true, client := true }
  rows := fun _ events => ClickHouseExporter.route events.length

instance : Scheduled OTelExporter where
  connectAsks := fun _ => [.call .connect]
  connectHandled := fun _ => OTelExporter.connectHandled
  connected := fun o => { o.configureLogExport with stub := true }
  rows := OTelExporter.route

section Generic

variable {ε : Type} [StatsExporter ε] [Scheduled ε]

/-- What `PschExportBatch` asks before the first `PschDequeueEvent`. -/
def openingAsks (x : ε) : List Ask :=
  .log .called :: (if isConnected x then [] else .log .initializing :: Scheduled.connectAsks x) ++
    [.log .dequeuing, .run .reserve]

/-- The way to the first `PschDequeueEvent`. -/
def opening (x : ε) : Route where
  asks := openingAsks x
  handled := fun plan => fun
    | .call p => Scheduled.connectHandled x plan p
    | .run p => plan.handle p plan.batchThrew plan.batchThrew
    | .log _ => .raised
  resets := false

/-- The exporter when `PschExportBatch` gets that far. -/
def opened (x : ε) : ε := if isConnected x then x else Scheduled.connected x

/-- The way that a batch takes, with this exporter. -/
def route (x : ε) (settings : Settings) (events : List PschEvent) : Route :=
  if useOtel ε && settings.arrowPassthrough then ArrowBatchBuilder.route settings events
  else Scheduled.rows x events

end Generic

/-! ## Which plans are counted and reported right -/

/-- With ClickHouse there is one request, and only the message about it comes after it. -/
theorem ClickHouseExporter.unacknowledged {plan : Plan} {n : ℕ} {a : Ask}
    (hfault : plan.firstFault (ClickHouseExporter.route n).asks = some a)
    (ha : a ≠ .log .inserted) : plan.Unacknowledged (ClickHouseExporter.route n).asks := by
  let before : List Ask := [.log .exporting, .log .buildingRows, .run .beginBatch] ++
    (rowsOnly 0 n ++ [.call .blockBuilderInit, .call .crunch, .log .inserting])
  have hasks : (ClickHouseExporter.route n).asks = before ++ [.call (.send 0), .log .inserted] := by
    simp [before, ClickHouseExporter.route, ClickHouseExporter.commitAsks]
  have hbefore : ∀ j, Ask.call (.send j) ∉ before := by simp [before, rowsOnly]
  rw [hasks] at hfault ⊢
  unfold Plan.Unacknowledged
  rw [List.takeWhile_append]
  split
  · next hall =>
    -- everything before the request has gone well, and so the request has not
    have hserved : plan.Served before :=
      List.takeWhile_eq_self_iff.mp ((List.takeWhile_prefix _).eq_of_length hall)
    rw [Plan.firstFault_append hserved] at hfault
    cases hsend : plan.passes (.call (.send 0)) with
    | true =>
      rw [Plan.firstFault, List.find?_cons_of_neg (by simp [hsend])] at hfault
      exact absurd (List.mem_singleton.mp (List.mem_of_find?_eq_some hfault)) ha
    | false => exact fun j => by simp [hsend, hbefore]
  · exact fun j hmem => hbefore j ((List.takeWhile_prefix _).subset hmem)

/-- So a batch is counted right, unless an ERROR leaves that message. -/
theorem ClickHouseExporter.countsExactly {plan : Plan} (n : ℕ)
    (h : plan (.log .inserted) ≠ .raises) : (ClickHouseExporter.route n).CountsExactly plan := by
  cases hfault : plan.firstFault (ClickHouseExporter.route n).asks with
  | none => exact Or.inl (Plan.firstFault_eq_none.mp hfault)
  | some a =>
    refine Or.inr (ClickHouseExporter.unacknowledged hfault ?_)
    rintro rfl
    exact of_decide_eq_false (Plan.not_passes_of_firstFault hfault) h

/-- What is not left can only fail where it is called. -/
theorem Plan.fails_of_firstFault {plan : Plan} {asks : List Ask} {a : Ask}
    (h : plan.NoExit) (hfault : plan.firstFault asks = some a) :
    ∃ p m, a = .call p ∧ plan p = .fails m := by
  have hnot := Plan.not_passes_of_firstFault hfault
  cases a with
  | call p =>
    refine ⟨p, ?_⟩
    have hexit := h p
    cases hp : plan p with
    | fails m => exact ⟨m, rfl, rfl⟩
    | ok => exact absurd hp (of_decide_eq_false hnot)
    | throws e | raises =>
      rw [hp] at hexit
      cases hexit
  | run p =>
    rw [Plan.passes, h p] at hnot
    cases hnot
  | log l =>
    have hraises : plan (.log l) = .raises := not_not.mp (of_decide_eq_false hnot)
    have hexit := h (.log l)
    rw [hraises] at hexit
    cases hexit

/-- With OpenTelemetry the call returns what was acknowledged, if nothing throws and no ERROR
leaves it. -/
theorem OTelExporter.returnsExactly {plan : Plan} (h : plan.NoExit) (o : OTelExporter)
    (settings : Settings) (events : List PschEvent) :
    (PgStatCh.route o settings events).ReturnsExactly plan := by
  intro a hfault
  obtain ⟨p, m, rfl, hm⟩ := Plan.fails_of_firstFault h hfault
  have hrows : plan.firstFault (rowsOnly 0 events.length) = none := by
    by_contra hne
    obtain ⟨b, hb⟩ := Option.ne_none_iff_exists'.mp hne
    obtain ⟨p, m, rfl, -⟩ := Plan.fails_of_firstFault h hb
    have hmem := Plan.mem_of_firstFault hb
    simp [rowsOnly] at hmem
  have hlog := h.passes_log
  unfold PgStatCh.route at hfault ⊢
  split at hfault
  · next harrow =>
    rw [if_pos harrow]
    have hhandled : ∀ h' : Handled, ArrowBatchBuilder.handled plan (.call p) = h' →
        (ArrowBatchBuilder.route settings events).handled plan (.call p) = h' := fun _ => id
    cases p with
    | arrowInit =>
      -- nothing was sent before
      refine Or.inr ⟨fun j => ?_, ?_⟩
      · have hstop : plan.passes (.call .arrowInit) = false := decide_eq_false (by simp [hm])
        simp [ArrowBatchBuilder.route, hlog, hstop]
      · rw [hhandled _ (Plan.handle_of_fails hm), Plan.logged_of_passes (hlog _)]
        decide
    | send j =>
      left
      rw [hhandled _ (Plan.handle_of_fails hm), Plan.logged_of_passes (hlog _)]
    | _ =>
      left
      rw [hhandled _ (Plan.handle_of_fails hm)]
  · next harrow =>
    rw [if_neg harrow]
    left
    have hhandled : (Scheduled.rows o events).handled plan (.call p) =
        plan.logged .sendFailed (afterRejection plan events.length) := Plan.handle_of_fails hm
    rw [hhandled, Plan.logged_of_passes (hlog _), afterRejection, hrows]

end PgStatCh
