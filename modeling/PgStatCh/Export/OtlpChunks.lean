import Mathlib.Data.List.Infix
import PgStatCh.Export.Otlp
import PgStatCh.Export.Outcome
import PgStatCh.Lib.Greedy

/-!
# Export.OtlpChunks — a batch as a sequence of requests

`BeginRow` flushes the request at hand when it is full, and `CommitBatch` what is left. So the
requests of a batch are its greedy chunks (`Lib.Greedy`) under the two limits, up to and
including the first one that is rejected: that is `wp_exportRows`, by induction over the events.
It also says what has been sent, and what is at hand, when an exception or an ERROR strikes
between any two appends.
-/

namespace PgStatCh

open Lib Prog StatsExporter Otlp

namespace OtlpExporter

/-! ## Records, whole and in part -/

/-- The record of an event after the appends to these columns. -/
def logRecordUpTo (ev : PschEvent) (cs : List Col) : LogRecord :=
  cs.foldl (fun r c => (makeColumn c.factory).write (c.cell ev) r) {}

/-- What these appends add to `chunk_bytes_`. -/
def estimateUpTo (ev : PschEvent) (cs : List Col) : ℕ :=
  (cs.map fun c => (makeColumn c.factory).estimate (c.cell ev)).sum

/-- The record of an event. -/
def logRecord (ev : PschEvent) : LogRecord := logRecordUpTo ev Col.appended

/-- The events of the records of a request, each with the columns it has been appended to. -/
abbrev Parts := List (PschEvent × List Col)

/-- Records that are complete. -/
def whole (rows : List PschEvent) : Parts := rows.map fun ev => (ev, Col.appended)

def requestOf (o : OtlpExporter) (parts : Parts) : Request :=
  { o.newRequest with logRecords := parts.map fun p => logRecordUpTo p.1 p.2 }

/-- `chunk_bytes_` of a request. -/
def chunkEstimate (parts : Parts) : ℕ :=
  kRequestOverheadBytes + (parts.map fun p => kLogRecordOverheadBytes + estimateUpTo p.1 p.2).sum

/-- The estimated size of a request with these events. -/
def rowsEstimate (rows : List PschEvent) : ℕ := chunkEstimate (whole rows)

/-- `ChunkFull`, of a request with these events. -/
def rowsFull (o : OtlpExporter) (rows : List PschEvent) : Bool :=
  decide (o.maxChunkRecords ≤ rows.length) || decide (o.maxChunkBytes ≤ rowsEstimate rows)

/-- The requests that the events make. -/
def chunks (o : OtlpExporter) (events : List PschEvent) : List (List PschEvent) :=
  greedy o.rowsFull events

theorem length_whole (rows : List PschEvent) : (whole rows).length = rows.length :=
  List.length_map _

theorem whole_concat (rows : List PschEvent) (ev : PschEvent) :
    whole (rows ++ [ev]) = whole rows ++ [(ev, Col.appended)] := by
  rw [whole, List.map_append, List.map_singleton]
  rfl

theorem chunkEstimate_concat (parts : Parts) (p : PschEvent × List Col) :
    chunkEstimate (parts ++ [p]) =
      chunkEstimate parts + (kLogRecordOverheadBytes + estimateUpTo p.1 p.2) := by
  simp [chunkEstimate, Nat.add_assoc]

/-- With the limits that `ConfigureLogExport` sets an empty request is not full. -/
theorem rowsFull_nil {o : OtlpExporter} (hrecords : 1 ≤ o.maxChunkRecords)
    (hbytes : kMinBytesPerRecord ≤ o.maxChunkBytes) : o.rowsFull [] = false := by
  have hestimate : rowsEstimate [] < kMinBytesPerRecord := by decide
  simp only [rowsFull, Bool.or_eq_false_iff, decide_eq_false_iff_not, List.length_nil]
  omega

/-! ### The estimate of the coarser model -/

theorem estimate_intColumn {v : Cell} {nonzero : Bool} (key : String)
    (h : toInt64 v = 0 ↔ nonzero = false) :
    (Column.intColumn key).estimate v = intColumnBytes key nonzero := by
  cases nonzero with
  | false => simp [Column.estimate, intColumnBytes, h]
  | true => simp [Column.estimate, intColumnBytes, h]

theorem toInt64_eq_zero (x : UInt64) : x.toInt64 = 0 ↔ x = 0 :=
  ⟨congrArg Int64.toUInt64, congrArg UInt64.toInt64⟩

theorem estimate_uint8 (key : String) (x : UInt8) :
    (Column.intColumn key).estimate (.uint8 x) = intColumnBytes key (x != 0) := by
  refine estimate_intColumn key ?_
  rw [bne_eq_false_iff_eq, toInt64, toInt64_eq_zero, ← UInt8.toUInt64_inj]
  rfl

theorem estimate_int16 (key : String) (x : Int16) :
    (Column.intColumn key).estimate (.int16 x) = intColumnBytes key (x != 0) := by
  refine estimate_intColumn key ?_
  rw [bne_eq_false_iff_eq, toInt64, ← Int64.toInt_inj, ← Int16.toInt_inj, Int16.toInt_toInt64]
  rfl

theorem estimate_int32 (key : String) (x : Int32) :
    (Column.intColumn key).estimate (.int32 x) = intColumnBytes key (x != 0) := by
  refine estimate_intColumn key ?_
  rw [bne_eq_false_iff_eq, toInt64, ← Int64.toInt_inj, ← Int32.toInt_inj, Int32.toInt_toInt64]
  rfl

theorem estimate_int64 (key : String) (x : Int64) :
    (Column.intColumn key).estimate (.int64 x) = intColumnBytes key (x != 0) :=
  estimate_intColumn key bne_eq_false_iff_eq.symm

theorem estimate_uint64 (key : String) (x : UInt64) :
    (Column.intColumn key).estimate (.uint64 x) = intColumnBytes key (x != 0) := by
  refine estimate_intColumn key ?_
  rw [bne_eq_false_iff_eq, toInt64, toInt64_eq_zero]

/-- The query id is unsigned in the event and signed in its column. -/
theorem toInt64_bne_zero (x : UInt64) : (x.toInt64 != 0) = (x != 0) := by
  rw [Bool.eq_iff_iff, bne_iff_ne, bne_iff_ne, ne_eq, toInt64_eq_zero]

/-- What the appends of an event add is what `appendBytes` says. -/
theorem estimateUpTo_appended (ev : PschEvent) : estimateUpTo ev Col.appended = appendBytes ev := by
  unfold estimateUpTo appendBytes Col.appended
  simp only [List.map_cons, List.map_nil, Col.factory, makeColumn, Col.cell, estimate_uint8,
    estimate_int16, estimate_int32, estimate_int64, estimate_uint64]
  simp only [Column.estimate, toBytes, CharBuf.bytes_length, length_utf8, toInt64_bne_zero]

/-! ## The request at hand -/

variable {plan : Plan} {s₀ s : ExportState OtlpExporter} {pre : List (List PschEvent)}
  {acc : List PschEvent} {ev : PschEvent}

/-- The request at hand has these records. -/
structure Built (o : OtlpExporter) (parts : Parts) (s : ExportState OtlpExporter) : Prop where
  message : s.exporter.message = some (requestOf o parts)
  count : s.exporter.chunkCount = parts.length
  bytes : s.exporter.chunkBytes = chunkEstimate parts

/-- If there is a request at hand, it was built by appends in their order. -/
def AtHand (o : OtlpExporter) (s : ExportState OtlpExporter) : Prop :=
  s.exporter.message = none ∨ ∃ parts, Built o parts s ∧ ∀ p ∈ parts, p.2 <+: Col.appended

theorem AtHand.of_eq {s' : ExportState OtlpExporter} (h : AtHand s₀.exporter s)
    (hmessage : s'.exporter.message = s.exporter.message)
    (hcount : s'.exporter.chunkCount = s.exporter.chunkCount)
    (hbytes : s'.exporter.chunkBytes = s.exporter.chunkBytes) : AtHand s₀.exporter s' := by
  rcases h with h | ⟨parts, h, happended⟩
  · exact Or.inl (hmessage.trans h)
  · exact Or.inr ⟨parts, ⟨hmessage.trans h.message, hcount.trans h.count, hbytes.trans h.bytes⟩,
      happended⟩

theorem Built.atHand_whole (h : Built s₀.exporter (whole acc) s) : AtHand s₀.exporter s := by
  refine Or.inr ⟨_, h, fun p hp => ?_⟩
  obtain ⟨ev, -, rfl⟩ := List.mem_map.mp hp
  exact List.prefix_refl _

/-- One append writes to the last record. -/
theorem Built.append {parts : Parts} {done : List Col} (c : Col)
    (h : Built s₀.exporter (parts ++ [(ev, done)]) s) :
    Built s₀.exporter (parts ++ [(ev, done ++ [c])])
      { s with exporter.message := s.exporter.message.map
                 (Request.modifyCurrent fun r => (makeColumn c.factory).write (c.cell ev) r)
               exporter.chunkBytes :=
                 s.exporter.chunkBytes + (makeColumn c.factory).estimate (c.cell ev) } where
  message := by
    simp only [h.message, Option.map_some, requestOf, List.map_append, List.map_singleton]
    rw [Request.modifyCurrent_append]
    simp [logRecordUpTo]
  count := by
    simpa using h.count
  bytes := by
    simp only [h.bytes, chunkEstimate_concat, estimateUpTo, List.map_append, List.sum_append,
      List.map_singleton, List.sum_singleton]
    omega

/-! ## What has been sent -/

/-- What of these requests is handed to the client. -/
def handed (o : OtlpExporter) (cs : List (List PschEvent)) : List (List PschEvent) :=
  if o.stub then cs else []

/-- What a batch reads of the exporter and does not change. -/
structure Setup (o o' : OtlpExporter) : Prop where
  stub : o'.stub = o.stub
  records : o'.maxChunkRecords = o.maxChunkRecords
  bytes : o'.maxChunkBytes = o.maxChunkBytes
  version : o'.version = o.version
  hostname : o'.hostname = o.hostname

theorem Setup.newRequest {o o' : OtlpExporter} (h : Setup o o') : o'.newRequest = o.newRequest := by
  simp only [OtlpExporter.newRequest, populateResource, h.version, h.hostname]

/-- Since `s₀` the requests `pre` were closed, and accepted. -/
structure Sending (plan : Plan) (s₀ s : ExportState OtlpExporter) (pre : List (List PschEvent)) :
    Prop where
  requests : s.exporter.requests = s₀.exporter.requests ++
    (s₀.exporter.handed pre).map fun c => requestOf s₀.exporter (whole c)
  sent : s.sent = s₀.sent + (s₀.exporter.handed pre).length
  accepted : ∀ j < (s₀.exporter.handed pre).length, plan (.send (s₀.sent + j)) = .ok
  exported : s.exporter.exportedCount = (s₀.exporter.handed pre).flatten.length
  setup : Setup s₀.exporter s.exporter

/-- Between two rows: `acc` is at hand. -/
structure Between (plan : Plan) (s₀ s : ExportState OtlpExporter) (pre : List (List PschEvent))
    (acc : List PschEvent) : Prop extends Sending plan s₀ s pre where
  batchFailed : s.exporter.batchFailed = false
  built : Built s₀.exporter (whole acc) s

/-- The row of `ev` was begun. -/
structure Begun (plan : Plan) (s₀ s : ExportState OtlpExporter) (pre : List (List PschEvent))
    (acc : List PschEvent) (ev : PschEvent) (done : List Col) : Prop
    extends Sending plan s₀ s pre where
  batchFailed : s.exporter.batchFailed = false
  current : s.exporter.currentRecord = true
  built : Built s₀.exporter (whole acc ++ [(ev, done)]) s

/-- After `pre` the request `c` was rejected. -/
structure Rejected (plan : Plan) (s₀ s : ExportState OtlpExporter) (pre : List (List PschEvent))
    (c : List PschEvent) : Prop where
  stub : s₀.exporter.stub = true
  requests : s.exporter.requests = s₀.exporter.requests ++
    (pre ++ [c]).map fun c => requestOf s₀.exporter (whole c)
  accepted : ∀ j < pre.length, plan (.send (s₀.sent + j)) = .ok
  rejected : plan (.send (s₀.sent + pre.length)) ≠ .ok
  exported : s.exporter.exportedCount = pre.flatten.length
  message : s.exporter.message = none
  current : s.exporter.currentRecord = false

/-- An exception or an ERROR struck when `pre` had been sent. -/
structure Broken (plan : Plan) (s₀ s : ExportState OtlpExporter) (pre : List (List PschEvent)) :
    Prop where
  left : ¬ plan.NoExit
  requests : s.exporter.requests = s₀.exporter.requests ++
    (s₀.exporter.handed pre).map fun c => requestOf s₀.exporter (whole c)
  atHand : AtHand s₀.exporter s

theorem Between.chunkFull_iff (h : Between plan s₀ s pre acc) :
    s.exporter.chunkFull ↔ s₀.exporter.rowsFull acc = true := by
  rw [OTelExporter.chunkFull, h.setup.records, h.setup.bytes, h.built.count, h.built.bytes,
    length_whole, rowsFull, Bool.or_eq_true, decide_eq_true_iff, decide_eq_true_iff]
  rfl

/-- The exporter differs from that of `s` in the request at hand only. -/
theorem Sending.of_eq {s' : ExportState OtlpExporter} (h : Sending plan s₀ s pre)
    (hsent : s'.sent = s.sent) (hrequests : s'.exporter.requests = s.exporter.requests)
    (hexported : s'.exporter.exportedCount = s.exporter.exportedCount)
    (hsetup : Setup s.exporter s'.exporter) : Sending plan s₀ s' pre where
  requests := hrequests.trans h.requests
  sent := hsent.trans h.sent
  accepted := h.accepted
  exported := hexported.trans h.exported
  setup := ⟨hsetup.stub.trans h.setup.stub, hsetup.records.trans h.setup.records,
    hsetup.bytes.trans h.setup.bytes, hsetup.version.trans h.setup.version,
    hsetup.hostname.trans h.setup.hostname⟩

theorem Sending.broken (h : Sending plan s₀ s pre) (hhand : AtHand s₀.exporter s)
    (hleft : ¬ plan.NoExit) : Broken plan s₀ s pre := ⟨hleft, h.requests, hhand⟩

/-! ## The operations -/

theorem wp_appendCols {done : List Col} (cs : List Col) (h : Begun plan s₀ s pre acc ev done) :
    wp (appendCols ev cs) (fun _ s' => Begun plan s₀ s' pre acc ev (done ++ cs))
      (fun _ _ => False) s := by
  induction cs generalizing s done with
  | nil =>
    rw [List.append_nil]
    exact h
  | cons c cs ih =>
    unfold appendCols append
    simp only [wp_bind, wp_get]
    rw [if_pos h.current, wp_modify, List.append_cons]
    exact ih ⟨h.toSending.of_eq rfl rfl rfl ⟨rfl, rfl, rfl, rfl, rfl⟩, h.batchFailed, h.current,
      h.built.append c⟩

/-- A row that breaks off after some of its appends. -/
theorem wp_appendCut {e : Exit} (i : ℕ) (h : Begun plan s₀ s pre acc ev []) (hleft : ¬ plan.NoExit) :
    wp (appendCut i ev e) (fun _ s' => Between plan s₀ s' pre (acc ++ [ev]))
      (fun _ s' => Broken plan s₀ s' pre) s := by
  unfold appendCut
  simp only [wp_bind, wp_get]
  refine wp_mono (wp_appendCols _ h) (fun _ s' h' => ?_) fun _ _ => False.elim
  refine h'.toSending.broken (Or.inr ⟨_, h'.built, fun p hp => ?_⟩) hleft
  rcases List.mem_append.mp hp with hp | hp
  · obtain ⟨ev, -, rfl⟩ := List.mem_map.mp hp
    exact List.prefix_refl _
  · rw [List.mem_singleton.mp hp]
    exact List.take_prefix _ _

/-- A row that was begun is completed, or breaks off. -/
theorem wp_appendRow (i : ℕ) (h : Begun plan s₀ s pre acc ev []) :
    wp (appendRow plan i ev) (fun _ s' => Between plan s₀ s' pre (acc ++ [ev]))
      (fun _ s' => Broken plan s₀ s' pre) s := by
  have hnote : ∀ rows, Begun plan s₀ { s with exporter.request := rows } pre acc ev [] := fun _ =>
    ⟨h.toSending.of_eq rfl rfl rfl ⟨rfl, rfl, rfl, rfl, rfl⟩, h.batchFailed, h.current,
      h.built.message, h.built.count, h.built.bytes⟩
  unfold appendRow noteRow
  simp only [wp_bind, wp_modify]
  split
  · next e he => exact wp_appendCut i (hnote _) (Plan.not_noExit (Reply.exit_eq_exception.mpr he))
  · next he => exact wp_appendCut i (hnote _) (Plan.not_noExit_of_raises he)
  · refine wp_mono (wp_appendCols _ (hnote _)) (fun _ s' h' => ?_) fun _ _ => False.elim
    refine ⟨h'.toSending, h'.batchFailed, ?_⟩
    rw [whole_concat]
    exact h'.built

theorem wp_addLogRecord (ev : PschEvent) (h : Between plan s₀ s pre acc) :
    wp addLogRecord (fun _ s' => Begun plan s₀ s' pre acc ev []) (fun _ _ => False) s := by
  unfold addLogRecord
  rw [wp_modify]
  refine ⟨h.toSending.of_eq rfl rfl rfl ⟨rfl, rfl, rfl, rfl, rfl⟩, h.batchFailed, rfl, ?_, ?_, ?_⟩
  · simp only [h.built.message, Option.map_some, requestOf, List.map_append, List.map_singleton]
    rfl
  · simp only [h.built.count, List.length_append, List.length_singleton]
  · simp only [h.built.bytes, chunkEstimate_concat]
    rfl

/-- A new request is empty. -/
theorem wp_resetChunk {p : Point} (h : Sending plan s₀ s pre)
    (hfailed : s.exporter.batchFailed = false) (hhand : AtHand s₀.exporter s) :
    wp (resetChunk plan p) (fun _ s' => Between plan s₀ s' pre [])
      (fun _ s' => Broken plan s₀ s' pre) s := by
  unfold resetChunk
  rw [wp_bind]
  refine wp_run (fun _ => ?_) fun e he => h.broken hhand (Plan.not_noExit he)
  rw [wp_modify]
  refine ⟨h.of_eq rfl rfl rfl ⟨rfl, rfl, rfl, rfl, rfl⟩, hfailed, ?_, rfl, rfl⟩
  rw [h.setup.newRequest]
  rfl

theorem handed_of_stub {o : OtlpExporter} (h : o.stub = true) (cs : List (List PschEvent)) :
    o.handed cs = cs := if_pos h

theorem handed_of_not_stub {o : OtlpExporter} (h : o.stub = false) (cs : List (List PschEvent)) :
    o.handed cs = [] := by
  rw [handed, h]
  rfl

/-- Without a client nothing is sent, and nothing counted. -/
theorem Sending.of_not_stub (h : Sending plan s₀ s pre) (hoff : s₀.exporter.stub = false)
    (cs : List (List PschEvent)) : Sending plan s₀ s cs := by
  have hsame : s₀.exporter.handed cs = s₀.exporter.handed pre := by
    rw [handed_of_not_stub hoff, handed_of_not_stub hoff]
  refine ⟨?_, ?_, ?_, ?_, h.setup⟩ <;> rw [hsame]
  · exact h.requests
  · exact h.sent
  · exact h.accepted
  · exact h.exported

/-- The request at hand is closed, or rejected. -/
theorem wp_flushChunk (h : Between plan s₀ s pre acc) (hne : acc ≠ []) :
    wp (flushChunk plan)
      (fun ok s' => ok = true ∧ Sending plan s₀ s' (pre ++ [acc]) ∧
          s'.exporter.batchFailed = false ∧ AtHand s₀.exporter s' ∨
        ok = false ∧ Rejected plan s₀ s' pre acc)
      (fun _ s' => Broken plan s₀ s' (pre ++ [acc])) s := by
  unfold flushChunk
  simp only [wp_bind, wp_get]
  have hcount : s.exporter.chunkCount ≠ 0 := by
    rw [h.built.count, length_whole]
    exact fun h0 => hne (List.length_eq_zero_iff.mp h0)
  cases hstub : s₀.exporter.stub with
  | false =>
    rw [if_pos (Or.inl (h.setup.stub.trans hstub))]
    exact Or.inl ⟨rfl, h.toSending.of_not_stub hstub _, h.batchFailed, h.built.atHand_whole⟩
  | true =>
    have hgo : ¬ (s.exporter.stub = false ∨ s.exporter.chunkCount = 0) := by
      rintro (hoff | h0)
      · rw [h.setup.stub, hstub] at hoff
        cases hoff
      · exact hcount h0
    have hsent := h.sent
    have haccepted := h.accepted
    have hexported := h.exported
    have hrequests : s.exporter.requests ++ s.exporter.message.toList = s₀.exporter.requests ++
        (pre ++ [acc]).map fun c => requestOf s₀.exporter (whole c) := by
      rw [h.requests, handed_of_stub hstub, h.built.message, List.map_append, List.append_assoc]
      rfl
    rw [handed_of_stub hstub] at hsent haccepted hexported
    rw [if_neg hgo]
    simp only [wp_bind, wp_modify]
    refine wp_send (fun hok => ?_) (fun m hm => ?_) fun e he => ?_
    · simp only [wp_bind, wp_modify, wp_pure]
      refine Or.inl ⟨trivial, ⟨?_, ?_, ?_, ?_, ?_⟩, h.batchFailed, Or.inl rfl⟩
      · rw [handed_of_stub hstub]
        exact hrequests
      · rw [handed_of_stub hstub, List.length_append, ← Nat.add_assoc, ← hsent]
        rfl
      · rw [handed_of_stub hstub, List.length_append, List.length_singleton]
        intro j hj
        rcases Nat.lt_succ_iff_lt_or_eq.mp hj with hj | rfl
        · exact haccepted j hj
        · rw [← hsent]
          exact hok
      · rw [handed_of_stub hstub, List.flatten_append, List.length_append, ← hexported,
          List.flatten_singleton, ← length_whole acc, ← h.built.count]
      · exact ⟨h.setup.stub, h.setup.records, h.setup.bytes, h.setup.version, h.setup.hostname⟩
    · simp only [wp_bind, wp_modify]
      refine wp_log (fun _ => ?_) fun hraises => ?_
      · refine Or.inr ⟨rfl, hstub, hrequests, haccepted, ?_, hexported, rfl, rfl⟩
        rw [← hsent]
        intro hok
        rw [show plan (.send s.sent) = .fails m from hm] at hok
        cases hok
      · refine ⟨Plan.not_noExit_of_raises hraises, ?_, Or.inl rfl⟩
        rw [handed_of_stub hstub]
        exact hrequests
    · refine ⟨Plan.not_noExit he, ?_, ?_⟩
      · rw [handed_of_stub hstub]
        exact hrequests
      · exact h.built.atHand_whole.of_eq rfl rfl rfl

theorem wp_beginRow (hnil : s₀.exporter.rowsFull [] = false) (ev : PschEvent)
    (h : Between plan s₀ s pre acc) :
    wp (beginRow plan)
      (fun _ s' => s₀.exporter.rowsFull acc = false ∧ Begun plan s₀ s' pre acc ev [] ∨
        s₀.exporter.rowsFull acc = true ∧ (Begun plan s₀ s' (pre ++ [acc]) [] ev [] ∨
          Rejected plan s₀ s' pre acc ∧ s'.exporter.batchFailed = true))
      (fun _ s' => s₀.exporter.rowsFull acc = true ∧ Broken plan s₀ s' (pre ++ [acc])) s := by
  unfold beginRow
  simp only [wp_bind, wp_get]
  rw [if_neg (Bool.eq_false_iff.mp h.batchFailed)]
  cases hfull : s₀.exporter.rowsFull acc with
  | false =>
    have hroom : ¬ s.exporter.chunkFull := by
      rw [h.chunkFull_iff, hfull]
      exact Bool.false_ne_true
    rw [if_neg hroom]
    exact wp_mono (wp_addLogRecord ev h) (fun _ _ h' => Or.inl ⟨rfl, h'⟩) fun _ _ => False.elim
  | true =>
    have hne : acc ≠ [] := by
      rintro rfl
      rw [hnil] at hfull
      cases hfull
    rw [if_pos (h.chunkFull_iff.mpr hfull), wp_bind]
    refine wp_mono (wp_flushChunk h hne) ?_ fun _ _ h' => ⟨rfl, h'⟩
    rintro ok s₁ (⟨rfl, h₁, hfailed, hhand⟩ | ⟨rfl, h₁⟩)
    · simp only [if_true, wp_bind, wp_get]
      refine wp_mono (wp_resetChunk h₁ hfailed hhand) (fun _ s₂ h₂ => ?_)
        fun _ _ h' => ⟨trivial, h'⟩
      exact wp_mono (wp_addLogRecord ev h₂) (fun _ _ h₃ => Or.inr ⟨trivial, Or.inl h₃⟩)
        fun _ _ => False.elim
    · exact Or.inr ⟨rfl, Or.inr ⟨⟨h₁.stub, h₁.requests, h₁.accepted, h₁.rejected, h₁.exported,
        h₁.message, h₁.current⟩, rfl⟩⟩

/-! ### After a rejected request -/

theorem wp_appendCols_idle (cs : List Col) {Q : Unit → ExportState OtlpExporter → Prop}
    {E : Exit → ExportState OtlpExporter → Prop} (hcurrent : s.exporter.currentRecord = false)
    (hQ : Q () s) : wp (appendCols ev cs) Q E s := by
  induction cs with
  | nil => exact hQ
  | cons c cs ih =>
    unfold appendCols append
    simp only [wp_bind, wp_get]
    rw [if_neg (Bool.eq_false_iff.mp hcurrent)]
    exact ih

/-- The appends do nothing any more. -/
theorem wp_appendRow_idle (i : ℕ) (ev : PschEvent) (hcurrent : s.exporter.currentRecord = false) :
    wp (appendRow plan i ev) (fun _ s' => s' = s) (fun _ s' => s' = s ∧ ¬ plan.NoExit) s := by
  unfold appendRow noteRow
  simp only [wp_bind, wp_modify]
  rw [if_neg (Bool.eq_false_iff.mp hcurrent)]
  split
  · next e he =>
    have hleft := Plan.not_noExit (Reply.exit_eq_exception.mpr he)
    unfold appendCut
    simp only [wp_bind, wp_get]
    exact wp_appendCols_idle _ hcurrent ⟨rfl, hleft⟩
  · next he =>
    unfold appendCut
    simp only [wp_bind, wp_get]
    exact wp_appendCols_idle _ hcurrent ⟨rfl, Plan.not_noExit_of_raises he⟩
  · exact wp_appendCols_idle _ hcurrent rfl

theorem Rejected.broken {c : List PschEvent} (h : Rejected plan s₀ s pre c)
    (hleft : ¬ plan.NoExit) : Broken plan s₀ s (pre ++ [c]) := by
  refine ⟨hleft, ?_, Or.inl h.message⟩
  rw [handed_of_stub h.stub]
  exact h.requests

/-- Nor do the rows. -/
theorem wp_exportRows_rejected {c : List PschEvent} (i : ℕ) (rest : List PschEvent)
    (h : Rejected plan s₀ s pre c) (hfailed : s.exporter.batchFailed = true) :
    wp (exportRows plan i rest) (fun _ s' => s' = s)
      (fun _ s' => Broken plan s₀ s' (pre ++ [c])) s := by
  induction rest generalizing i with
  | nil => rfl
  | cons ev rest ih =>
    change wp (beginRow plan >>= fun _ => appendRow plan i ev >>= fun _ =>
      exportRows plan (i + 1) rest) _ _ s
    unfold beginRow
    simp only [wp_bind, wp_get]
    rw [if_pos hfailed, wp_pure, wp_bind]
    refine wp_mono (wp_appendRow_idle i ev h.current) ?_ ?_
    · rintro - s' rfl
      exact ih (i + 1)
    · rintro - s' ⟨rfl, hleft⟩
      exact h.broken hleft

/-! ## The batch -/

/-- The rows make the greedy chunks, up to the one that is rejected. -/
theorem wp_exportRows (hnil : s₀.exporter.rowsFull [] = false) (i : ℕ) (rest : List PschEvent)
    (h : Between plan s₀ s pre acc) :
    wp (exportRows plan i rest)
      (fun _ s' =>
        (∃ mid acc', Between plan s₀ s' (pre ++ mid) acc' ∧
          mid ++ greedyFrom s₀.exporter.rowsFull acc' [] =
            greedyFrom s₀.exporter.rowsFull acc rest) ∨
        ∃ mid c post, Rejected plan s₀ s' (pre ++ mid) c ∧ s'.exporter.batchFailed = true ∧
          mid ++ c :: post = greedyFrom s₀.exporter.rowsFull acc rest)
      (fun _ s' => ∃ mid, mid <+: greedyFrom s₀.exporter.rowsFull acc rest ∧
        Broken plan s₀ s' (pre ++ mid)) s := by
  induction rest generalizing s pre acc i with
  | nil => exact Or.inl ⟨[], acc, by rwa [List.append_nil], rfl⟩
  | cons ev rest ih =>
    change wp (beginRow plan >>= fun _ => appendRow plan i ev >>= fun _ =>
      exportRows plan (i + 1) rest) _ _ s
    rw [wp_bind]
    refine wp_mono (wp_beginRow hnil ev h) ?_ ?_
    · rintro - s₁ (⟨hfull, h₁⟩ | ⟨hfull, h₁ | ⟨h₁, hfailed⟩⟩)
      · -- there is room in the request at hand
        rw [greedyFrom_cons_of_not_full hfull, wp_bind]
        refine wp_mono (wp_appendRow i h₁) (fun _ s₂ h₂ => ih (i + 1) h₂) fun _ s₂ h₂ => ?_
        exact ⟨[], List.nil_prefix, by rwa [List.append_nil]⟩
      · -- the request at hand was accepted
        rw [greedyFrom_cons_of_full hfull, wp_bind]
        refine wp_mono (wp_appendRow i h₁) (fun _ s₂ h₂ => ?_) fun _ s₂ h₂ => ?_
        · refine wp_mono (ih (i + 1) h₂) ?_ ?_
          · rintro - s₃ (⟨mid, acc', h₃, heq⟩ | ⟨mid, c, post, h₃, hfailed, heq⟩)
            · refine Or.inl ⟨acc :: mid, acc', by rwa [List.append_cons], ?_⟩
              rw [List.cons_append, heq]
              rfl
            · refine Or.inr ⟨acc :: mid, c, post, by rwa [List.append_cons], hfailed, ?_⟩
              rw [List.cons_append, heq]
              rfl
          · rintro - s₃ ⟨mid, hmid, h₃⟩
            exact ⟨acc :: mid, (List.prefix_cons_inj acc).mpr hmid, by rwa [List.append_cons]⟩
        · exact ⟨[acc], ⟨_, rfl⟩, h₂⟩
      · -- it was rejected
        rw [greedyFrom_cons_of_full hfull, wp_bind]
        refine wp_mono (wp_appendRow_idle i ev h₁.current) ?_ ?_
        · rintro - s₂ rfl
          refine wp_mono (wp_exportRows_rejected (i + 1) rest h₁ hfailed) ?_ fun _ s₃ h₃ => ?_
          · rintro - s₃ rfl
            exact Or.inr ⟨[], acc, _, by rwa [List.append_nil], hfailed, rfl⟩
          · exact ⟨[acc], ⟨_, rfl⟩, h₃⟩
        · rintro - s₂ ⟨rfl, hleft⟩
          exact ⟨[acc], ⟨_, rfl⟩, h₁.broken hleft⟩
    · rintro - s₁ ⟨hfull, h₁⟩
      rw [greedyFrom_cons_of_full hfull]
      exact ⟨[acc], ⟨_, rfl⟩, h₁⟩

/-- `CommitBatch` closes the request at hand. -/
theorem wp_commitBatch (h : Between plan s₀ s pre acc) :
    wp (commitBatch plan)
      (fun ok s' =>
        ok = true ∧ s'.exporter.consecutiveFailures = 0 ∧ AtHand s₀.exporter s' ∧
          Sending plan s₀ s' (pre ++ greedyFrom s₀.exporter.rowsFull acc []) ∨
        ok = false ∧ acc ≠ [] ∧
          (Rejected plan s₀ s' pre acc ∨ Broken plan s₀ s' (pre ++ [acc])))
      (fun _ s' => acc ≠ [] ∧ Broken plan s₀ s' (pre ++ [acc])) s := by
  unfold commitBatch
  simp only [wp_bind, wp_get]
  rw [if_neg (Bool.eq_false_iff.mp h.batchFailed)]
  split
  · next hstub =>
    rcases eq_or_ne acc [] with rfl | hne
    · -- there was no row
      have hempty : s.exporter.chunkCount = 0 := h.built.count
      refine wp_catching (M := fun _ _ => False) ?_ (fun _ _ => False.elim) fun _ => False.elim
      unfold flushChunk
      simp only [wp_bind, wp_get]
      rw [if_pos (Or.inr hempty)]
      refine Or.inl ⟨rfl, rfl, h.built.atHand_whole.of_eq rfl rfl rfl, ?_⟩
      rw [greedyFrom, List.append_nil]
      exact h.toSending.of_eq rfl rfl rfl ⟨rfl, rfl, rfl, rfl, rfl⟩
    · refine wp_catching (M := fun _ s' => Broken plan s₀ s' (pre ++ [acc])) ?_ ?_
        fun _ h₁ => ⟨hne, h₁⟩
      · rw [wp_bind]
        refine wp_mono (wp_flushChunk h hne) ?_ fun _ _ h₁ => h₁
        rintro ok s₁ (⟨rfl, h₁, -, hhand⟩ | ⟨rfl, h₁⟩)
        · refine Or.inl ⟨rfl, rfl, hhand.of_eq rfl rfl rfl, ?_⟩
          rw [greedyFrom_nil hne]
          exact h₁.of_eq rfl rfl rfl ⟨rfl, rfl, rfl, rfl, rfl⟩
        · exact Or.inr ⟨rfl, hne, Or.inl h₁⟩
      · intro e s₁ h₁
        rw [wp_bind]
        refine wp_log (fun _ => ?_) fun _ => ⟨hne, h₁⟩
        exact Or.inr ⟨rfl, hne, Or.inr ⟨h₁.left, h₁.requests, h₁.atHand.of_eq rfl rfl rfl⟩⟩
  · next hstub =>
    have hoff : s₀.exporter.stub = false := by
      rw [← h.setup.stub]
      exact Bool.eq_false_iff.mpr hstub
    refine Or.inl ⟨rfl, rfl, h.built.atHand_whole.of_eq rfl rfl rfl, ?_⟩
    exact (h.toSending.of_not_stub hoff _).of_eq rfl rfl rfl ⟨rfl, rfl, rfl, rfl, rfl⟩

/-- Whatever an earlier batch has left, a batch begins with nothing. -/
theorem wp_beginBatch (hbegin : plan.passes (.run .beginBatch) = true) :
    wp (beginBatch plan) (fun _ s' => Between plan s s' [] []) (fun _ _ => False) s := by
  have hnone : s.exporter.handed [] = [] := ite_self _
  unfold beginBatch resetChunk
  simp only [wp_bind, wp_modify]
  refine wp_run (fun _ => ?_) fun e he => absurd hbegin ?_
  swap
  · rw [Plan.not_passes_of_exit he]
    exact Bool.false_ne_true
  rw [wp_modify]
  refine ⟨⟨?_, ?_, ?_, ?_, ⟨rfl, rfl, rfl, rfl, rfl⟩⟩, rfl, rfl, rfl, rfl⟩ <;> rw [hnone]
  · exact (List.append_nil _).symm
  · rfl
  · exact fun j hj => absurd hj (Nat.not_lt_zero j)
  · rfl

/-- How a batch ends that is not left by an ERROR: all of its chunks are sent, or one is rejected,
or an exception strikes. -/
inductive Ends (plan : Plan) (events : List PschEvent) (s s' : ExportState OtlpExporter) :
    Bool → Prop
  | all : Sending plan s s' (s.exporter.chunks events) → s'.exporter.consecutiveFailures = 0 →
      AtHand s.exporter s' → Ends plan events s s' true
  | rejected (pre : List (List PschEvent)) (c : List PschEvent) (post : List (List PschEvent)) :
      pre ++ c :: post = s.exporter.chunks events → Rejected plan s s' pre c →
      Ends plan events s s' false
  | broken (pre : List (List PschEvent)) : pre <+: s.exporter.chunks events →
      Broken plan s s' pre → Ends plan events s s' false

/-- `ExportEventStatsInternal`, and then `CommitBatch`. -/
def exportAndCommit (plan : Plan) (events : List PschEvent) : M Bool := do
  exportEventStatsInternal plan events
  commitBatch plan

theorem wp_exportAndCommit (hnil : s.exporter.rowsFull [] = false) (events : List PschEvent)
    (hbegin : plan.Served [.log .buildingRows, .run .beginBatch]) :
    wp (exportAndCommit plan events) (fun ret s' => Ends plan events s s' ret)
      (fun _ s' => ∃ pre, pre <+: s.exporter.chunks events ∧ Broken plan s s' pre) s := by
  have hlog : plan (.log .buildingRows) ≠ .raises :=
    of_decide_eq_true (hbegin _ List.mem_cons_self)
  have hrun := hbegin _ (List.mem_cons_of_mem _ List.mem_cons_self)
  unfold exportAndCommit exportEventStatsInternal
  change wp ((plan.log .buildingRows >>= fun _ => beginBatch plan >>= fun _ =>
    exportRows plan 0 events >>= fun _ => plan.log .builtRows) >>= fun _ => commitBatch plan) _ _ s
  rw [wp_bind, wp_bind]
  refine wp_log (fun _ => ?_) fun hraises => absurd hraises hlog
  rw [wp_bind]
  refine wp_mono (wp_beginBatch hrun) (fun _ s₁ h₁ => ?_) fun _ _ => False.elim
  rw [wp_bind]
  refine wp_mono (wp_exportRows hnil 0 events h₁) ?_ ?_
  · rintro - s₂ (⟨mid, acc, h₂, heq⟩ | ⟨mid, c, post, h₂, hfailed, heq⟩)
    · have hmid : mid <+: s.exporter.chunks events := ⟨_, heq⟩
      rw [List.nil_append] at h₂
      refine wp_log (fun _ => ?_) fun hraises => ⟨mid, hmid,
        h₂.toSending.broken h₂.built.atHand_whole (Plan.not_noExit_of_raises hraises)⟩
      refine wp_mono (wp_commitBatch h₂) ?_ ?_
      · rintro ok s₃ (⟨rfl, hzero, hhand, h₃⟩ | ⟨rfl, hne, h₃⟩)
        · rw [heq] at h₃
          exact .all h₃ hzero hhand
        · rw [greedyFrom_nil hne] at heq
          rcases h₃ with h₃ | h₃
          · exact .rejected mid acc [] heq h₃
          · exact .broken _ (heq ▸ List.prefix_refl _) h₃
      · rintro - s₃ ⟨hne, h₃⟩
        rw [greedyFrom_nil hne] at heq
        exact ⟨_, heq ▸ List.prefix_refl _, h₃⟩
    · rw [List.nil_append] at h₂
      refine wp_log (fun _ => ?_) fun hraises => ⟨mid ++ [c], ⟨post, ?_⟩,
        h₂.broken (Plan.not_noExit_of_raises hraises)⟩
      · unfold commitBatch
        simp only [wp_bind, wp_get]
        rw [if_pos hfailed]
        exact .rejected mid c post heq h₂
      · rw [List.append_assoc]
        exact heq
  · rintro - s₂ ⟨mid, hmid, h₂⟩
    exact ⟨mid, hmid, h₂⟩

end OtlpExporter

/-- The backend accepts request `j`. -/
def Plan.accepts (plan : Plan) (j : ℕ) : Bool := decide (plan (.send j) = .ok)

namespace OtlpExporter

/-! ## The partition -/

/-- A request that the batch makes is within the limits. -/
theorem mem_chunks {o : OtlpExporter} {events c : List PschEvent} (hnil : o.rowsFull [] = false)
    (hc : c ∈ o.chunks events) :
    c ≠ [] ∧ c.length ≤ o.maxChunkRecords ∧ rowsEstimate c.dropLast < o.maxChunkBytes := by
  obtain ⟨hne, hroom⟩ := mem_greedy hnil hc
  simp only [rowsFull, Bool.or_eq_false_iff, decide_eq_false_iff_not, List.length_dropLast,
    Nat.not_le] at hroom
  have hpos : 0 < c.length := List.length_pos_of_ne_nil hne
  exact ⟨hne, by omega, hroom.2⟩

/-- How many of the requests of the batch are accepted. -/
def acceptedChunks (plan : Plan) (s : ExportState OtlpExporter) (events : List PschEvent) : ℕ :=
  acceptedUpTo plan.accepts s.sent (s.exporter.chunks events).length

/-- What a batch does when every call returns: of the state before, only the limits matter. -/
theorem Ends.exact {events : List PschEvent} {ret : Bool} {s' : ExportState OtlpExporter}
    (hplan : plan.NoExit) (hstub : s.exporter.stub = true) (h : Ends plan events s s' ret) :
    s'.exporter.requests = s.exporter.requests ++
        ((s.exporter.chunks events).take (acceptedChunks plan s events + 1)).map
          (fun c => requestOf s.exporter (whole c)) ∧
      s'.exporter.exportedCount =
        ((s.exporter.chunks events).take (acceptedChunks plan s events)).flatten.length ∧
      ret = decide (acceptedChunks plan s events = (s.exporter.chunks events).length) ∧
      (ret = true → s'.exporter.consecutiveFailures = 0) := by
  cases h with
  | all h hzero _ =>
    have hrequests := h.requests
    have hexported := h.exported
    have haccepted := h.accepted
    rw [handed_of_stub hstub] at hrequests hexported haccepted
    have hn : acceptedChunks plan s events = (s.exporter.chunks events).length :=
      acceptedUpTo_eq (Nat.le_refl _) (fun i hi => decide_eq_true (haccepted i hi))
        fun hlt => absurd hlt (Nat.lt_irrefl _)
    rw [hn, List.take_of_length_le (Nat.le_succ _), List.take_length]
    exact ⟨hrequests, hexported, (decide_eq_true rfl).symm, fun _ => hzero⟩
  | rejected pre c post heq h =>
    have hlength : (s.exporter.chunks events).length = pre.length + (post.length + 1) := by
      rw [← heq, List.length_append, List.length_cons]
    have hn : acceptedChunks plan s events = pre.length := by
      refine acceptedUpTo_eq (by omega) (fun i hi => decide_eq_true (h.accepted i hi)) fun _ => ?_
      exact decide_eq_false h.rejected
    have hsent : (s.exporter.chunks events).take (pre.length + 1) = pre ++ [c] := by
      rw [← heq, List.take_append, List.take_of_length_le (Nat.le_succ _), Nat.add_sub_cancel_left]
      rfl
    have hpre : (s.exporter.chunks events).take pre.length = pre := by
      rw [← heq, List.take_left']
      rfl
    rw [hn, hsent, hpre]
    refine ⟨h.requests, h.exported, (decide_eq_false ?_).symm, nofun⟩
    omega
  | broken pre _ h => exact absurd hplan h.left

theorem served_begin {plan : Plan} (hplan : plan.NoExit) :
    plan.Served [.log .buildingRows, .run .beginBatch] :=
  Plan.served_cons.mpr ⟨hplan.passes_log _, Plan.served_cons.mpr
    ⟨hplan.passes_run _, Plan.served_nil⟩⟩

/-- When every call returns a batch ends with an answer. -/
theorem exists_ends (hplan : plan.NoExit) (hnil : s.exporter.rowsFull [] = false)
    (events : List PschEvent) :
    ∃ ret s', exportAndCommit plan events s = .ok ret s' ∧ Ends plan events s s' ret := by
  have h := wp_exportAndCommit hnil events (served_begin hplan)
  obtain ⟨ret, s', hrun⟩ := exists_ok (wp_mono h (fun _ _ => id) fun _ _ ⟨_, _, hbroken⟩ =>
    hbroken.left hplan)
  exact ⟨ret, s', hrun, wp_of_ok (Q := fun ret s' => Ends plan events s s' ret) hrun h⟩

theorem Setup.rowsFull {o o' : OtlpExporter} (h : Setup o o') : o'.rowsFull = o.rowsFull := by
  funext rows
  rw [OtlpExporter.rowsFull, h.records, h.bytes]
  rfl

theorem Setup.chunks {o o' : OtlpExporter} (h : Setup o o') (events : List PschEvent) :
    o'.chunks events = o.chunks events := by
  rw [OtlpExporter.chunks, h.rowsFull]
  rfl

theorem Setup.requestOf {o o' : OtlpExporter} (h : Setup o o') (parts : Parts) :
    o'.requestOf parts = o.requestOf parts := by
  rw [OtlpExporter.requestOf, h.newRequest]
  rfl

/-- The requests of a batch are consecutive parts of it, not empty and within the limits, and
each is sent when those before it were accepted. If all are accepted they are the whole batch,
and `CommitBatch` and `NumExported` say so. The first one that is rejected is the last one sent,
and the rows of those before it are what `NumExported` counts. What an earlier batch has left in
the exporter plays no role. -/
theorem chunks_partition_events (hplan : plan.NoExit) (hstub : s.exporter.stub = true)
    (hrecords : 1 ≤ s.exporter.maxChunkRecords)
    (hbytes : kMinBytesPerRecord ≤ s.exporter.maxChunkBytes) (events : List PschEvent) :
    ∃ (ret : Bool) (s' : ExportState OtlpExporter) (sent : List (List PschEvent)),
      exportAndCommit plan events s = .ok ret s' ∧
      s'.exporter.requests = s.exporter.requests ++
        sent.map (fun c => requestOf s.exporter (whole c)) ∧
      (∀ c ∈ sent, c ≠ [] ∧ c.length ≤ s.exporter.maxChunkRecords ∧
        rowsEstimate c.dropLast < s.exporter.maxChunkBytes) ∧
      sent.flatten <+: events ∧
      ((∀ j < sent.length, plan (.send (s.sent + j)) = .ok) →
        sent.flatten = events ∧ ret = true ∧ numExported s'.exporter = events.length ∧
          numConsecutiveFailures s'.exporter = 0) ∧
      (∀ j < sent.length, plan (.send (s.sent + j)) ≠ .ok →
        sent.length = j + 1 ∧ ret = false ∧
          numExported s'.exporter = (sent.take j).flatten.length) ∧
      ∀ t : ExportState OtlpExporter, Setup s.exporter t.exporter → t.sent = s.sent →
        ∃ t', exportAndCommit plan events t = .ok ret t' ∧
          t'.exporter.requests = t.exporter.requests ++
            sent.map (fun c => requestOf s.exporter (whole c)) ∧
          numExported t'.exporter = numExported s'.exporter := by
  have hnil := rowsFull_nil hrecords hbytes
  obtain ⟨ret, s', hrun, hends⟩ := exists_ends hplan hnil events
  obtain ⟨hrequests, hexported, hret, hzero⟩ := hends.exact hplan hstub
  have hle : acceptedChunks plan s events ≤ (s.exporter.chunks events).length :=
    acceptedUpTo_le _ _
  have hflatten : (s.exporter.chunks events).flatten = events := flatten_greedy events
  have hpre : ∀ k, ((s.exporter.chunks events).take k).flatten <+: events := fun k => by
    have hflat := (List.take_prefix k (s.exporter.chunks events)).flatten
    rwa [hflatten] at hflat
  refine ⟨ret, s', (s.exporter.chunks events).take (acceptedChunks plan s events + 1), hrun,
    hrequests, fun c hc => ?_, hpre _, fun hall => ?_, fun j hj hno => ?_, fun t hsetup hsent => ?_⟩
  · exact mem_chunks hnil (List.mem_of_mem_take hc)
  · -- if not all were accepted, the last one sent was not
    have hn : acceptedChunks plan s events = (s.exporter.chunks events).length := by
      refine Nat.le_antisymm hle (Nat.le_of_not_lt fun hlt => ?_)
      have hrejected := of_decide_eq_false (not_ok_acceptedUpTo hlt)
      refine hrejected (hall (acceptedChunks plan s events) ?_)
      rw [List.length_take]
      omega
    have hone : ret = true := hret.trans (decide_eq_true hn)
    rw [hn, List.take_length, hflatten] at hexported
    rw [hn, List.take_of_length_le (Nat.le_succ _)]
    exact ⟨hflatten, hone, hexported, hzero hone⟩
  · have hge : acceptedChunks plan s events ≤ j := Nat.le_of_not_lt fun hlt =>
      hno (of_decide_eq_true (ok_of_lt_acceptedUpTo hlt))
    rw [List.length_take] at hj
    obtain rfl : j = acceptedChunks plan s events := by omega
    rw [List.length_take, List.take_take]
    refine ⟨by omega, hret.trans (decide_eq_false (by omega)), ?_⟩
    rw [Nat.min_eq_left (Nat.le_succ _)]
    exact hexported
  · have hnil' : t.exporter.rowsFull [] = false := by
      rw [hsetup.rowsFull]
      exact hnil
    have hsame : acceptedChunks plan t events = acceptedChunks plan s events := by
      rw [acceptedChunks, hsetup.chunks, hsent]
      rfl
    obtain ⟨ret', t', hrun', hends'⟩ := exists_ends hplan hnil' events
    obtain ⟨hrequests', hexported', hret', -⟩ := hends'.exact hplan (hsetup.stub.trans hstub)
    simp only [hsame, hsetup.chunks, hsetup.requestOf] at hrequests' hexported' hret'
    rw [← hret] at hret'
    subst hret'
    exact ⟨t', hrun', hrequests', hexported'.trans hexported.symm⟩

/-- The collector takes the first request and rejects the second. -/
def refusing : Plan
  | .send 1 => .fails "unavailable"
  | _ => .ok

theorem refusing_noExit : refusing.NoExit := by
  intro p
  unfold refusing
  split <;> rfl

/-- Five events, in requests of at most two. -/
def fiveRows : List PschEvent :=
  ["BEGIN", "SELECT 1", "SELECT pg_sleep(10)", "SELECT 2", "COMMIT"].map sampleRow

def twoAtATime : ExportState OtlpExporter where
  exporter := { stub := true, maxChunkRecords := 2, version := utf8 "0.1", hostname := utf8 "db1" }

/-- The request with the first two events is taken, that with the next two is rejected, and none
is made of the last. -/
theorem chunks_partition_events_refusing :
    ∃ s', exportAndCommit refusing fiveRows twoAtATime = .ok false s' ∧
      s'.exporter.requests.length = 2 ∧ numExported s'.exporter = 2 := by
  obtain ⟨ret, s', sent, hrun, hrequests, hlimits, -, hall, hrejected, -⟩ :=
    chunks_partition_events refusing_noExit (s := twoAtATime) rfl (by decide) (by decide) fiveRows
  -- one request could not hold all five
  have htwo : 1 < sent.length := by
    by_contra hle
    have haccepted : ∀ j < sent.length, refusing (.send (twoAtATime.sent + j)) = .ok := by
      intro j hj
      obtain rfl : j = 0 := by omega
      rfl
    have hfive : sent.flatten.length = 5 := congrArg List.length (hall haccepted).1
    rcases Nat.le_one_iff_eq_zero_or_eq_one.mp (Nat.le_of_not_lt hle) with hnone | hone
    · rw [List.length_eq_zero_iff.mp hnone] at hfive
      cases hfive
    · obtain ⟨c, rfl⟩ := List.length_eq_one_iff.mp hone
      have hc : c.length ≤ 2 := (hlimits c (List.mem_singleton_self c)).2.1
      rw [List.flatten_singleton] at hfive
      omega
  obtain ⟨hlength, rfl, -⟩ := hrejected 1 htwo nofun
  refine ⟨s', hrun, ?_, ?_⟩
  · rw [hrequests, List.length_append, List.length_map, hlength]
    rfl
  · have hcount : returns (exportAndCommit refusing fiveRows) (fun s => s.exporter.exportedCount)
        twoAtATime = some (false, 2) := by
      decide +kernel
    obtain ⟨s'', hrun', htwo'⟩ := ok_of_returns hcount
    rw [hrun] at hrun'
    cases hrun'
    exact htwo'

end OtlpExporter

end PgStatCh
