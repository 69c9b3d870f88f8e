import PgStatCh.Export.ChcInsert

/-!
# Export.ChcBlocks — the blocks of one batch after the other

A round is a call of `PschExportBatch` with the ClickHouse exporter: a connection if there is
none, the appends of the batch, and `CommitBatch` if they went through. Column objects, and what
an abandoned batch has left in them, live on from round to round. Still every block that is built
holds the batch of its round and nothing else.
-/

namespace PgStatCh

open Lib Prog

namespace Chc

/-! ## Rounds -/

/-- The events of a call of `PschExportBatch`, and what the outside does in it. -/
structure Round where
  /-- "PschExportBatch() called" -/
  called : Reply := .ok
  /-- "client is null, initializing" -/
  initializing : Reply := .ok
  opening : ConnectScript := {}
  /-- "dequeuing events" -/
  dequeuing : Reply := .ok
  /-- `events.reserve` -/
  reserve : Step := .ok
  /-- in the handlers, before the dequeuing -/
  openingCaught : Reply := .ok
  events : List PschEvent
  /-- "no events to export" -/
  noEvents : Reply := .ok
  /-- "exporting batch of ... events" -/
  exporting : Reply := .ok
  faults : RowFaults := {}
  commit : CommitScript
  /-- in the handlers, after the dequeuing -/
  caught : Reply := .ok

/-- A step that can only throw. -/
def mayThrow : Step → M Unit
  | .throws e => throw (.exception e)
  | _ => pure ()

/-- The handler of `PschExportBatch`, around either part of it. -/
def exportBarrier {α : Type} (logged : Reply) (stop : α) (x : M α) : M α :=
  catching x (handleException logged "export batch OOM" stop)

/-- `DequeueEvents`, before the first `PschDequeueEvent`. -/
def beginDequeue (r : Round) : M Bool := do
  log r.dequeuing
  mayThrow r.reserve
  pure true

/-- `PschExportBatch` up to the first `PschDequeueEvent`. -/
def beginExport (r : Round) : M Bool :=
  exportBarrier r.openingCaught false do
    log r.called
    let s ← get
    if s.exporter.client.isSome then beginDequeue r
    else
      log r.initializing
      if ← establishNewConnection r.opening then beginDequeue r
      else
        recordExporterFailure "Failed to connect to exporter backend"
        pure false

/-- The batch, through the rows of the exporter. -/
def exportAsRows (r : Round) : M ℕ := do
  if ← exportEventStats r.faults r.events then
    if ← commitBatch r.commit then
      let s ← get
      addExported s.exporter.exportedCount
      pure s.exporter.exportedCount
    else
      let s ← get
      pure s.exporter.exportedCount
  else pure 0

/-- `PschExportBatch` after `DequeueEvents`. -/
def exportEvents (r : Round) : M ℕ :=
  exportBarrier r.caught 0 do
    if r.events = [] then
      log r.noEvents
      pure 0
    else
      log r.exporting
      exportAsRows r

def pschExportBatch (r : Round) : M ℕ := do
  if ← beginExport r then
    modify fun s => { s with sent := 0 }
    exportEvents r
  else pure 0

/-- The state after these rounds with a new exporter. -/
def exported (rounds : List Round) : ExportState Exporter :=
  rounds.foldl (fun s r => ended (pschExportBatch r) s) { exporter := {} }

/-! ## What holds between rounds -/

/-- The columns are in order, whatever they hold. -/
structure Sound (s : ExportState Exporter) : Prop where
  corresponds : s.exporter.store.Corresponds
  headed : s.exporter.store.Headed

section Rows

variable {s : ExportState Exporter} {vars : Col → ℕ}

theorem map_clear_heads : heads.map Column.clear = heads := rfl

theorem headed_of_isPrefix {st : Store} (h : st.columns <+: heads) : st.Headed := by
  have hclear := h.map Column.clear
  rwa [map_clear_heads] at hclear

/-- The loop over the events, after those of `rows`. -/
theorem wp_exportRows {faults : RowFaults} {i : ℕ} {events : List PschEvent}
    (rows : List PschEvent) (hvars : Assigned vars Col.created) (h : s.exporter.store.Filled rows) :
    wp (exportRows faults vars i events)
      (fun _ s' => s.exporter.store.SameHeads s'.exporter.store ∧
        s'.exporter.built = s.exporter.built ∧ s'.exporter.store.Filled (rows ++ events))
      (fun _ s' => s.exporter.store.SameHeads s'.exporter.store ∧
        s'.exporter.built = s.exporter.built) s := by
  induction events generalizing i s rows with
  | nil =>
    rw [List.append_nil]
    exact ⟨.refl _, rfl, h⟩
  | cons ev rest ih =>
    rw [exportRows, wp_bind, beginRow, wp_modify, wp_bind, appendRow, wp_bind, wp_onStore]
    refine wp_mono (wp_appendCells [] Col.appended_eq_created hvars h) ?_ ?_
    · rintro _ st ⟨hsame, hfilled⟩
      rw [wp_modify]
      refine wp_mono (ih _ hfilled) ?_ ?_
      · rintro _ s' ⟨hsame', hbuilt, hfilled'⟩
        rw [List.append_assoc] at hfilled'
        exact ⟨hsame.trans hsame', hbuilt, hfilled'⟩
      · rintro _ s' ⟨hsame', hbuilt⟩
        exact ⟨hsame.trans hsame', hbuilt⟩
    · rintro e st ⟨hsame, -⟩
      exact ⟨hsame, rfl⟩

/-- The appends of a batch: the columns hold the batch in the end, or it is abandoned with some
of its values in them. -/
theorem wp_exportEventStatsInternal {faults : RowFaults} {events : List PschEvent}
    (hcorr : s.exporter.store.Corresponds) (hheaded : s.exporter.store.Headed) :
    wp (exportEventStatsInternal faults events)
      (fun _ s' => s'.exporter.store.Corresponds ∧ s'.exporter.store.Headed ∧
        s'.exporter.built = s.exporter.built ∧ s'.exporter.store.Filled events)
      (fun _ s' => s'.exporter.store.Corresponds ∧ s'.exporter.store.Headed ∧
        s'.exporter.built = s.exporter.built) s := by
  have hclear := hcorr.of_sameHeads (Store.sameHeads_clear _)
  rw [exportEventStatsInternal, wp_bind]
  refine wp_log' ?_ fun _ => ⟨hcorr, hheaded, rfl⟩
  rw [wp_bind, beginBatch, wp_bind, wp_modify, wp_onStore]
  refine wp_mono (wp_makeCols [] rfl hclear hheaded (Nat.zero_le _) (assigned_nil _)) ?_ ?_
  · rintro vars st ⟨hst, hcols, hvars⟩
    have hst' : st.Headed := headed_of_isPrefix (hcols ▸ List.prefix_refl _)
    rw [wp_bind]
    refine wp_mono (wp_exportRows [] hvars hcols) ?_ ?_
    · rintro _ s' ⟨hsame, hbuilt, hfilled⟩
      exact wp_log' ⟨hst.of_sameHeads hsame, hst'.of_sameHeads hsame, hbuilt, hfilled⟩
        fun _ => ⟨hst.of_sameHeads hsame, hst'.of_sameHeads hsame, hbuilt⟩
    · rintro _ s' ⟨hsame, hbuilt⟩
      exact ⟨hst.of_sameHeads hsame, hst'.of_sameHeads hsame, hbuilt⟩
  · rintro e st ⟨hst, hcols, -⟩
    exact ⟨hst, headed_of_isPrefix hcols, rfl⟩

theorem wp_exportEventStats {faults : RowFaults} {events : List PschEvent} (h : Sound s) :
    wp (exportEventStats faults events)
      (fun ok s' => Sound s' ∧ s'.exporter.built = s.exporter.built ∧
        (ok = true → s'.exporter.store.Filled events))
      (fun _ s' => Sound s' ∧ s'.exporter.built = s.exporter.built) s := by
  refine wp_catching (M := fun _ s' => Sound s' ∧ s'.exporter.built = s.exporter.built) ?_ ?_
    fun _ => id
  · rw [wp_bind]
    refine wp_mono (wp_exportEventStatsInternal h.corresponds h.headed) ?_ ?_
    · rintro _ s' ⟨hcorr, hheaded, hbuilt, hfilled⟩
      exact ⟨⟨hcorr, hheaded⟩, hbuilt, fun _ => hfilled⟩
    · rintro _ s' ⟨hcorr, hheaded, hbuilt⟩
      exact ⟨⟨hcorr, hheaded⟩, hbuilt⟩
  · rintro e s' ⟨hsound, hbuilt⟩
    unfold handleException
    rw [wp_bind]
    exact wp_log' ⟨⟨hsound.corresponds, hsound.headed⟩, hbuilt, nofun⟩ fun _ => ⟨hsound, hbuilt⟩

end Rows

/-! ## A round -/

/-- What a round leaves: the blocks that were built in it hold its batch. -/
structure RoundEnds (r : Round) (s s' : ExportState Exporter) : Prop where
  sound : Sound s'
  blocks : ∃ new, s'.exporter.built = s.exporter.built ++ new ∧
    ∀ b ∈ new, Rectangular r.events b.query b.block

section Rounds

variable {s : ExportState Exporter} {r : Round}

theorem Sound.of_exporter {s' : ExportState Exporter} (h : Sound s)
    (heq : s'.exporter = s.exporter) : Sound s' :=
  ⟨heq ▸ h.corresponds, heq ▸ h.headed⟩

theorem RoundEnds.of_built {s' : ExportState Exporter} (h : Sound s')
    (hbuilt : s'.exporter.built = s.exporter.built) : RoundEnds r s s' :=
  ⟨h, [], by rw [hbuilt, List.append_nil], nofun⟩

theorem RoundEnds.of_exporter {s' s'' : ExportState Exporter} (h : RoundEnds r s s')
    (heq : s''.exporter = s'.exporter) : RoundEnds r s s'' :=
  ⟨h.sound.of_exporter heq, heq ▸ h.blocks⟩

/-- The handler touches the exporter as little as the body does. -/
theorem wp_exportBarrier {α : Type} {logged : Reply} {stop : α} {x : M α}
    {P : ExportState Exporter → Prop} (hx : wp x (fun _ s' => P s') (fun _ s' => P s') s)
    (hP : ∀ s' s'', P s' → s''.exporter = s'.exporter → P s'') :
    wp (exportBarrier logged stop x) (fun _ s' => P s') (fun _ s' => P s') s := by
  refine wp_catching (M := fun _ s' => P s') hx ?_ fun _ => id
  intro e s' hs'
  unfold handleException
  rw [wp_bind]
  exact wp_log' (hP s' _ hs' rfl) fun _ => hs'

theorem wp_mayThrow {step : Step} {Q : Unit → ExportState Exporter → Prop}
    {E : Exit → ExportState Exporter → Prop} (hok : Q () s) (hthrows : ∀ e, E (.exception e) s) :
    wp (mayThrow step) Q E s := by
  cases step with
  | ok => exact hok
  | fails m => exact hok
  | throws e => exact hthrows e

/-- Columns and blocks are what they were. -/
structure Kept (s s' : ExportState Exporter) : Prop where
  sound : Sound s'
  store : s'.exporter.store = s.exporter.store
  built : s'.exporter.built = s.exporter.built

theorem Kept.of_exporter {s' s'' : ExportState Exporter} (h : Kept s s')
    (heq : s''.exporter = s'.exporter) : Kept s s'' :=
  ⟨h.sound.of_exporter heq, heq ▸ h.store, heq ▸ h.built⟩

theorem wp_establishNewConnection_kept {io : ConnectScript} (h : Sound s) :
    wp (establishNewConnection io) (fun _ s' => Kept s s') (fun _ s' => Kept s s') s := by
  refine wp_mono wp_establishNewConnection ?_ ?_
  · rintro ok s' ⟨ready, client, rfl, -⟩
    exact ⟨⟨h.corresponds, h.headed⟩, rfl, rfl⟩
  · rintro e s' ⟨ready, client, rfl, -⟩
    exact ⟨⟨h.corresponds, h.headed⟩, rfl, rfl⟩

theorem wp_beginDequeue {s₀ : ExportState Exporter} (h : Kept s₀ s) :
    wp (beginDequeue r) (fun _ s' => Kept s₀ s') (fun _ s' => Kept s₀ s') s := by
  rw [beginDequeue, wp_bind]
  refine wp_log' ?_ fun _ => h
  rw [wp_bind]
  exact wp_mayThrow h fun _ => h

theorem wp_beginExport (h : Sound s) :
    wp (beginExport r) (fun _ s' => Kept s s') (fun _ s' => Kept s s') s := by
  have hkept : Kept s s := ⟨h, rfl, rfl⟩
  apply wp_exportBarrier (P := Kept s)
  · rw [wp_bind]
    refine wp_log' ?_ fun _ => hkept
    rw [wp_bind, wp_get]
    split
    · exact wp_beginDequeue hkept
    · rw [wp_bind]
      refine wp_log' ?_ fun _ => hkept
      rw [wp_bind]
      refine wp_mono (wp_establishNewConnection_kept h) ?_ fun _ _ => id
      intro ok s' hs'
      cases ok with
      | false => exact hs'.of_exporter rfl
      | true => exact wp_beginDequeue hs'
  · exact fun s' s'' hs' heq => hs'.of_exporter heq

/-- A commit leaves the columns, and builds what is in them. -/
theorem Commits.roundEnds {s' : ExportState Exporter} (h : Commits s s') (hsound : Sound s)
    (hfilled : s.exporter.store.Filled r.events) : RoundEnds r s s' := by
  have hsound' : Sound s' := ⟨h.store ▸ hsound.corresponds, h.store ▸ hsound.headed⟩
  rcases h.built with hsame | hnew
  · exact .of_built hsound' hsame
  · refine ⟨hsound', _, hnew, ?_⟩
    intro b hb
    rw [List.mem_singleton.mp hb]
    exact hfilled.rectangular hsound.corresponds

/-- A batch whose appends went through is built into a block as it is. -/
theorem wp_commitBatch_filled {io : CommitScript} (h : Sound s)
    (hfilled : s.exporter.store.Filled r.events) :
    wp (commitBatch io) (fun _ s' => RoundEnds r s s') (fun _ s' => RoundEnds r s s') s := by
  refine wp_mono wp_commitBatch ?_ ?_
  · exact fun _ _ hends => hends.commits.roundEnds h hfilled
  · exact fun _ _ hleft => hleft.2.commits.roundEnds h hfilled

theorem wp_exportAsRows (h : Sound s) :
    wp (exportAsRows r) (fun _ s' => RoundEnds r s s') (fun _ s' => RoundEnds r s s') s := by
  rw [exportAsRows, wp_bind]
  refine wp_mono (wp_exportEventStats h) ?_ fun _ s₁ h₁ => .of_built h₁.1 h₁.2
  rintro ok s₁ ⟨hsound, hbuilt, hfilled⟩
  cases ok with
  | false => exact .of_built hsound hbuilt
  | true =>
    have hround : ∀ {s₂}, RoundEnds r s₁ s₂ → RoundEnds r s s₂ := fun hends =>
      ⟨hends.sound, hbuilt ▸ hends.blocks⟩
    rw [if_pos rfl, wp_bind]
    refine wp_mono (wp_commitBatch_filled hsound (hfilled rfl)) ?_ fun _ _ => hround
    intro ok s₂ hends
    cases ok with
    | false => exact hround hends
    | true => exact (hround hends).of_exporter rfl

theorem wp_exportEvents (h : Sound s) :
    wp (exportEvents r) (fun _ s' => RoundEnds r s s') (fun _ s' => RoundEnds r s s') s := by
  have hnone : RoundEnds r s s := .of_built h rfl
  apply wp_exportBarrier (P := fun s' => RoundEnds r s s')
  · split
    · rw [wp_bind]
      exact wp_log' hnone fun _ => hnone
    · rw [wp_bind]
      exact wp_log' (wp_exportAsRows h) fun _ => hnone
  · exact fun s' s'' hends heq => hends.of_exporter heq

theorem wp_pschExportBatch (h : Sound s) :
    wp (pschExportBatch r) (fun _ s' => RoundEnds r s s') (fun _ s' => RoundEnds r s s') s := by
  rw [pschExportBatch, wp_bind]
  refine wp_mono (wp_beginExport h) ?_ fun _ s₁ hkept => .of_built hkept.sound hkept.built
  intro ok s₁ hkept
  have hround : ∀ {s'}, RoundEnds r s₁ s' → RoundEnds r s s' := fun hends =>
    ⟨hends.sound, hkept.built ▸ hends.blocks⟩
  cases ok with
  | false => exact .of_built hkept.sound hkept.built
  | true =>
    rw [if_pos rfl, wp_bind, wp_modify]
    refine wp_mono (wp_exportEvents (hkept.sound.of_exporter rfl)) ?_ ?_
    · exact fun _ _ hends => hround ⟨hends.sound, hends.blocks⟩
    · exact fun _ _ hends => hround ⟨hends.sound, hends.blocks⟩

theorem roundEnds_ended (h : Sound s) : RoundEnds r s (ended (pschExportBatch r) s) := by
  exact ended_of_wp (P := RoundEnds r s) (wp_pschExportBatch h)

theorem sound_exported (rounds : List Round) : Sound (exported rounds) := by
  have hrun : ∀ s, Sound s → Sound (rounds.foldl (fun s r => ended (pschExportBatch r) s) s) := by
    induction rounds with
    | nil => exact fun _ h => h
    | cons r rounds ih => exact fun s h => ih _ (roundEnds_ended h).sound
  apply hrun
  refine ⟨⟨rfl, List.nodup_nil, ?_⟩, List.nil_prefix⟩
  intro name i
  constructor
  · exact nofun
  · exact nofun

/-- The block of a batch is rectangular and holds that batch only: after any rounds, each of
which may have been abandoned at any step, the blocks that the next round builds have one column
for each variable, in the order of the query, and in each one value for each event of that round.
Columns, names and index correspond all along: a round that is abandoned at some step ends with
the columns as that step has left them. -/
theorem blocks_rectangular (rounds : List Round) (r : Round) :
    (exported rounds).exporter.store.Corresponds ∧
    (exported (rounds ++ [r])).exporter.store.Corresponds ∧
    ∃ new, (exported (rounds ++ [r])).exporter.built = (exported rounds).exporter.built ++ new ∧
      ∀ b ∈ new, Rectangular r.events b.query b.block := by
  have hstep : exported (rounds ++ [r]) = ended (pschExportBatch r) (exported rounds) := by
    rw [exported, List.foldl_append]
    rfl
  have hends : RoundEnds r (exported rounds) (ended (pschExportBatch r) (exported rounds)) :=
    roundEnds_ended (sound_exported rounds)
  rw [hstep]
  exact ⟨(sound_exported rounds).corresponds, hends.sound.corresponds, hends.blocks⟩

/-- A batch that is torn in the middle of its second row. -/
def tornRound : Round where
  events := [sampleRow "SELECT 1", sampleRow "SELECT 2"]
  faults := { append := fun i k => if i = 1 ∧ k = 8 then .half .badAlloc else .none }
  commit := answering

def wholeRound : Round where
  events := [sampleRow "SELECT 3", sampleRow "SELECT 4"]
  commit := answering

/-- The batch behind a torn one is the only one with a block, and that block has the two rows of
the batch. -/
theorem blocks_rectangular_torn :
    ∃ b, (exported [tornRound, wholeRound]).exporter.built = [b] ∧ b.query = insertStatement ∧
      (∀ col ∈ b.block, col.buffer.numRows = 2) ∧
      (b.block.row 1).lookup "query_text" = some (some (.string (utf8 "SELECT 4"))) := by
  obtain ⟨-, -, new, hnew, hblocks⟩ := blocks_rectangular [tornRound] wholeRound
  have hnone : (exported [tornRound]).exporter.built = [] :=
    List.length_eq_zero_iff.mp (by decide +kernel)
  have hone : (exported [tornRound, wholeRound]).exporter.built.length = 1 := by decide +kernel
  obtain ⟨b, hb⟩ := List.length_eq_one_iff.mp hone
  have hmem : b ∈ new := by
    rw [hnone, List.nil_append, List.singleton_append] at hnew
    rw [← hnew, hb]
    exact List.mem_singleton_self b
  have hrect := hblocks b hmem
  refine ⟨b, hb, hrect.statement, hrect.numRows, ?_⟩
  rw [hrect.rows 1 (sampleRow "SELECT 4") rfl]
  decide +kernel

end Rounds

end Chc

end PgStatCh
