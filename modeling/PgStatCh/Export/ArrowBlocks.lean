import Mathlib.Data.List.Infix
import PgStatCh.Export.ArrowFields
import PgStatCh.Export.Otlp
import PgStatCh.Export.Outcome
import PgStatCh.Lib.Greedy

/-!
# Export.ArrowBlocks — a batch as a sequence of Arrow blocks

`ExportEventsAsArrowInternal` once more, with the blocks that it builds. A block is sent as soon
as its estimated size has reached the limit, so the blocks of a batch are its greedy chunks, up to
the one with which an append, `Finish` or the sending fails.
-/

namespace PgStatCh

open Lib Prog StatsExporter

/-! ## The loop -/

/-- The worker's state, and the blocks it has sent. -/
structure ArrowState (ε : Type) where
  base : ExportState ε
  /-- history: the blocks that were handed to `SendArrowBatch` -/
  blocks : List Block := []

abbrev ArrowM (ε : Type) := EStateM Exit (ArrowState ε)

namespace Arrow

/-- What the blocks are built with, and where a failure strikes. -/
structure Config where
  /-- `psch_extra_attributes` -/
  extraAttributes : Option (List UInt8) := none
  /-- `PG_STAT_CH_VERSION` -/
  version : Option (List UInt8) := none
  /-- `psch_otel_max_block_bytes` -/
  otelMaxBlockBytes : ℕ := 3 * 1024 * 1024
  /-- after how many appends event `i` fails -/
  rowCut : ℕ → ℕ := fun _ => 0
  /-- after how many arrays block `j` fails -/
  finishCut : ℕ → ℕ := fun _ => 0

/-- `max_block_bytes`. -/
def Config.maxBlockBytes (cfg : Config) : ℕ := max 65536 cfg.otelMaxBlockBytes

/-- The builder after `Init`. -/
def Config.init (cfg : Config) : ArrowImpl := ArrowImpl.init cfg.extraAttributes cfg.version

/-- `FinishResult`. -/
structure FinishResult where
  ipcBuffer : Option Block := none
  numRows : ℕ := 0

variable {ε : Type} [StatsExporter ε] (plan : Plan) (cfg : Config)

/-- A part that does not touch the blocks. -/
def lift {α : Type} (x : ExportM ε α) : ArrowM ε α := fun s =>
  match x s.base with
  | .ok a t => .ok a { s with base := t }
  | .error e t => .error e { s with base := t }

/-- `builder.Append(event)`. -/
def append (i : ℕ) (ev : PschEvent) (b : ArrowImpl) : ArrowM ε (ArrowImpl × Bool) :=
  match plan (.row i) with
  | .ok => pure (b.append ev, true)
  | .fails _ => pure (b.appendSome (cfg.rowCut i) ev, false)
  | .throws e => throw (.exception e)
  | .raises => throw .error

/-- `builder.Finish()`. -/
def finish (b : ArrowImpl) : ArrowM ε (ArrowImpl × FinishResult) := do
  if b.numRows = 0 then pure (b, { numRows := b.numRows })
  else
    let s ← get
    match plan (.finish s.base.sent) with
    | .ok => pure (b.finish.1, ⟨some b.finish.2, b.numRows⟩)
    | .fails _ => pure (b.finishSome (cfg.finishCut s.base.sent), {})
    | .throws e => throw (.exception e)
    | .raises => throw .error

/-- `flush_builder`: what it adds to `total_exported`, unless it fails. -/
def flushBuilder (b : ArrowImpl) : ArrowM ε (ArrowImpl × Option ℕ) := do
  let (b', result) ← finish plan cfg b
  match result.ipcBuffer with
  | none => pure (b', none)
  | some block =>
    if result.numRows = 0 then pure (b', none)
    else
      modify fun s => { s with blocks := s.blocks ++ [block] }
      if ← lift (sendArrowBatch plan b.rows) then pure (b', some result.numRows)
      else pure (b', none)

/-- The loop over the events, from event `i` on: the builder at its end, `total_exported` and
`export_failed`. -/
def exportRows : ℕ → List PschEvent → ArrowImpl → ℕ → ArrowM ε (ArrowImpl × ℕ × Bool)
  | _, [], b, total => pure (b, total, false)
  | i, ev :: rest, b, total => do
    let (b, appended) ← append plan cfg i ev b
    if appended then
      if cfg.maxBlockBytes ≤ b.estimatedBytes then
        match ← flushBuilder plan cfg b with
        | (b, some n) =>
          let s ← get
          lift (plan.run (.reset s.base.sent))
          exportRows (i + 1) rest b.reset (total + n)
        | (b, none) => pure (b, total, true)
      else exportRows (i + 1) rest b total
    else pure (b, total, true)

/-- What is left in the builder after the loop. -/
def flushRest (b : ArrowImpl) (total : ℕ) (failed : Bool) : ArrowM ε (ℕ × Bool) := do
  if failed = false ∧ 0 < b.numRows then
    match ← flushBuilder plan cfg b with
    | (_, some n) => pure (total + n, false)
    | (_, none) => pure (total, true)
  else pure (total, failed)

/-- The counting at the end. -/
def settle (total : ℕ) (failed : Bool) : ArrowM ε ℕ := do
  if failed then
    lift (recordExporterFailure "Arrow batch build/send failed")
    pure total
  else if 0 < total then
    lift (addExported total)
    pure total
  else pure total

def exportEventsAsArrowInternal (events : List PschEvent) : ArrowM ε ℕ := do
  match ← lift (plan.call .arrowInit) with
  | some _ =>
    lift (plan.log .arrowInitFailed)
    lift (recordExporterFailure "Arrow batch builder init failed")
    pure 0
  | none =>
    let (b, total, failed) ← exportRows plan cfg 0 events cfg.init 0
    let (total, failed) ← flushRest plan cfg b total failed
    settle total failed

/-! ## The rules -/

theorem wp_lift {ε α : Type} {x : ExportM ε α} {Q : α → ArrowState ε → Prop}
    {E : Exit → ArrowState ε → Prop} {s : ArrowState ε} :
    wp (lift x) Q E s =
      wp x (fun a t => Q a { s with base := t }) (fun e t => E e { s with base := t }) s.base := by
  simp only [wp, lift]
  cases x s.base <;> rfl

section Sending

variable {plan : Plan} {s s' : ExportState OtlpExporter} {rows : List PschEvent}

/-- The block that was handed to the client is not acknowledged. -/
structure NotAcknowledged (plan : Plan) (s s' : ExportState OtlpExporter) : Prop where
  stub : s'.exporter.stub = s.exporter.stub
  acked : s'.acked = s.acked
  failed : s.exporter.stub = true → plan (.send s.sent) ≠ .ok

/-- That is written about, and counted. -/
theorem NotAcknowledged.wp_logAndCount (h : NotAcknowledged plan s s') (l : LogStatement)
    (m : String) :
    wp (do plan.log l; OtlpExporter.countFailure m)
      (fun ok s'' => ok = false ∧ NotAcknowledged plan s s'')
      (fun _ s'' => NotAcknowledged plan s s'') s' := by
  rw [wp_bind]
  exact wp_log (fun _ => ⟨rfl, h.stub, h.acked, h.failed⟩) fun _ => h

/-- `SendArrowBatch` of a block that is not empty: it is acknowledged, or the sending failed. -/
theorem wp_sendArrowBatch (hne : rows ≠ []) :
    wp (OtlpExporter.sendArrowBatch plan rows)
      (fun ok s' => ok = true ∧ s'.exporter.stub = s.exporter.stub ∧ s'.acked = s.acked ++ [rows] ∧
          s'.sent = s.sent + 1 ∨
        ok = false ∧ NotAcknowledged plan s s')
      (fun _ s' => NotAcknowledged plan s s') s := by
  unfold OtlpExporter.sendArrowBatch
  simp only [wp_bind, wp_get]
  split
  · next hoff =>
    refine Or.inr ⟨rfl, rfl, rfl, fun hstub => ?_⟩
    rcases hoff with hoff | hempty
    · rw [hstub] at hoff
      cases hoff
    · exact absurd hempty hne
  · have hcount : ∀ {s' l m}, NotAcknowledged plan s s' →
        wp (do plan.log l; OtlpExporter.countFailure m)
          (fun ok s' => ok = true ∧ s'.exporter.stub = s.exporter.stub ∧
              s'.acked = s.acked ++ [rows] ∧ s'.sent = s.sent + 1 ∨
            ok = false ∧ NotAcknowledged plan s s')
          (fun _ s' => NotAcknowledged plan s s') s' := fun h =>
      wp_mono (h.wp_logAndCount _ _) (fun _ _ => Or.inr) fun _ _ => id
    refine wp_catching (M := fun _ s' => NotAcknowledged plan s s') ?_ (fun _ _ => hcount)
      fun _ => id
    rw [wp_bind]
    refine wp_send (fun _ => ?_) (fun m hm => ?_) fun e he => ?_
    · exact Or.inl ⟨rfl, rfl, rfl, rfl⟩
    · exact hcount ⟨rfl, rfl, fun _ hok => by rw [hm] at hok; cases hok⟩
    · refine ⟨rfl, rfl, fun _ hok => ?_⟩
      rw [Plan.exit, hok] at he
      cases he

end Sending

/-! ## What has been sent -/

variable {plan : Plan} {cfg : Config} {s₀ s : ArrowState OtlpExporter} {b : ArrowImpl}
  {pre cs : List (List PschEvent)} {events acc : List PschEvent} {total : ℕ}

/-- The builder after the appends of these events. -/
def Config.built (cfg : Config) (rows : List PschEvent) : ArrowImpl :=
  ArrowImpl.built cfg.extraAttributes cfg.version rows

/-- The block of these events. -/
def Config.blockOf (cfg : Config) (rows : List PschEvent) : Block :=
  ArrowImpl.blockOf cfg.extraAttributes cfg.version rows

/-- The estimated size of the block of these events. -/
def Config.estimate (cfg : Config) (rows : List PschEvent) : ℕ :=
  ArrowImpl.blockEstimate cfg.extraAttributes cfg.version rows

/-- The block of these events has reached the limit. -/
def Config.full (cfg : Config) (rows : List PschEvent) : Bool :=
  decide (cfg.maxBlockBytes ≤ cfg.estimate rows)

/-- The blocks that the events make. -/
def Config.chunks (cfg : Config) (events : List PschEvent) : List (List PschEvent) :=
  greedy cfg.full events

theorem full_nil (cfg : Config) : cfg.full [] = false := by
  have hestimate : cfg.estimate [] = 1024 := rfl
  have hlimit : 65536 ≤ cfg.maxBlockBytes := Nat.le_max_left _ _
  rw [Config.full, decide_eq_false_iff_not, hestimate]
  omega

theorem built_append (rows : List PschEvent) (ev : PschEvent) :
    (cfg.built rows).append ev = cfg.built (rows ++ [ev]) :=
  (List.foldl_concat ..).symm

/-- No append, no `Finish` and no sending of the batch fails. -/
structure Smooth (plan : Plan) (cfg : Config) (events : List PschEvent)
    (s : ArrowState OtlpExporter) : Prop where
  stub : s.base.exporter.stub = true
  init : plan .arrowInit = .ok
  rows : ∀ i < events.length, plan (.row i) = .ok
  finish : ∀ j < (cfg.chunks events).length, plan (.finish (s.base.sent + j)) = .ok
  send : ∀ j < (cfg.chunks events).length, plan (.send (s.base.sent + j)) = .ok
  reset : ∀ j ≤ (cfg.chunks events).length, (plan (.reset (s.base.sent + j))).exit = none

/-- Since `s₀` the blocks of `sent` were sent, and those of `accepted` acknowledged. -/
structure Sent (cfg : Config) (s₀ s : ArrowState OtlpExporter)
    (sent accepted : List (List PschEvent)) : Prop where
  blocks : s.blocks = s₀.blocks ++ sent.map cfg.blockOf
  acked : s.base.acked = s₀.base.acked ++ accepted
  stub : s.base.exporter.stub = s₀.base.exporter.stub

/-- Between two events: `acc` is in the builder. -/
structure Filling (cfg : Config) (s₀ s : ArrowState OtlpExporter) (pre : List (List PschEvent))
    (acc : List PschEvent) (b : ArrowImpl) (total : ℕ) : Prop extends Sent cfg s₀ s pre pre where
  builder : b = cfg.built acc
  total : total = pre.flatten.length
  count : s.base.sent = s₀.base.sent + pre.length

/-- After `pre`, some of the blocks `cs` were sent before something failed: all that were sent
were acknowledged, or all but the last. -/
structure Stopped (plan : Plan) (cfg : Config) (events : List PschEvent)
    (s₀ s : ArrowState OtlpExporter) (pre cs : List (List PschEvent)) (total : ℕ) : Prop where
  failed : ¬ Smooth plan cfg events s₀
  sent : ∃ sent accepted, sent <+: cs ∧ (sent = accepted ∨ ∃ c, sent = accepted ++ [c]) ∧
    Sent cfg s₀ s (pre ++ sent) (pre ++ accepted) ∧ total = (pre ++ accepted).flatten.length

/-- Nothing more was sent. -/
theorem Filling.stopped (h : Filling cfg s₀ s pre acc b total) (hfailed : ¬ Smooth plan cfg events s₀)
    (cs : List (List PschEvent)) : Stopped plan cfg events s₀ s pre cs total := by
  refine ⟨hfailed, [], [], List.nil_prefix, Or.inl rfl, ?_, ?_⟩
  · rw [List.append_nil]
    exact h.toSent
  · rw [List.append_nil]
    exact h.total

/-- The first of the blocks was acknowledged before the others. -/
theorem Stopped.cons {c : List PschEvent}
    (h : Stopped plan cfg events s₀ s (pre ++ [c]) cs total) :
    Stopped plan cfg events s₀ s pre (c :: cs) total := by
  obtain ⟨hfailed, sent, accepted, hsent, hlast, h, htotal⟩ := h
  refine ⟨hfailed, c :: sent, c :: accepted, (List.prefix_cons_inj c).mpr hsent, ?_, ?_, ?_⟩
  · rcases hlast with rfl | ⟨d, rfl⟩
    · exact Or.inl rfl
    · exact Or.inr ⟨d, rfl⟩
  · rwa [List.append_cons pre c sent, List.append_cons pre c accepted]
  · rwa [List.append_cons pre c accepted]

/-- A block is sent, and acknowledged, or something fails. -/
theorem wp_flushBuilder (hne : acc ≠ []) (h : Filling cfg s₀ s pre acc b total)
    (hcs : pre ++ acc :: cs = cfg.chunks events) :
    wp (flushBuilder plan cfg b)
      (fun r s' => r.2 = some acc.length ∧
          Filling cfg s₀ s' (pre ++ [acc]) [] r.1.reset (total + acc.length) ∨
        r.2 = none ∧ Stopped plan cfg events s₀ s' pre (acc :: cs) total)
      (fun _ s' => Stopped plan cfg events s₀ s' pre (acc :: cs) total) s := by
  have hbuilt := ArrowImpl.built_eq cfg.extraAttributes cfg.version acc
  have hrows : b.rows = acc := by
    rw [h.builder, Config.built, hbuilt]
  have hcount : b.numRows = acc.length := by
    rw [h.builder, Config.built, hbuilt]
  have hpos : b.numRows ≠ 0 := by
    rw [hcount]
    exact fun h0 => hne (List.length_eq_zero_iff.mp h0)
  have hblock : b.finish.2 = cfg.blockOf acc := by
    rw [h.builder]
    rfl
  have hreset : b.finish.1.reset = cfg.init := by
    rw [h.builder]
    exact ArrowImpl.reset_finish _ _ _
  have hlt : pre.length < (cfg.chunks events).length := by
    rw [← hcs, List.length_append, List.length_cons]
    omega
  unfold flushBuilder finish
  rw [wp_bind, if_neg hpos, wp_bind, wp_get]
  split
  · -- the block is finished
    simp only [wp_pure]
    rw [if_neg hpos]
    simp only [wp_bind, wp_modify, wp_lift, hrows]
    have hblocks : s.blocks ++ [b.finish.2] =
        s₀.blocks ++ (pre ++ [acc]).map cfg.blockOf := by
      rw [h.blocks, hblock, List.map_append, List.append_assoc]
      rfl
    have hstopped : ∀ {t : ExportState OtlpExporter}, NotAcknowledged plan s.base t →
        Stopped plan cfg events s₀ ⟨t, s.blocks ++ [b.finish.2]⟩ pre (acc :: cs) total := by
      intro t ht
      refine ⟨fun hsmooth => ?_, [acc], [], ⟨cs, rfl⟩, Or.inr ⟨acc, rfl⟩,
        ⟨hblocks, ?_, ht.stub.trans h.stub⟩, ?_⟩
      · refine ht.failed (h.stub.trans hsmooth.stub) ?_
        rw [h.count]
        exact hsmooth.send _ hlt
      · rw [ht.acked, h.acked, List.append_nil]
      · rw [List.append_nil]
        exact h.total
    refine wp_mono (wp_sendArrowBatch hne) ?_ fun _ _ => hstopped
    rintro ok t (⟨rfl, hstub, hacked, hsent⟩ | ⟨rfl, ht⟩)
    · refine Or.inl ⟨congrArg some hcount, ⟨hblocks, ?_, hstub.trans h.stub⟩, hreset, ?_, ?_⟩
      · rw [hacked, h.acked, List.append_assoc]
      · rw [h.total, List.flatten_append, List.flatten_singleton, List.length_append]
      · rw [hsent, h.count, List.length_append, List.length_singleton, Nat.add_assoc]
    · exact Or.inr ⟨rfl, hstopped ht⟩
  · next m hm =>
    refine Or.inr ⟨rfl, h.stopped (fun hsmooth => ?_) _⟩
    rw [h.count, hsmooth.finish _ hlt] at hm
    cases hm
  · next e he =>
    refine h.stopped (fun hsmooth => ?_) _
    rw [h.count, hsmooth.finish _ hlt] at he
    cases he
  · next he =>
    refine h.stopped (fun hsmooth => ?_) _
    rw [h.count, hsmooth.finish _ hlt] at he
    cases he

theorem Filling.append (h : Filling cfg s₀ s pre acc b total) (ev : PschEvent) :
    Filling cfg s₀ s pre (acc ++ [ev]) (b.append ev) total := by
  refine ⟨h.toSent, ?_, h.total, h.count⟩
  rw [h.builder, built_append]

theorem Filling.full_iff (h : Filling cfg s₀ s pre acc b total) :
    cfg.maxBlockBytes ≤ b.estimatedBytes ↔ cfg.full acc = true := by
  rw [Config.full, decide_eq_true_iff, h.builder, Config.built, ArrowImpl.built_eq]
  rfl

/-- The events make the greedy chunks, until something fails. -/
theorem wp_exportRows (i : ℕ) (rest : List PschEvent) (hroom : cfg.full acc = false)
    (h : Filling cfg s₀ s pre acc b total) (hi : i + rest.length = events.length)
    (hcs : pre ++ greedyFrom cfg.full acc rest = cfg.chunks events) :
    wp (exportRows plan cfg i rest b total)
      (fun r s' =>
        r.2.2 = false ∧ (∃ mid acc', Filling cfg s₀ s' (pre ++ mid) acc' r.1 r.2.1 ∧
          mid ++ greedyFrom cfg.full acc' [] = greedyFrom cfg.full acc rest) ∨
        r.2.2 = true ∧ Stopped plan cfg events s₀ s' pre (greedyFrom cfg.full acc rest) r.2.1)
      (fun _ s' => ∃ total', Stopped plan cfg events s₀ s' pre (greedyFrom cfg.full acc rest) total')
      s := by
  induction rest generalizing i acc b s pre total with
  | nil => exact Or.inl ⟨rfl, [], acc, by rwa [List.append_nil], rfl⟩
  | cons ev rest ih =>
    have hlt : i < events.length := by
      rw [← hi, List.length_cons]
      omega
    have hi' : i + 1 + rest.length = events.length := by
      rw [← hi, List.length_cons]
      omega
    rw [greedyFrom_cons_of_not_full hroom] at hcs ⊢
    unfold exportRows append
    rw [wp_bind]
    split
    · rw [wp_pure]
      have h₁ := h.append ev
      simp only [if_true]
      cases hfull : cfg.full (acc ++ [ev]) with
      | false =>
        have hsmall : ¬ cfg.maxBlockBytes ≤ (b.append ev).estimatedBytes := by
          rw [h₁.full_iff, hfull]
          exact Bool.false_ne_true
        rw [if_neg hsmall]
        exact ih (i + 1) hfull h₁ hi' hcs
      | true =>
        have hne : acc ++ [ev] ≠ [] := List.append_ne_nil_of_right_ne_nil _ (List.cons_ne_nil _ _)
        rw [greedyFrom_of_full (full_nil cfg) hne hfull] at hcs ⊢
        rw [if_pos (h₁.full_iff.mpr hfull), wp_bind]
        refine wp_mono (wp_flushBuilder hne h₁ hcs) ?_ fun _ s₂ h₂ => ⟨_, h₂⟩
        rw [List.append_cons] at hcs
        rintro ⟨b₂, n⟩ s₂ (⟨rfl, h₂⟩ | ⟨rfl, h₂⟩)
        · -- the block was acknowledged, and the builder starts over
          simp only [wp_bind, wp_get, wp_lift]
          refine wp_run (fun _ => ?_) fun e he => ?_
          · refine wp_mono (ih (i + 1) (full_nil cfg) h₂ hi' hcs) ?_ ?_
            · rintro r s₃ (⟨hok, mid, acc', h₃, heq⟩ | ⟨hfailed, h₃⟩)
              · refine Or.inl ⟨hok, (acc ++ [ev]) :: mid, acc', by rwa [List.append_cons], ?_⟩
                rw [List.cons_append, heq]
                rfl
              · exact Or.inr ⟨hfailed, h₃.cons⟩
            · rintro e s₃ ⟨total', h₃⟩
              exact ⟨total', h₃.cons⟩
          · refine ⟨_, (h₂.stopped (fun hsmooth => ?_) _).cons⟩
            have hle : (pre ++ [acc ++ [ev]]).length ≤ (cfg.chunks events).length := by
              rw [← hcs]
              exact (List.prefix_append _ _).length_le
            rw [h₂.count, Plan.exit, hsmooth.reset _ hle] at he
            cases he
        · exact Or.inr ⟨rfl, h₂⟩
    · next m hm =>
      refine Or.inr ⟨rfl, h.stopped (fun hsmooth => ?_) _⟩
      rw [hsmooth.rows i hlt] at hm
      cases hm
    · next e he =>
      refine ⟨_, h.stopped (fun hsmooth => ?_) _⟩
      rw [hsmooth.rows i hlt] at he
      cases he
    · next he =>
      refine ⟨_, h.stopped (fun hsmooth => ?_) _⟩
      rw [hsmooth.rows i hlt] at he
      cases he

/-! ## The partition -/

/-- The blocks `sent` of the batch were sent, and those of `accepted` acknowledged: blocks of
consecutive events, not empty and filled up to the limit, of which at most the last was not
acknowledged. -/
structure Partition (cfg : Config) (events : List PschEvent) (s s' : ArrowState OtlpExporter)
    (sent accepted : List (List PschEvent)) : Prop where
  blocks : ∃ new, s'.blocks = s.blocks ++ new ∧
    List.Forall₂ (fun rows b => b.Holds cfg.extraAttributes cfg.version rows) sent new
  acked : s'.base.acked = s.base.acked ++ accepted
  last : sent = accepted ∨ ∃ c, sent = accepted ++ [c]
  nonempty : ∀ c ∈ sent, c ≠ []
  inOrder : sent.flatten <+: events
  full : ∀ c ∈ sent.dropLast, cfg.maxBlockBytes ≤ cfg.estimate c
  room : ∀ c ∈ sent, cfg.estimate c.dropLast < cfg.maxBlockBytes

theorem Sent.partition {sent accepted : List (List PschEvent)}
    (h : Sent cfg s₀ s sent accepted) (hsent : sent <+: cfg.chunks events)
    (hlast : sent = accepted ∨ ∃ c, sent = accepted ++ [c]) :
    Partition cfg events s₀ s sent accepted := by
  have hmem : ∀ c ∈ sent, c ≠ [] ∧ cfg.full c.dropLast = false := fun c hc =>
    mem_greedy (full_nil cfg) (hsent.subset hc)
  refine ⟨⟨_, h.blocks, ?_⟩, h.acked, hlast, fun c hc => (hmem c hc).1, ?_, fun c hc => ?_,
    fun c hc => ?_⟩
  · rw [List.forall₂_map_right_iff]
    exact List.forall₂_same.mpr fun c _ => ArrowImpl.blockOf_holds _ _ c
  · have hflatten : (cfg.chunks events).flatten = events := flatten_greedy events
    rw [← hflatten]
    exact hsent.flatten
  · exact of_decide_eq_true (full_of_mem_dropLast_of_isPrefix hsent hc)
  · exact Nat.lt_of_not_le (of_decide_eq_false (hmem c hc).2)

/-- How a batch ends: what was sent is a partition of its beginning, or of all of it when nothing
fails, and `total` counts the rows that were acknowledged. -/
def Done (plan : Plan) (cfg : Config) (events : List PschEvent) (s s' : ArrowState OtlpExporter)
    (total : ℕ) : Prop :=
  ∃ sent accepted, Partition cfg events s s' sent accepted ∧ total = accepted.flatten.length ∧
    (Smooth plan cfg events s → accepted = sent ∧ sent.flatten = events)

theorem Stopped.done (h : Stopped plan cfg events s₀ s pre cs total) (heq : pre ++ cs = cfg.chunks events) :
    Done plan cfg events s₀ s total := by
  obtain ⟨hfailed, sent, accepted, hsent, hlast, h, htotal⟩ := h
  have hprefix : pre ++ sent <+: cfg.chunks events := by
    rw [← heq]
    exact (List.prefix_append_right_inj pre).mpr hsent
  refine ⟨_, _, h.partition hprefix ?_, htotal, fun hsmooth => absurd hsmooth hfailed⟩
  rcases hlast with rfl | ⟨c, rfl⟩
  · exact Or.inl rfl
  · exact Or.inr ⟨c, (List.append_assoc ..).symm⟩

/-- Everything was acknowledged. -/
theorem Sent.done (h : Sent cfg s₀ s (cfg.chunks events) (cfg.chunks events))
    (htotal : total = (cfg.chunks events).flatten.length) : Done plan cfg events s₀ s total :=
  ⟨_, _, h.partition (List.prefix_refl _) (Or.inl rfl), htotal,
    fun _ => ⟨rfl, flatten_greedy events⟩⟩

/-- What is left after the loop is sent. -/
theorem wp_flushRest (h : Filling cfg s₀ s pre acc b total)
    (heq : pre ++ greedyFrom cfg.full acc [] = cfg.chunks events) :
    wp (flushRest plan cfg b total false) (fun r s' => Done plan cfg events s₀ s' r.1)
      (fun _ s' => ¬ Smooth plan cfg events s₀ ∧ Done plan cfg events s₀ s' total) s := by
  have hrows : b.numRows = acc.length := by
    rw [h.builder, Config.built, ArrowImpl.built_eq]
  unfold flushRest
  rcases eq_or_ne acc [] with rfl | hne
  · rw [if_neg (fun hpos => absurd hrows (Nat.ne_of_gt hpos.2))]
    rw [greedyFrom, List.append_nil] at heq
    subst heq
    exact h.toSent.done h.total
  · rw [if_pos ⟨rfl, hrows ▸ List.length_pos_of_ne_nil hne⟩, wp_bind]
    rw [greedyFrom_nil hne] at heq
    refine wp_mono (wp_flushBuilder hne h heq) ?_ fun _ s' h' => ?_
    · rintro ⟨b', n⟩ s' (⟨rfl, h'⟩ | ⟨rfl, h'⟩)
      · have hsent := h'.toSent
        rw [heq] at hsent
        refine hsent.done ?_
        rw [← heq]
        exact h'.total
      · exact h'.done heq
    · exact ⟨h'.failed, h'.done heq⟩

theorem Done.of_eq {s' t : ArrowState OtlpExporter}
    (h : Done plan cfg events s s' total) (hblocks : t.blocks = s'.blocks)
    (hacked : t.base.acked = s'.base.acked) : Done plan cfg events s t total := by
  obtain ⟨sent, accepted, ⟨⟨new, hnew, hholds⟩, ha, hlast, hne, horder, hfull, hroom⟩, htotal,
    hsmooth⟩ := h
  exact ⟨sent, accepted, ⟨⟨new, hblocks.trans hnew, hholds⟩, hacked.trans ha, hlast, hne, horder,
    hfull, hroom⟩, htotal, hsmooth⟩

theorem wp_settle (failed : Bool)
    {E : Exit → ArrowState OtlpExporter → Prop} (h : Done plan cfg events s₀ s total) :
    wp (settle total failed) (fun ret s' => Done plan cfg events s₀ s' ret) E s := by
  unfold settle
  split
  · exact h.of_eq rfl rfl
  · split
    · exact h.of_eq rfl rfl
    · exact h

/-- The blocks that are sent hold consecutive events from the first one on, each block its own
rows and no others, all columns of the schema with a value for every row, and under each name what
the event says. A block is sent when it has reached the limit and not before, except for the last.
The number returned is that of the rows in acknowledged blocks, which are all events when nothing
fails; what was sent before an exception or an ERROR is a partition as well. -/
theorem blocks_partition_events (plan : Plan) (cfg : Config) (events : List PschEvent)
    (s : ArrowState OtlpExporter) :
    wp (exportEventsAsArrowInternal plan cfg events) (fun ret s' => Done plan cfg events s s' ret)
      (fun _ s' => ¬ Smooth plan cfg events s ∧ ∃ total, Done plan cfg events s s' total) s := by
  have hstart : Filling cfg s s [] [] cfg.init 0 :=
    ⟨⟨(List.append_nil _).symm, (List.append_nil _).symm, rfl⟩, rfl, rfl, rfl⟩
  have hnothing : Stopped plan cfg events s s [] (cfg.chunks events) 0 → Done plan cfg events s s 0 :=
    fun h => h.done rfl
  unfold exportEventsAsArrowInternal
  simp only [wp_bind, wp_lift]
  refine wp_call (fun _ => ?_) (fun m hm => ?_) fun e he => ?_
  · simp only [wp_bind]
    refine wp_mono (wp_exportRows 0 events (full_nil cfg) hstart (Nat.zero_add _) rfl) ?_ ?_
    · rintro ⟨b, total, failed⟩ s₁ (⟨rfl, mid, acc, h₁, heq⟩ | ⟨rfl, h₁⟩)
      · rw [wp_bind]
        exact wp_mono (wp_flushRest h₁ heq) (fun r s₂ h₂ => wp_settle r.2 h₂)
          fun e s₂ h₂ => ⟨h₂.1, _, h₂.2⟩
      · -- the loop has failed, and what is in the builder is given up
        exact wp_settle true (h₁.done rfl)
    · rintro e s₁ ⟨total, h₁⟩
      exact ⟨h₁.failed, total, h₁.done rfl⟩
  · have hfailed : ¬ Smooth plan cfg events s := fun hsmooth => by
      rw [hsmooth.init] at hm
      cases hm
    have hdone := hnothing (hstart.stopped hfailed _)
    simp only [wp_bind, wp_lift]
    exact wp_log (fun _ => hdone.of_eq rfl rfl) fun _ => ⟨hfailed, 0, hdone.of_eq rfl rfl⟩
  · have hfailed : ¬ Smooth plan cfg events s := fun hsmooth => by
      rw [Plan.exit, hsmooth.init] at he
      cases he
    exact ⟨hfailed, 0, hnothing (hstart.stopped hfailed _)⟩

/-- A failed statement, with texts as long as they can be. -/
def longRow (i : ℕ) : PschEvent where
  fixed := { queryid := i.toUInt64 }
  queryLen := 2047
  query := fun _ => 120
  errMessageLen := 2047
  errMessage := fun _ => 33

/-- The smallest blocks that can be set take 15 of these. -/
def fortyRows : List PschEvent := (List.range 40).map longRow

def smallBlocks : Config := { otelMaxBlockBytes := 65536 }

def connectedState : ArrowState OtlpExporter where
  base := { exporter := { stub := true, version := utf8 "0.1", hostname := utf8 "db1" } }

/-- The collector takes the first block and rejects the second. -/
def rejectSecond : Plan
  | .send 1 => .fails "unavailable"
  | _ => .ok

/-- Two blocks are sent, and the events of the first one are those that count. -/
theorem blocks_partition_events_rejected :
    ∃ s', exportEventsAsArrowInternal rejectSecond smallBlocks fortyRows connectedState = .ok 15 s' ∧
      s'.blocks.length = 2 ∧ s'.base.acked.flatten = fortyRows.take 15 := by
  have hrun : returns (exportEventsAsArrowInternal rejectSecond smallBlocks fortyRows)
      (fun s => s.blocks.length) connectedState = some (15, 2) := by
    decide +kernel
  obtain ⟨s', h, hblocks⟩ := ok_of_returns hrun
  have hwp := blocks_partition_events rejectSecond smallBlocks fortyRows connectedState
  obtain ⟨sent, accepted, hpartition, htotal, -⟩ := wp_of_ok
    (Q := fun ret s' => Done rejectSecond smallBlocks fortyRows connectedState s' ret) h hwp
  refine ⟨s', h, hblocks, ?_⟩
  have hprefix : accepted.flatten <+: fortyRows := by
    refine List.IsPrefix.trans ?_ hpartition.inOrder
    rcases hpartition.last with rfl | ⟨c, rfl⟩
    · exact List.prefix_refl _
    · rw [List.flatten_append]
      exact List.prefix_append _ _
  rw [hpartition.acked, htotal]
  exact List.prefix_iff_eq_take.mp hprefix

end Arrow

end PgStatCh
