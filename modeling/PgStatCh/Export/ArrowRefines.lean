import PgStatCh.Export.ArrowBlocks
import PgStatCh.Lib.ProgRel

/-!
# Export.ArrowRefines — Arrow export with and without its blocks

The export of a batch as Arrow blocks does what the coarser `exportEventsAsArrowInternal` does,
with any exporter and under every plan: the builder of that one is the number of bytes that the
real builder would estimate, beside the events in it.
-/

namespace PgStatCh

open Lib Prog StatsExporter

namespace Arrow

variable {ε : Type} {plan : Plan} {cfg : Config} {settings : Settings} {s : ArrowState ε}
  {acc : List PschEvent}

/-- The coarser builder after the appends of these events. -/
def Config.coarse (cfg : Config) (rows : List PschEvent) : ArrowBatchBuilder :=
  ⟨rows, cfg.estimate rows⟩

/-- The bytes that every row of a block carries. -/
def Config.extraBytes (cfg : Config) : ℕ :=
  ArrowImpl.configBytes cfg.extraAttributes cfg.version

/-- The coarser settings for these blocks. -/
structure Config.Agrees (cfg : Config) (settings : Settings) : Prop where
  otelMaxBlockBytes : settings.otelMaxBlockBytes = cfg.otelMaxBlockBytes
  extraBytes : settings.extraBytes = cfg.extraBytes

theorem coarse_append (ev : PschEvent) :
    (cfg.coarse acc).append cfg.extraBytes ev = cfg.coarse (acc ++ [ev]) := by
  simp [Config.coarse, ArrowBatchBuilder.append, Config.estimate, ArrowImpl.blockEstimate,
    Config.extraBytes, Nat.add_assoc]

theorem numRows_built : (cfg.built acc).numRows = acc.length := by
  rw [Config.built, ArrowImpl.built_eq]

theorem rows_built : (cfg.built acc).rows = acc := by
  rw [Config.built, ArrowImpl.built_eq]

theorem estimatedBytes_built : (cfg.built acc).estimatedBytes = cfg.estimate acc := by
  rw [Config.built, ArrowImpl.built_eq]
  rfl

/-- Both return the same, from one state to another. -/
def Same {α : Type} (a b : α) (s : ArrowState ε) (t : ExportState ε) : Prop := a = b ∧ t = s.base

theorem rel_lift {α : Type} (x : ExportM ε α) :
    rel (lift x) x Same (fun _ s' t' => t' = s'.base) s s.base := by
  unfold rel
  rw [wp_lift]
  simp only [wp]
  cases x s.base with
  | ok a t => exact ⟨rfl, rfl⟩
  | error e t => exact ⟨rfl, rfl⟩

/-- `Finish` is asked for by both. -/
theorem rel_finish (hne : acc ≠ []) :
    rel (finish plan cfg (cfg.built acc)) (plan.call (.finish s.base.sent))
      (fun r m s' t' => s' = s ∧ t' = s.base ∧
        (m = none ∧ r = ((cfg.built acc).finish.1, ⟨some (cfg.blockOf acc), acc.length⟩) ∨
          (∃ message, m = some message) ∧ r.2.ipcBuffer = none))
      (fun _ s' t' => t' = s'.base) s s.base := by
  have hpos : (cfg.built acc).numRows ≠ 0 := by
    rw [numRows_built]
    exact fun h0 => hne (List.length_eq_zero_iff.mp h0)
  unfold finish Plan.call
  rw [if_neg hpos, numRows_built]
  apply rel_get_left
  cases plan (.finish s.base.sent) with
  | ok => exact ⟨rfl, rfl, Or.inl ⟨rfl, rfl⟩⟩
  | fails m => exact ⟨rfl, rfl, Or.inr ⟨⟨m, rfl⟩, rfl⟩⟩
  | throws e => exact ⟨rfl, rfl⟩
  | raises => exact ⟨rfl, rfl⟩

variable [StatsExporter ε]

/-- A block is sent by both, or by neither. -/
theorem rel_flushBuilder (hne : acc ≠ []) :
    rel (flushBuilder plan cfg (cfg.built acc)) (PgStatCh.flushBuilder plan (cfg.coarse acc))
      (fun r ok s' t' => t' = s'.base ∧
        (ok = true ∧ r.2 = some acc.length ∧ r.1.reset = cfg.built [] ∨ ok = false ∧ r.2 = none))
      (fun _ s' t' => t' = s'.base) s s.base := by
  have hreset : (cfg.built acc).finish.1.reset = cfg.built [] := ArrowImpl.reset_finish _ _ _
  have hlen : acc.length ≠ 0 := fun h0 => hne (List.length_eq_zero_iff.mp h0)
  apply rel_get_right
  refine rel_bind (rel_finish hne) ?_
  rintro ⟨b', result⟩ m s' t' ⟨rfl, rfl, ⟨rfl, hr⟩ | ⟨⟨message, rfl⟩, hr⟩⟩
  · obtain ⟨rfl, rfl⟩ := Prod.mk.inj hr
    have hrows : (cfg.coarse acc).rows ≠ [] := hne
    simp only
    rw [if_neg hlen, if_neg hrows, rows_built]
    apply rel_modify_left
    refine rel_bind_left (rel_lift (sendArrowBatch plan acc)) ?_
    rintro ok _ s₁ t₁ ⟨rfl, rfl⟩
    cases ok with
    | true => exact ⟨rfl, Or.inl ⟨rfl, rfl, hreset⟩⟩
    | false => exact ⟨rfl, Or.inr ⟨rfl, rfl⟩⟩
  · simp only at hr ⊢
    rw [hr]
    exact ⟨rfl, Or.inr ⟨rfl, rfl⟩⟩

/-- The loop over the events, with `acc` in the builders. -/
theorem rel_exportRows (acc : List PschEvent) (hcfg : cfg.Agrees settings) (i : ℕ)
    (events : List PschEvent) (total : ℕ) :
    rel (exportRows plan cfg i events (cfg.built acc) total)
      (exportArrowRows plan settings i events (cfg.coarse acc) total)
      (fun r q s' t' => t' = s'.base ∧ r.2 = q.2 ∧
        (q.2.2 = false → ∃ rest, r.1 = cfg.built rest ∧ q.1 = cfg.coarse rest))
      (fun _ s' t' => t' = s'.base) s s.base := by
  induction events generalizing i acc total s with
  | nil => exact ⟨rfl, rfl, fun _ => ⟨acc, rfl, rfl⟩⟩
  | cons ev rest ih =>
    have hne : acc ++ [ev] ≠ [] := by simp
    unfold exportRows append exportArrowRows Plan.call
    cases plan (.row i) with
    | throws e => exact ⟨rfl, rfl⟩
    | raises => exact ⟨rfl, rfl⟩
    | fails m => exact ⟨rfl, rfl, fun hfailed => by cases hfailed⟩
    | ok =>
      show rel (if cfg.maxBlockBytes ≤ ((cfg.built acc).append ev).estimatedBytes then _ else _)
        (if max 65536 settings.otelMaxBlockBytes ≤
          ((cfg.coarse acc).append settings.extraBytes ev).estimatedBytes then _ else _) _ _ _ _
      rw [hcfg.otelMaxBlockBytes, hcfg.extraBytes, coarse_append, built_append,
        estimatedBytes_built]
      have hsame : max 65536 cfg.otelMaxBlockBytes ≤ (cfg.coarse (acc ++ [ev])).estimatedBytes ↔
          cfg.maxBlockBytes ≤ cfg.estimate (acc ++ [ev]) := Iff.rfl
      rw [if_congr hsame rfl rfl]
      split
      · refine rel_bind (rel_flushBuilder hne) ?_
        rintro ⟨b', n⟩ ok s₁ t₁ ⟨rfl, ⟨rfl, hn, hreset⟩ | ⟨rfl, hn⟩⟩
        · obtain rfl : n = some (acc ++ [ev]).length := hn
          apply rel_get_bind
          refine rel_bind (rel_lift (plan.run (.reset s₁.base.sent))) ?_
          rintro _ _ s₂ t₂ ⟨-, rfl⟩
          show rel (exportRows plan cfg (i + 1) rest b'.reset _) _ _ _ _ _
          rw [show b'.reset = cfg.built [] from hreset]
          exact ih [] (i + 1) _
        · obtain rfl : n = none := hn
          exact ⟨rfl, rfl, fun hfailed => by cases hfailed⟩
      · exact ih (acc ++ [ev]) (i + 1) total

theorem rel_flushRest (b : ArrowImpl) (b' : ArrowBatchBuilder) (total : ℕ) (failed : Bool)
    (h : failed = false → ∃ rest, b = cfg.built rest ∧ b' = cfg.coarse rest) :
    rel (flushRest plan cfg b total failed) (PgStatCh.flushRest plan b' total failed) Same
      (fun _ s' t' => t' = s'.base) s s.base := by
  unfold flushRest PgStatCh.flushRest
  cases failed with
  | true => exact ⟨rfl, rfl⟩
  | false =>
    obtain ⟨rest, rfl, rfl⟩ := h rfl
    rw [numRows_built]
    rcases eq_or_ne rest [] with rfl | hne
    · exact ⟨rfl, rfl⟩
    · rw [if_pos ⟨rfl, List.length_pos_iff.mpr hne⟩, if_pos ⟨rfl, hne⟩]
      refine rel_bind (rel_flushBuilder hne) ?_
      rintro ⟨b', n⟩ ok s₁ t₁ ⟨rfl, ⟨rfl, hn, -⟩ | ⟨rfl, hn⟩⟩
      · obtain rfl : n = some rest.length := hn
        exact ⟨rfl, rfl⟩
      · obtain rfl : n = none := hn
        exact ⟨rfl, rfl⟩

/-- A batch that is exported as blocks returns what the coarser model returns, throws what it
throws, and leaves the same state. -/
theorem rel_exportEventsAsArrowInternal (hcfg : cfg.Agrees settings) (events : List PschEvent) :
    rel (exportEventsAsArrowInternal plan cfg events)
      (PgStatCh.exportEventsAsArrowInternal plan settings events) Same
      (fun _ s' t' => t' = s'.base) s s.base := by
  refine rel_bind (rel_lift (plan.call .arrowInit)) ?_
  rintro r _ s₁ t₁ ⟨rfl, rfl⟩
  cases r with
  | some m =>
    refine rel_bind (rel_lift (plan.log .arrowInitFailed)) ?_
    rintro _ _ s₂ t₂ ⟨-, rfl⟩
    exact ⟨rfl, rfl⟩
  | none =>
    refine rel_bind (rel_exportRows [] hcfg 0 events 0) ?_
    rintro ⟨b, total, failed⟩ ⟨b', _, _⟩ s₂ t₂ ⟨rfl, hr, hbuilder⟩
    obtain ⟨rfl, rfl⟩ := Prod.mk.inj hr
    refine rel_bind (rel_flushRest b b' total failed hbuilder) ?_
    rintro ⟨total, failed⟩ _ s₃ t₃ ⟨rfl, rfl⟩
    show rel (settle total failed) _ _ _ _ _
    unfold settle
    cases failed with
    | true => exact ⟨rfl, rfl⟩
    | false =>
      simp only [Bool.false_eq_true, if_false]
      split
      · exact ⟨rfl, rfl⟩
      · exact ⟨rfl, rfl⟩

end Arrow

end PgStatCh
