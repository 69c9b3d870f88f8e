import PgStatCh.Lib.Stack
import PgStatCh.Tla.Rules
import PgStatCh.Hooks.Executor

/-!
# Hooks.Nesting — the nesting level, and whose start an event reports

`nesting_level` is the number of Run, Finish and tracked utility hooks on the stack,
however statements nest and fail.

The event of a statement takes `top_level` and `ts_start` from the static variables,
so it reports the last `PschExecutorStart` of the backend, whichever statement that
was for. It describes its own statement exactly if the two starts are alike
(`event_own_start_iff`); a statement whose function runs another one is reported as
nested (`outer_reported_nested`). The event of a utility statement takes both from
local variables and is always its own (`utility_own_start`).
-/

namespace PgStatCh

open Lib Tla

namespace Executor

variable {isParallelWorker : Bool} {s s' : Executor} {l : Label}

/-! ## The invariant -/

/-- How many hooks of the stack count. -/
abbrev depth (stack : List HookFrame) : ℕ := stack.countP HookFrame.nests

/-- A utility statement knows whether it is nested. -/
def FrameOk : HookFrame → List HookFrame → Prop
  | .processUtility (some u), below => u.isTopLevel = decide (depth below = 0)
  | _, _ => True

structure Inv (isParallelWorker : Bool) (s : Executor) : Prop where
  level : s.nestingLevel = if isParallelWorker then 0 else (depth s.stack : ℤ)
  /-- the static variables are those of the last start -/
  last : isParallelWorker = false → ∀ last, s.starts.getLast? = some last →
    s.currentQueryIsTopLevel = decide (last.level = 0) ∧
      (last.level = 0 → s.queryStartTs = last.now)
  frames : EveryFrame FrameOk s.stack

/-- A hook is entered that does not count. -/
theorem Inv.push (h : Inv isParallelWorker s) {f : HookFrame} (hnests : f.nests = false)
    (hf : FrameOk f s.stack) : Inv isParallelWorker { s with stack := f :: s.stack } where
  level := by
    rw [depth, List.countP_cons_of_neg (by simp [hnests])]
    exact h.level
  last := h.last
  frames := ⟨hf, h.frames⟩

/-- A hook is entered that counts. -/
theorem Inv.nest (h : Inv isParallelWorker s) {f : HookFrame} (hnests : f.nests = true)
    (hf : FrameOk f s.stack) : Inv isParallelWorker (enterNested isParallelWorker f s) where
  level := by
    cases isParallelWorker with
    | true => exact h.level
    | false =>
      have hlevel : s.nestingLevel = (depth s.stack : ℤ) := h.level
      simp [enterNested, hlevel, List.countP_cons_of_pos hnests]
  last := h.last
  frames := ⟨hf, h.frames⟩

theorem Inv.start (h : Inv isParallelWorker s) {pschEnabled : Bool} {now : Int64} {usage : Rusage} :
    Inv isParallelWorker (pschExecutorStart isParallelWorker pschEnabled now usage s) := by
  have hpush := h.push (f := .executorStart) rfl trivial
  unfold pschExecutorStart
  split
  · -- a parallel worker leaves the static variables alone
    next hworker =>
    exact ⟨hpush.level, fun hno => (by rw [hworker] at hno; cases hno), hpush.frames⟩
  · split
    · -- at the top both variables are set
      next hzero =>
      refine ⟨hpush.level, fun _ last hlast => ?_, hpush.frames⟩
      rw [List.getLast?_concat] at hlast
      cases hlast
      exact ⟨by simp [hzero], fun _ => rfl⟩
    · -- below it only the flag is, and the time stays that of an earlier start
      next hnested =>
      refine ⟨hpush.level, fun _ last hlast => ?_, hpush.frames⟩
      rw [List.getLast?_concat] at hlast
      cases hlast
      exact ⟨by simp [hnested], fun hzero => absurd hzero hnested⟩

theorem Inv.executorEnd (h : Inv isParallelWorker s) {desc : QueryDesc} {a : Measured} :
    Inv isParallelWorker (pschExecutorEnd isParallelWorker desc a s) := by
  have hpush := h.push (f := .executorEnd) rfl trivial
  unfold pschExecutorEnd
  split
  · exact hpush
  · split
    · exact hpush
    · exact ⟨hpush.level, hpush.last, hpush.frames⟩

theorem Inv.processUtility (h : Inv isParallelWorker s) {pschEnabled : Bool} {stmt : UtilityStmt}
    {queryId : UInt64} {now : Int64} {usage : Rusage} :
    Inv isParallelWorker
      (pschProcessUtility isParallelWorker pschEnabled stmt queryId now usage s) := by
  unfold pschProcessUtility
  split
  · next htrack =>
    -- a parallel worker tracks nothing
    have hworker : isParallelWorker = false := by
      by_contra hworker
      simp [shouldTrackUtility, hworker] at htrack
    subst hworker
    have hlevel : s.nestingLevel = (depth s.stack : ℤ) := h.level
    refine h.nest (f := .processUtility (some _)) rfl ?_
    simp [FrameOk, hlevel]
  · exact h.push rfl trivial

/-- A hook is left, on either way. -/
theorem Inv.leave (h : Inv isParallelWorker s) {f : HookFrame} {below : List HookFrame}
    (hstack : s.stack = f :: below) :
    Inv isParallelWorker (leave isParallelWorker f below s) where
  level := by
    have hlevel := h.level
    rw [hstack] at hlevel
    cases isParallelWorker with
    | true => exact hlevel
    | false =>
      cases hnests : f.nests with
      | true => simp [Executor.leave, hnests, hlevel, List.countP_cons_of_pos hnests]
      | false => simp [Executor.leave, hnests, hlevel]
  last := h.last
  frames := by
    have hframes := h.frames
    rw [hstack] at hframes
    exact hframes.2

theorem Inv.returnTo (h : Inv isParallelWorker s) {a : Measured} {f : HookFrame}
    {below : List HookFrame} (hstack : s.stack = f :: below) :
    Inv isParallelWorker (returnTo isParallelWorker a f below s) := by
  have hleave := h.leave hstack
  unfold Executor.returnTo
  split
  · split
    · exact hleave
    · exact ⟨hleave.level, hleave.last, hleave.frames⟩
  · exact hleave

theorem Inv.step (h : Inv isParallelWorker s) (hl : step isParallelWorker l s = some s') :
    Inv isParallelWorker s' := by
  unfold Executor.step at hl
  split at hl
  · -- an ERROR is on its way
    split at hl
    · next hstack =>
      cases hl
      have hleave := h.leave hstack
      exact ⟨hleave.level, hleave.last, hleave.frames⟩
    · cases hl
      exact ⟨h.level, h.last, h.frames⟩
    · cases hl
  · split at hl
    · cases hl
      exact h.start
    · -- `PschExecutorRun`
      cases hl
      exact h.nest rfl trivial
    · -- `PschExecutorFinish`
      cases hl
      exact h.nest rfl trivial
    · split at hl
      · cases hl
        exact h.executorEnd
      · cases hl
    · cases hl
      exact h.processUtility
    · -- the call into PostgreSQL returns
      next hstack =>
      cases hl
      exact h.returnTo hstack
    · -- it raises an ERROR
      cases hl
      exact ⟨h.level, h.last, h.frames⟩
    · cases hl

theorem inv_reachable (hs : (machine isParallelWorker).toSpec.Reachable s) :
    Inv isParallelWorker s := by
  refine Spec.Reachable.invariant ?_ ?_ hs
  · rintro s rfl
    refine ⟨by simp, fun _ last hlast => ?_, trivial⟩
    cases hlast
  · rintro s s' h ⟨l, hl⟩
    exact h.step hl

/-! ## Whose start an event reports -/

@[simp] theorem copyQueryText_fixed (found : Option (CharBuf pschMaxQueryLen × UInt16))
    (f : FixedPrefix) : (copyQueryText found f).fixed = f := by
  cases found <;> rfl

theorem buildEventFromQueryDesc_start (desc : QueryDesc) (a : Measured) (queryStartTs : Int64)
    (currentQueryIsTopLevel : Bool) (cpu : Int64 × Int64) :
    let e := buildEventFromQueryDesc desc a queryStartTs currentQueryIsTopLevel cpu
    e.fixed.topLevel = currentQueryIsTopLevel ∧ e.fixed.tsStart = queryStartTs := by
  simp only [buildEventFromQueryDesc, copyQueryText_fixed]
  cases desc.totaltime <;> cases desc.esJit <;> exact ⟨rfl, rfl⟩

/-- What `PschExecutorEnd` can add to the events. -/
theorem executorEnd_event {q : ℕ} {desc : QueryDesc} {a : Measured} {e : PschEvent}
    (hl : step isParallelWorker (.executorEnd q desc a) s = some s')
    (he : s'.events = s.events ++ [e]) :
    isParallelWorker = false ∧ e.fixed.topLevel = s.currentQueryIsTopLevel ∧
      e.fixed.tsStart = s.queryStartTs := by
  have hsame : s.events ≠ s.events ++ [e] := by simp
  simp only [step] at hl
  split at hl
  · cases hl
  · split at hl
    · cases hl
      unfold pschExecutorEnd at he
      split at he
      · exact absurd he hsame
      · next hskip =>
        -- not sampled, or built from the static variables
        split at he
        · exact absurd he hsame
        · have hbuilt := List.append_cancel_left he
          cases hbuilt
          rw [not_or, not_or, Bool.not_eq_true] at hskip
          exact ⟨hskip.2.1, buildEventFromQueryDesc_start _ _ _ _ _⟩
    · cases hl

/-- The nesting level counts the hooks that nest, and is 0 when nothing runs. The event of
a statement is about its own start exactly if the last start of the backend is like it:
both nested, or both at the top and at the same time. -/
theorem event_own_start_iff (hs : (machine isParallelWorker).toSpec.Reachable s) :
    (s.nestingLevel =
      if isParallelWorker then 0 else ((s.stack.filter HookFrame.nests).length : ℤ)) ∧
    (s.stack = [] → s.nestingLevel = 0) ∧
    ∀ q desc a s' e own, step isParallelWorker (.executorEnd q desc a) s = some s' →
      s'.events = s.events ++ [e] → s.starts[q]? = some own →
      (e.fixed.topLevel = decide (own.level = 0) ∧ (own.level = 0 → e.fixed.tsStart = own.now) ↔
        ∃ last, s.starts.getLast? = some last ∧ (last.level = 0 ↔ own.level = 0) ∧
          (own.level = 0 → last.now = own.now)) := by
  have hi := inv_reachable hs
  refine ⟨?_, fun hidle => ?_, fun q desc a s' e own hl he hown => ?_⟩
  · rw [← List.countP_eq_length_filter]
    exact hi.level
  · have hlevel := hi.level
    rw [hidle] at hlevel
    simpa using hlevel
  · obtain ⟨hleader, htop, hts⟩ := executorEnd_event hl he
    have hne : s.starts ≠ [] := by
      rintro hnil
      rw [hnil] at hown
      cases hown
    obtain ⟨last, hlast⟩ : ∃ last, s.starts.getLast? = some last :=
      ⟨_, List.getLast?_eq_some_getLast hne⟩
    -- the static variables are those of the last start
    obtain ⟨htop', hts'⟩ := hi.last hleader last hlast
    rw [htop, hts, htop', decide_eq_decide]
    constructor
    · rintro ⟨hlike, htime⟩
      exact ⟨last, hlast, hlike, fun hzero => (hts' (hlike.mpr hzero)).symm.trans (htime hzero)⟩
    · rintro ⟨last', hlast', hlike, htime⟩
      rw [hlast] at hlast'
      cases hlast'
      exact ⟨hlike, fun hzero => (hts' (hlike.mpr hzero)).trans (htime hzero)⟩

/-- A statement with a query id, at its end. -/
def ended (q : ℕ) : Label := .executorEnd q { queryId := 7 } {}

/-- A statement is started at time 1 and run. -/
def ranAlone : List Label := [.executorStart true 1 {}, .returned {}, .executorRun, .returned {}]

theorem event_own_start_iff_alone :
    ∃ e, ((machine false).run {} (ranAlone ++ [ended 0])).events = [e] ∧
      e.fixed.topLevel = true ∧ e.fixed.tsStart = 1 := by
  have hinit : (machine false).toSpec.Reachable {} := .init rfl
  obtain ⟨-, -, hevent⟩ := event_own_start_iff ((machine false).run_reachable _ hinit ranAlone)
  have hown := (hevent 0 { queryId := 7 } {} _ _ ⟨0, 1⟩ rfl rfl rfl).mpr
    ⟨⟨0, 1⟩, rfl, Iff.rfl, fun _ => rfl⟩
  exact ⟨_, rfl, hown.1, hown.2 rfl⟩

/-- A statement started at the top calls a function that runs another one; and of two open
portals the one started first is closed. The first event says that its statement was nested,
the second that it started when the other did. -/
theorem outer_reported_nested :
    let calling := [.executorStart true 1 {}, .returned {}, .executorRun,
      .executorStart true 2 {}, .returned {}, .executorRun, .returned {}, .returned {}]
    let portals := [.executorStart true 1 {}, .returned {}, .executorStart true 2 {}, .returned {}]
    (∃ e, ((machine false).run {} (calling ++ [ended 0])).events = [e] ∧
      ((machine false).run {} calling).starts[0]? = some ⟨0, 1⟩ ∧ e.fixed.topLevel = false) ∧
    (∃ e, ((machine false).run {} (portals ++ [ended 0])).events = [e] ∧
      ((machine false).run {} portals).starts[0]? = some ⟨0, 1⟩ ∧ e.fixed.tsStart = 2) :=
  ⟨⟨_, rfl, rfl, rfl⟩, ⟨_, rfl, rfl, rfl⟩⟩

/-- The event of a utility statement says whether a hook that counts was below it. -/
theorem utility_own_start {u : UtilityStart} {below : List HookFrame} {a : Measured}
    {e : PschEvent} (hs : (machine isParallelWorker).toSpec.Reachable s)
    (hstack : s.stack = .processUtility (some u) :: below)
    (hl : step isParallelWorker (.returned a) s = some s') (he : s'.events = s.events ++ [e]) :
    e.fixed.topLevel = decide (depth below = 0) ∧ e.fixed.tsStart = u.startTs := by
  have hframes := (inv_reachable hs).frames
  rw [hstack] at hframes
  have htop : u.isTopLevel = decide (depth below = 0) := hframes.1
  have hsame : s.events ≠ s.events ++ [e] := by simp
  simp only [step, hstack] at hl
  split at hl
  · cases hl
  · cases hl
    simp only [returnTo] at he
    split at he
    · exact absurd he hsame
    · have hbuilt := List.append_cancel_left he
      cases hbuilt
      simp only [buildEventForUtility, copyQueryText_fixed]
      exact ⟨htop, rfl⟩

end Executor

end PgStatCh
