import Mathlib.Order.Monotone.Basic
import Mathlib.Data.List.Basic

/-!
# Tla.Core — specifications, runs and reachable states

The part of TLA that state-machine proofs use every day: a specification is
`Init ∧ □[Next]`, a behavior is an infinite sequence of states whose steps are
`Next` steps or stuttering steps, and a state predicate is an invariant when it
holds in every reachable state.

Machines whose steps are computed by a function on labels are `Machine`s; the
specification of a machine is what its enabled labels can do. Every list of
labels drives a machine (a label that is not enabled stutters), so a finite
schedule is at once a behavior of the specification.
-/

universe u v

namespace Tla

/-- A predicate on states. -/
abbrev StatePred (σ : Type u) := σ → Prop

/-- A predicate on pairs of states: before the step, after the step. -/
abbrev Action (σ : Type u) := σ → σ → Prop

/-- The specification `Init ∧ □[Next]`. -/
structure Spec (σ : Type u) where
  Init : StatePred σ
  Next : Action σ

/-- The states that finitely many steps lead to. -/
inductive Spec.Reachable {σ : Type u} (S : Spec σ) : σ → Prop where
  | init {s : σ} : S.Init s → S.Reachable s
  | step {s s' : σ} : S.Reachable s → S.Next s s' → S.Reachable s'

/-- A `Next` step or a stuttering step. -/
def Spec.StutNext {σ : Type u} (S : Spec σ) : Action σ := fun s s' =>
  S.Next s s' ∨ s' = s

/-- A behavior of the specification. -/
structure Behavior {σ : Type u} (S : Spec σ) where
  st : ℕ → σ
  init : S.Init (st 0)
  next : ∀ n, S.StutNext (st n) (st (n + 1))

/-- A state machine driven by labels; `none` means that the label is not
enabled in the state. -/
structure Machine (σ : Type u) (L : Type v) where
  Init : StatePred σ
  step : L → σ → Option σ

namespace Machine

variable {σ : Type u} {L : Type v} (M : Machine σ L)

/-- What the machine's enabled labels can do. -/
def toSpec : Spec σ where
  Init := M.Init
  Next := fun s s' => ∃ l, M.step l s = some s'

/-- What they can do as long as every step meets a condition on the state before it
and the label. -/
def under (ok : σ → L → Prop) : Spec σ where
  Init := M.Init
  Next := fun s s' => ∃ l, ok s l ∧ M.step l s = some s'

/-- One label of a schedule; a label that is not enabled stutters. -/
def fire (s : σ) (l : L) : σ := (M.step l s).getD s

/-- The state a schedule leads to. -/
def run (s : σ) (ls : List L) : σ := ls.foldl M.fire s

theorem run_append (s : σ) (ls ls' : List L) :
    M.run s (ls ++ ls') = M.run (M.run s ls) ls' := by
  simp [run]

/-- A label of a schedule that is enabled when its turn comes. -/
theorem step_run_take (s : σ) {ls : List L} {n : ℕ} {l : L} (hl : ls[n]? = some l)
    (henabled : (M.step l (M.run s (ls.take n))).isSome) :
    M.step l (M.run s (ls.take n)) = some (M.run s (ls.take (n + 1))) := by
  obtain ⟨s', hs'⟩ := Option.isSome_iff_exists.mp henabled
  rw [List.take_add_one, hl, run_append, hs']
  have hfire : M.fire (M.run s (ls.take n)) l = s' := by simp [fire, hs']
  rw [← hfire]
  rfl

theorem fire_stut (s : σ) (l : L) : M.toSpec.StutNext s (M.fire s l) := by
  cases h : M.step l s with
  | none => exact Or.inr (by simp [fire, h])
  | some s' => exact Or.inl ⟨l, by simp [fire, h]⟩

/-- A schedule, read as a behavior: it runs the labels and then stutters. -/
def behavior (s : σ) (hs : M.Init s) (ls : List L) : Behavior M.toSpec where
  st := fun n => M.run s (ls.take n)
  init := hs
  next := by
    intro n
    rcases Nat.lt_or_ge n ls.length with hn | hn
    · have htake : ls.take (n + 1) = ls.take n ++ [ls[n]] := by simp
      rw [htake, run_append]
      exact M.fire_stut _ _
    · right
      rw [List.take_of_length_le hn, List.take_of_length_le (by omega)]

theorem behavior_st (s : σ) (hs : M.Init s) (ls : List L) (n : ℕ) :
    (M.behavior s hs ls).st n = M.run s (ls.take n) := rfl

theorem behavior_succ (s : σ) (hs : M.Init s) {ls : List L} {n : ℕ} {l : L}
    (hl : ls[n]? = some l) :
    (M.behavior s hs ls).st (n + 1) = M.fire ((M.behavior s hs ls).st n) l := by
  rw [behavior_st, behavior_st, List.take_add_one, hl, run_append]
  rfl

theorem run_reachable (s : σ) (hs : M.toSpec.Reachable s) (ls : List L) :
    M.toSpec.Reachable (M.run s ls) := by
  induction ls generalizing s with
  | nil => exact hs
  | cons l ls ih =>
    apply ih
    rcases M.fire_stut s l with hnext | hstut
    · exact hs.step hnext
    · rw [hstut]
      exact hs

end Machine

end Tla
