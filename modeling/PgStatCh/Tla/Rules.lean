import PgStatCh.Tla.Core

/-!
# Tla.Rules — invariance, monotone quantities, ranks and refinement

Everything is proved from the definitions in `Core`. The rules that the
developments above use are

* `Spec.Reachable.invariant` — induction over reachable states, with an
  invariant that is already known available in the step case;
* `Behavior.monotone` — a quantity that no step decreases does not decrease
  between two positions of a behavior;
* `reaches_of_rank` — a run in which every step lowers a rank comes to its end;
* `Refinement` — a refinement mapping that is checked on reachable states
  only, and the transfer of invariants through it.
-/

universe u v w

namespace Tla

/-! ## Invariants -/

section Invariance

variable {σ : Type u} {S : Spec σ}

/-- Inductive invariance relative to an invariant `known`. -/
theorem Spec.Reachable.invariant_of {known inv : StatePred σ}
    (hknown : ∀ s, S.Reachable s → known s)
    (hinit : ∀ s, S.Init s → inv s)
    (hstep : ∀ s s', known s → inv s → S.Next s s' → inv s')
    {s : σ} (hs : S.Reachable s) : inv s := by
  induction hs with
  | init h => exact hinit _ h
  | step hr hnext ih => exact hstep _ _ (hknown _ hr) ih hnext

/-- Inductive invariance. -/
theorem Spec.Reachable.invariant {inv : StatePred σ}
    (hinit : ∀ s, S.Init s → inv s)
    (hstep : ∀ s s', inv s → S.Next s s' → inv s')
    {s : σ} (hs : S.Reachable s) : inv s :=
  Spec.Reachable.invariant_of (fun _ _ => trivial) hinit
    (fun s s' (_ : True) => hstep s s') hs

theorem Behavior.reachable (e : Behavior S) (n : ℕ) : S.Reachable (e.st n) := by
  induction n with
  | zero => exact .init e.init
  | succ n ih =>
    rcases e.next n with hnext | hstut
    · exact ih.step hnext
    · rw [hstut]
      exact ih

end Invariance

/-! ## Machines under a condition -/

namespace Machine

variable {σ : Type u} {L : Type v} {M : Machine σ L} {ok : σ → L → Prop} {s : σ}

/-- Whatever is reachable under a condition is reachable. -/
theorem reachable_of_under (hs : (M.under ok).Reachable s) : M.toSpec.Reachable s := by
  induction hs with
  | init h => exact .init h
  | step _ hnext ih =>
    obtain ⟨l, -, hstep⟩ := hnext
    exact ih.step ⟨l, hstep⟩

/-- A weaker condition lets more be reached. -/
theorem reachable_under_mono {ok' : σ → L → Prop} (h : ∀ s l, ok s l → ok' s l)
    (hs : (M.under ok).Reachable s) : (M.under ok').Reachable s := by
  induction hs with
  | init hinit => exact .init hinit
  | step _ hnext ih =>
    obtain ⟨l, hl, hstep⟩ := hnext
    exact ih.step ⟨l, h _ l hl, hstep⟩

/-- Inductive invariance under a condition, with what is known of all states. -/
theorem invariant_under {known inv : StatePred σ}
    (hknown : ∀ s, M.toSpec.Reachable s → known s) (hinit : ∀ s, M.Init s → inv s)
    (hstep : ∀ s s' l, known s → inv s → ok s l → M.step l s = some s' → inv s')
    (hs : (M.under ok).Reachable s) : inv s := by
  refine Spec.Reachable.invariant_of (fun s hs => hknown s (reachable_of_under hs)) hinit ?_ hs
  rintro s s' hk hinv ⟨l, hok, hl⟩
  exact hstep s s' l hk hinv hok hl

/-- What every step of a schedule keeps, the schedule keeps. -/
theorem run_invariant {inv : StatePred σ} {ls : List L} (hs : inv s)
    (hstep : ∀ l ∈ ls, ∀ s s', inv s → M.step l s = some s' → inv s') : inv (M.run s ls) := by
  induction ls generalizing s with
  | nil => exact hs
  | cons l ls ih =>
    refine ih ?_ fun l' hl' => hstep l' (List.mem_cons_of_mem _ hl')
    cases hl : M.step l s with
    | none => simpa [fire, hl] using hs
    | some s' => simpa [fire, hl] using hstep l List.mem_cons_self s s' hs hl

/-- A schedule of labels that meet the condition in every state. -/
theorem run_reachable_under (hs : (M.under ok).Reachable s) (ls : List L)
    (hls : ∀ l ∈ ls, ∀ s, ok s l) : (M.under ok).Reachable (M.run s ls) :=
  run_invariant hs fun l hl s _ hs' hstep => hs'.step ⟨l, hls l hl s, hstep⟩

/-- A label that meets the condition in this state. -/
theorem fire_reachable_under (hs : (M.under ok).Reachable s) {l : L} (hl : ok s l) :
    (M.under ok).Reachable (M.fire s l) := by
  cases hstep : M.step l s with
  | none => simpa [fire, hstep] using hs
  | some s' => simpa [fire, hstep] using hs.step ⟨l, hl, hstep⟩

end Machine

/-! ## Monotone quantities -/

/-- A quantity that no step from a reachable state decreases is monotone along
every behavior. -/
theorem Behavior.monotone {σ : Type u} {S : Spec σ} (e : Behavior S) (f : σ → ℕ)
    (hstep : ∀ s s', S.Reachable s → S.Next s s' → f s ≤ f s') :
    Monotone fun n => f (e.st n) := by
  apply monotone_nat_of_le_succ
  intro n
  rcases e.next n with hnext | hstut
  · exact hstep _ _ (e.reachable n) hnext
  · rw [hstut]

/-- A run that lowers a rank with every step until it is at its goal gets there. -/
theorem reaches_of_rank {σ : Type u} (inv goal : StatePred σ) (rank : σ → ℕ) {f : ℕ → σ}
    (hinit : inv (f 0))
    (hstep : ∀ n, inv (f n) → ¬ goal (f n) →
      inv (f (n + 1)) ∧ rank (f (n + 1)) < rank (f n)) :
    ∃ n, inv (f n) ∧ goal (f n) := by
  by_contra hnever
  have hbelow : ∀ n, inv (f n) ∧ rank (f n) + n ≤ rank (f 0) := by
    intro n
    induction n with
    | zero => exact ⟨hinit, le_rfl⟩
    | succ n ih =>
      obtain ⟨hinv, hlt⟩ := hstep n ih.1 fun hgoal => hnever ⟨n, ih.1, hgoal⟩
      exact ⟨hinv, by omega⟩
  have hlast := (hbelow (rank (f 0) + 1)).2
  omega

/-! ## Refinement mappings -/

/-- `f` maps the reachable states of `C` to states of `A` such that initial
states are initial and every step is a step of `A` or a stuttering step. -/
structure Refinement {σ : Type u} {τ : Type v} (C : Spec σ) (A : Spec τ) (f : σ → τ) : Prop where
  init : ∀ s, C.Init s → A.Init (f s)
  next : ∀ s s', C.Reachable s → C.Next s s' → A.StutNext (f s) (f s')

namespace Refinement

variable {σ : Type u} {τ : Type v} {υ : Type w} {C : Spec σ} {A : Spec τ} {B : Spec υ}
variable {f : σ → τ} {g : τ → υ}

theorem reachable (h : Refinement C A f) {s : σ} (hs : C.Reachable s) :
    A.Reachable (f s) := by
  induction hs with
  | init hi => exact .init (h.init _ hi)
  | step hr hnext ih =>
    rcases h.next _ _ hr hnext with hstep | hstut
    · exact ih.step hstep
    · rw [hstut]
      exact ih

/-- An invariant of the abstract specification holds of the mapped state. -/
theorem invariant (h : Refinement C A f) {inv : StatePred τ}
    (hinv : ∀ t, A.Reachable t → inv t) {s : σ} (hs : C.Reachable s) : inv (f s) :=
  hinv _ (h.reachable hs)

/-- A behavior, as the abstract specification sees it. -/
def behavior (h : Refinement C A f) (e : Behavior C) : Behavior A where
  st := fun n => f (e.st n)
  init := h.init _ e.init
  next := by
    intro n
    rcases e.next n with hnext | hstut
    · exact h.next _ _ (e.reachable n) hnext
    · exact Or.inr (congrArg f hstut)

/-- Refinement mappings compose. -/
theorem comp (h : Refinement C A f) (h' : Refinement A B g) : Refinement C B (g ∘ f) where
  init := fun s hs => h'.init _ (h.init s hs)
  next := by
    intro s s' hr hnext
    rcases h.next s s' hr hnext with hstep | hstut
    · exact h'.next _ _ (h.reachable hr) hstep
    · right
      simp [hstut]

end Refinement

end Tla
