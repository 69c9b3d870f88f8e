import Mathlib.Data.List.Basic

/-!
# Lib.Stack — stacks of calls

A stack is a list with the running call in front. `EveryFrame P` says that each call
on it stands in the relation `P` to the calls below it, which is how an invariant of
a machine with a call stack is stated: pushing a call asks for `P` of that call only,
and returning from one gives `P` of the rest. Two rules get something about the whole
stack from it:

* `EveryFrame.forall_mem` — what each call owes to a condition on the stack from it
  downwards;
* `EveryFrame.length_filter_le_one` — calls that tolerate none of their kind below them.
-/

universe u

namespace Lib

variable {α : Type u} {P : α → List α → Prop} {stack : List α}

/-- Each frame of the stack has the property `P` relative to what is below it. -/
def EveryFrame (P : α → List α → Prop) : List α → Prop
  | [] => True
  | f :: below => P f below ∧ EveryFrame P below

namespace EveryFrame

theorem forall_mem (free : List α → Prop) {good : α → Prop} (h : EveryFrame P stack)
    (hstep : ∀ f below, P f below → free (f :: below) → good f ∧ free below)
    (hfree : free stack) : ∀ f ∈ stack, good f := by
  induction stack with
  | nil => exact List.forall_mem_nil _
  | cons f below ih =>
    obtain ⟨hgood, hbelow⟩ := hstep f below h.1 hfree
    exact List.forall_mem_cons.mpr ⟨hgood, ih h.2 hbelow⟩

theorem length_filter_le_one {kind : α → Bool} (h : EveryFrame P stack)
    (halone : ∀ f below, P f below → kind f = true → ∀ g ∈ below, kind g = false) :
    (stack.filter kind).length ≤ 1 := by
  induction stack with
  | nil => exact Nat.zero_le _
  | cons f below ih =>
    cases hf : kind f with
    | true =>
      have hnone : below.filter kind = [] := by
        rw [List.filter_eq_nil_iff]
        intro g hg
        simp [halone f below h.1 hf g hg]
      rw [List.filter_cons_of_pos hf, hnone]
      exact Nat.le_refl 1
    | false =>
      rw [List.filter_cons_of_neg (by simp [hf])]
      exact ih h.2

end EveryFrame

end Lib
