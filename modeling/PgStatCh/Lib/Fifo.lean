import PgStatCh.Tla.Rules

/-!
# Lib.Fifo — the bounded FIFO queue

The abstract queue: a list of waiting elements, and the histories of what was
put in and what was taken out. Whatever refines it delivers a prefix of what was
put in, in that order, with nothing lost, duplicated or reordered.
-/

universe u

namespace Lib

open Tla

/-- A FIFO queue with its histories. -/
structure Fifo (α : Type u) where
  queue : List α
  entered : List α
  left : List α

namespace Fifo

variable {α : Type u}

/-- Append an element while there is room. -/
def Enqueue (capacity : ℕ) (x : α) : Action (Fifo α) := fun s s' =>
  s.queue.length < capacity ∧
  s' = { queue := s.queue ++ [x], entered := s.entered ++ [x], left := s.left }

/-- Take the front element. -/
def Dequeue : Action (Fifo α) := fun s s' =>
  ∃ x q, s.queue = x :: q ∧ s' = { queue := q, entered := s.entered, left := s.left ++ [x] }

/-- The bounded FIFO queue. -/
def spec (α : Type u) (capacity : ℕ) : Spec (Fifo α) where
  Init := fun s => s.queue = [] ∧ s.entered = [] ∧ s.left = []
  Next := fun s s' => (∃ x, Enqueue capacity x s s') ∨ Dequeue s s'

/-- Everything that entered has left or is waiting, in order, and the bound holds. -/
def Inv (capacity : ℕ) (s : Fifo α) : Prop :=
  s.entered = s.left ++ s.queue ∧ s.queue.length ≤ capacity

theorem inv_reachable {capacity : ℕ} {s : Fifo α} (hs : (spec α capacity).Reachable s) :
    Inv capacity s := by
  refine Spec.Reachable.invariant ?_ ?_ hs
  · rintro s ⟨hq, hi, ho⟩
    exact ⟨by simp [hq, hi, ho], by simp [hq]⟩
  · rintro s s' ⟨heq, hle⟩ (⟨x, hroom, rfl⟩ | ⟨x, q, hq, rfl⟩)
    · refine ⟨by simp [heq], ?_⟩
      simp only [List.length_append, List.length_singleton]
      omega
    · rw [hq] at heq hle
      refine ⟨by simp [heq], ?_⟩
      simp only [List.length_cons] at hle
      exact Nat.le_of_succ_le hle

end Fifo

end Lib
