import Mathlib.Data.List.Sort
import Mathlib.Data.List.Dedup
import Mathlib.Data.List.Pairwise

/-!
# Lib.Sort — sorting by comparisons

What a caller of `qsort` may rely on: the result is the input rearranged and in order,
and the procedure looks at the elements through the comparison only. The order of equal
elements is left open, but it is the same for two inputs that compare alike (`map`). A
procedure that looks first whether there is anything to do also leaves equal elements in place
when there is not (`KeepsSorted`).
-/

universe u

namespace Lib

/-- A sorting procedure that looks at its elements through the comparison only. -/
structure Sorting where
  sort : ∀ {α : Type}, (α → α → Ordering) → List α → List α
  perm : ∀ {α : Type} (cmp : α → α → Ordering) (l : List α), (sort cmp l).Perm l
  sorted : ∀ {α : Type} (key : α → ℤ) (l : List α),
    (sort (fun a b => compare (key a) (key b)) l).Pairwise fun a b => key a ≤ key b
  map : ∀ {α β : Type} (f : α → β) (cmp : β → β → Ordering) (cmp' : α → α → Ordering) (l : List α),
    (∀ a ∈ l, ∀ b ∈ l, cmp (f a) (f b) = cmp' a b) → sort cmp (l.map f) = (sort cmp' l).map f

namespace Sorting

theorem mem_sort {α : Type} (S : Sorting) {cmp : α → α → Ordering} {l : List α} {a : α} :
    a ∈ S.sort cmp l ↔ a ∈ l :=
  (S.perm cmp l).mem_iff

/-- What is in order is left as it is. -/
def KeepsSorted (S : Sorting) : Prop :=
  ∀ {α : Type} (cmp : α → α → Ordering) (l : List α),
    l.Pairwise (fun a b => cmp a b ≠ .gt) → S.sort cmp l = l

/-- Insertion sort. -/
def insertion : Sorting where
  sort := fun cmp l => l.insertionSort fun a b => cmp a b ≠ .gt
  perm := fun cmp l => List.perm_insertionSort _ l
  sorted := by
    intro α key l
    have hle : ∀ a b : α, compare (key a) (key b) ≠ .gt ↔ key a ≤ key b := by
      intro a b
      rw [ne_eq, compare_gt_iff_gt, not_lt]
    have htotal : Std.Total fun a b : α => compare (key a) (key b) ≠ .gt :=
      ⟨fun a b => by simp only [hle]; exact le_total _ _⟩
    have htrans : IsTrans α fun a b => compare (key a) (key b) ≠ .gt :=
      ⟨fun a b c => by simp only [hle]; exact le_trans⟩
    exact (List.pairwise_insertionSort _ l).imp fun {a b} h => (hle a b).mp h
  map := by
    intro α β f cmp cmp' l hl
    refine (List.map_insertionSort _ _ f l fun a ha b hb => ?_).symm
    rw [hl a ha b hb]

theorem insertion_keepsSorted : insertion.KeepsSorted := by
  intro α cmp l h
  exact h.insertionSort_eq

end Sorting

theorem pairwise_of_not_one_lt {α : Type u} {R : α → α → Prop} {l : List α}
    (h : ¬ 1 < l.length) : l.Pairwise R := by
  rcases l with - | ⟨a, - | ⟨b, l⟩⟩
  · exact List.Pairwise.nil
  · exact List.pairwise_singleton _ _
  · exact absurd (by simp) h

/-- A list in strict order is what its elements are when they are sorted, each once. -/
theorem eq_insertionSort_dedup {α : Type u} [DecidableEq α] {key : α → ℕ} {xs ys : List α}
    (hxs : xs.Pairwise fun a b => key a < key b) (hmem : ∀ a, a ∈ xs ↔ a ∈ ys) :
    xs = ys.dedup.insertionSort fun a b => key a ≤ key b := by
  have hsymm : Std.Symm fun a b : α => key a ≠ key b := ⟨fun _ _ h => h.symm⟩
  have hne : xs.Pairwise fun a b => key a ≠ key b := hxs.imp fun h => h.ne
  have hperm : xs.Perm (ys.dedup.insertionSort fun a b => key a ≤ key b) := by
    refine List.Perm.trans ?_ (List.perm_insertionSort _ _).symm
    refine (List.perm_ext_iff_of_nodup (hne.imp fun h heq => h (by rw [heq])) ys.nodup_dedup).mpr ?_
    intro a
    rw [hmem, List.mem_dedup]
  have htotal : Std.Total fun a b : α => key a ≤ key b := ⟨fun a b => le_total _ _⟩
  have htrans : IsTrans α fun a b => key a ≤ key b := ⟨fun a b c => le_trans⟩
  refine hperm.eq_of_pairwise ?_ (hxs.imp fun h => h.le) (List.pairwise_insertionSort _ _)
  intro a b ha hb hab hba
  by_contra hdiffer
  exact hne.forall ha (hperm.symm.subset hb) hdiffer (le_antisymm hab hba)

end Lib
