import Mathlib.Data.List.Sort

/-!
# Lib.Spans — spans that lie one behind the other

Elements of a list have a place where they start and a place where they stop. When they are
worked on from left to right, and only the first of those that start at the same place counts
(`firsts`), everything that is still to come starts behind what is done: `Ahead` is what holds
in between, and `skip` and `pass` are the two ways to go on.
-/

universe u v

namespace Lib

variable {α : Type u} {β : Type v} {start stop : α → ℕ} {prev : Option ℕ} {k : ℕ} {x : α}
  {xs : List α}

/-! ## The first of each place -/

/-- The first elements of their places; the element before the list starts at `prev`. -/
def firsts (start : α → ℕ) : Option ℕ → List α → List α
  | _, [] => []
  | prev, x :: xs =>
    if prev = some (start x) then firsts start (some (start x)) xs
    else x :: firsts start (some (start x)) xs

theorem firsts_sublist (start : α → ℕ) (prev : Option ℕ) (xs : List α) :
    (firsts start prev xs).Sublist xs := by
  induction xs generalizing prev with
  | nil => exact List.Sublist.slnil
  | cons x xs ih =>
    rw [firsts]
    split
    · exact (ih _).cons x
    · exact (ih _).cons_cons x

/-- No place is left out. -/
theorem exists_mem_firsts (hx : x ∈ xs) (hprev : prev ≠ some (start x)) :
    ∃ y ∈ firsts start prev xs, start y = start x := by
  induction xs generalizing prev with
  | nil => cases hx
  | cons a as ih =>
    rw [firsts]
    by_cases ha : start a = start x
    · rw [if_neg (by rwa [ha])]
      exact ⟨a, List.mem_cons_self, ha⟩
    · have hmem : x ∈ as := (List.mem_cons.mp hx).resolve_left fun heq => ha (by rw [heq])
      obtain ⟨y, hy, hstart⟩ := ih hmem fun heq => ha (Option.some.inj heq)
      split
      · exact ⟨y, hy, hstart⟩
      · exact ⟨y, List.mem_cons_of_mem _ hy, hstart⟩

/-- Taking the first of each place depends on which places are equal only. -/
theorem firsts_map (prev : Option ℕ) {start' : β → ℕ} {f : α → β} {g : ℕ → ℕ}
    (hf : ∀ x ∈ xs, start' (f x) = g (start x))
    (hg : ∀ x ∈ xs, ∀ p, (prev = some p ∨ ∃ y ∈ xs, start y = p) →
      (g p = g (start x) ↔ p = start x)) :
    firsts start' (prev.map g) (xs.map f) = (firsts start prev xs).map f := by
  induction xs generalizing prev with
  | nil => rfl
  | cons x xs ih =>
    have hx := hf x List.mem_cons_self
    have hsame : prev.map g = some (start' (f x)) ↔ prev = some (start x) := by
      cases prev with
      | none => simp
      | some p => simpa [hx] using hg x List.mem_cons_self p (Or.inl rfl)
    have hrest := ih (some (start x)) (fun y hy => hf y (List.mem_cons_of_mem _ hy))
      fun y hy p hp => hg y (List.mem_cons_of_mem _ hy) p <| Or.inr <| by
        rcases hp with heq | ⟨z, hz, heq⟩
        · exact ⟨x, List.mem_cons_self, Option.some.inj heq⟩
        · exact ⟨z, List.mem_cons_of_mem _ hz, heq⟩
    rw [Option.map_some, ← hx] at hrest
    rw [List.map_cons, firsts, firsts]
    by_cases hp : prev = some (start x)
    · rw [if_pos (hsame.mpr hp), if_pos hp, hrest]
    · rw [if_neg (hsame.not.mpr hp), if_neg hp, List.map_cons, hrest]

/-! ## From left to right -/

/-- The elements are in order and do not overlap; all but those at `prev` start at `k` or
behind it. -/
structure Ahead (start stop : α → ℕ) (prev : Option ℕ) (k : ℕ) (xs : List α) : Prop where
  sorted : xs.Pairwise fun x x' => start x ≤ start x'
  apart : ∀ x ∈ xs, ∀ x' ∈ xs, start x < start x' → stop x ≤ start x'
  prev_le : ∀ p, prev = some p → ∀ x ∈ xs, p ≤ start x
  ahead : ∀ x ∈ xs, prev = some (start x) ∨ k ≤ start x

namespace Ahead

/-- The element is left where it is. -/
theorem skip (h : Ahead start stop prev k (x :: xs)) : Ahead start stop (some (start x)) k xs where
  sorted := h.sorted.of_cons
  apart := fun y hy z hz => h.apart y (List.mem_cons_of_mem _ hy) z (List.mem_cons_of_mem _ hz)
  prev_le := by
    rintro _ ⟨rfl⟩ y hy
    exact List.rel_of_pairwise_cons h.sorted hy
  ahead := by
    intro y hy
    rcases h.ahead y (List.mem_cons_of_mem _ hy) with hprev | hk
    · have hle := h.prev_le _ hprev x List.mem_cons_self
      have hge := List.rel_of_pairwise_cons h.sorted hy
      exact Or.inl (by rw [le_antisymm hge hle])
    · exact Or.inr hk

/-- The element is done. -/
theorem pass (h : Ahead start stop prev k (x :: xs)) :
    Ahead start stop (some (start x)) (stop x) xs where
  sorted := h.skip.sorted
  apart := h.skip.apart
  prev_le := h.skip.prev_le
  ahead := by
    intro y hy
    rcases (List.rel_of_pairwise_cons h.sorted hy).eq_or_lt with heq | hlt
    · exact Or.inl (by rw [heq])
    · exact Or.inr (h.apart x List.mem_cons_self y (List.mem_cons_of_mem _ hy) hlt)

/-- An element at a new place is still to come. -/
theorem le_start (h : Ahead start stop prev k (x :: xs)) (hprev : prev ≠ some (start x)) :
    k ≤ start x :=
  (h.ahead x List.mem_cons_self).resolve_left hprev

/-- The first of each place start one behind the other. -/
theorem firsts_lt (h : Ahead start stop prev k xs) :
    (firsts start prev xs).Pairwise (fun x x' => start x < start x') ∧
      ∀ x ∈ firsts start prev xs, ∀ p, prev = some p → p < start x := by
  induction xs generalizing prev k with
  | nil => exact ⟨List.Pairwise.nil, List.forall_mem_nil _⟩
  | cons x xs ih =>
    obtain ⟨hrest, hlt⟩ := ih h.skip
    have hle : ∀ p, prev = some p → p ≤ start x := fun p hp => h.prev_le p hp x List.mem_cons_self
    rw [firsts]
    split
    · exact ⟨hrest, fun y hy p hp => (hle p hp).trans_lt (hlt y hy _ rfl)⟩
    · next hprev =>
      refine ⟨List.pairwise_cons.mpr ⟨fun y hy => hlt y hy _ rfl, hrest⟩, ?_⟩
      intro y hy p hp
      rcases List.mem_cons.mp hy with rfl | hy
      · exact (hle p hp).lt_of_ne fun heq => hprev (heq ▸ hp)
      · exact (hle p hp).trans_lt (hlt y hy _ rfl)

end Ahead

end Lib
