import Mathlib.Logic.Function.Basic
import Mathlib.Data.List.Nodup
import Mathlib.Data.List.Count

/-!
# Lib.Heap — a heap that remembers what it freed

Addresses may be reused, so "this block was freed exactly once" is a statement
about allocations and not about addresses: every allocation gets a serial
number, and `freed` lists the serial numbers of the allocations that were freed.
The bookkeeping invariant is carried by the structure. A `free` of an address
that is not live does nothing here; it is the client's business to count it as
a fault.
-/

universe u v

namespace Lib

/-- A live block: the serial number of its allocation and its contents. -/
structure Cell (β : Type v) where
  serial : ℕ
  body : β

/-- Live blocks by address, the next serial number, and the serial numbers of
the blocks freed so far. -/
structure Heap (α : Type u) (β : Type v) where
  live : α → Option (Cell β)
  next : ℕ
  freed : List ℕ
  live_lt : ∀ p c, live p = some c → c.serial < next
  live_inj : ∀ p q c d, live p = some c → live q = some d → c.serial = d.serial → p = q
  live_not_freed : ∀ p c, live p = some c → c.serial ∉ freed
  freed_lt : ∀ i ∈ freed, i < next
  freed_nodup : freed.Nodup
  covered : ∀ i < next, i ∈ freed ∨ ∃ p c, live p = some c ∧ c.serial = i

namespace Heap

variable {α : Type u} {β : Type v}

/-- No block allocated yet. -/
def empty : Heap α β where
  live := fun _ => none
  next := 0
  freed := []
  live_lt := by simp
  live_inj := by simp
  live_not_freed := by simp
  freed_lt := by simp
  freed_nodup := List.nodup_nil
  covered := by simp

/-- The contents of the block at `p`, when there is one. -/
def body? (h : Heap α β) (p : α) : Option β := (h.live p).map Cell.body

@[simp] theorem empty_body? (p : α) : (empty : Heap α β).body? p = none := rfl

theorem body?_eq_none {h : Heap α β} {p : α} : h.body? p = none ↔ h.live p = none := by
  simp [body?]

/-! ## Every block is freed at most once, and exactly once when none is live -/

theorem freed_count_le_one (h : Heap α β) (i : ℕ) : h.freed.count i ≤ 1 :=
  List.nodup_iff_count_le_one.mp h.freed_nodup i

theorem freed_count_eq_one (h : Heap α β) (hnone : ∀ p, h.body? p = none) {i : ℕ}
    (hi : i < h.next) : h.freed.count i = 1 := by
  have hmem : i ∈ h.freed := by
    rcases h.covered i hi with hf | ⟨p, c, hp, -⟩
    · exact hf
    · have := hnone p
      simp [body?, hp] at this
  exact List.count_eq_one_of_mem h.freed_nodup hmem

/-! ## Allocating and freeing -/

variable [DecidableEq α]

/-- Allocate a block at an address that is not in use. -/
def alloc (h : Heap α β) (p : α) (b : β) (hp : h.live p = none) : Heap α β where
  live := Function.update h.live p (some ⟨h.next, b⟩)
  next := h.next + 1
  freed := h.freed
  live_lt := by
    intro q c hq
    rcases eq_or_ne q p with rfl | hne
    · simp only [Function.update_self, Option.some.injEq] at hq
      subst hq
      exact Nat.lt_succ_self _
    · rw [Function.update_of_ne hne] at hq
      exact Nat.lt_succ_of_lt (h.live_lt q c hq)
  live_inj := by
    intro q r c d hq hr heq
    rcases eq_or_ne q p with hqp | hqp <;> rcases eq_or_ne r p with hrp | hrp
    · rw [hqp, hrp]
    · -- a new serial number is no old block's
      rw [hqp, Function.update_self, Option.some.injEq] at hq
      rw [Function.update_of_ne hrp] at hr
      have := h.live_lt r d hr
      simp [← hq] at heq
      omega
    · rw [hrp, Function.update_self, Option.some.injEq] at hr
      rw [Function.update_of_ne hqp] at hq
      have := h.live_lt q c hq
      simp [← hr] at heq
      omega
    · rw [Function.update_of_ne hqp] at hq
      rw [Function.update_of_ne hrp] at hr
      exact h.live_inj q r c d hq hr heq
  live_not_freed := by
    intro q c hq hmem
    rcases eq_or_ne q p with rfl | hne
    · simp only [Function.update_self, Option.some.injEq] at hq
      subst hq
      exact Nat.lt_irrefl _ (h.freed_lt _ hmem)
    · rw [Function.update_of_ne hne] at hq
      exact h.live_not_freed q c hq hmem
  freed_lt := fun i hi => Nat.lt_succ_of_lt (h.freed_lt i hi)
  freed_nodup := h.freed_nodup
  covered := by
    intro i hi
    rcases Nat.lt_succ_iff_lt_or_eq.mp hi with hlt | rfl
    · rcases h.covered i hlt with hf | ⟨q, c, hq, hc⟩
      · exact Or.inl hf
      · have hne : q ≠ p := by
          rintro rfl
          simp [hp] at hq
        exact Or.inr ⟨q, c, by rw [Function.update_of_ne hne, hq], hc⟩
    · exact Or.inr ⟨p, _, Function.update_self .., rfl⟩

/-- Free the block at `p`; nothing happens when there is none. -/
def free (h : Heap α β) (p : α) : Heap α β :=
  match hp : h.live p with
  | none => h
  | some c =>
    { live := Function.update h.live p none
      next := h.next
      freed := c.serial :: h.freed
      live_lt := by
        intro q d hq
        rcases eq_or_ne q p with rfl | hne
        · simp at hq
        · rw [Function.update_of_ne hne] at hq
          exact h.live_lt q d hq
      live_inj := by
        intro q r d e hq hr heq
        rcases eq_or_ne q p with rfl | hqp
        · simp at hq
        rcases eq_or_ne r p with rfl | hrp
        · simp at hr
        rw [Function.update_of_ne hqp] at hq
        rw [Function.update_of_ne hrp] at hr
        exact h.live_inj q r d e hq hr heq
      live_not_freed := by
        intro q d hq hmem
        rcases eq_or_ne q p with rfl | hne
        · simp at hq
        rw [Function.update_of_ne hne] at hq
        rcases List.mem_cons.mp hmem with heq | hmem
        · exact hne (h.live_inj q p d c hq hp heq)
        · exact h.live_not_freed q d hq hmem
      freed_lt := by
        intro i hi
        rcases List.mem_cons.mp hi with rfl | hi
        · exact h.live_lt p c hp
        · exact h.freed_lt i hi
      freed_nodup := List.nodup_cons.mpr ⟨h.live_not_freed p c hp, h.freed_nodup⟩
      covered := by
        intro i hi
        rcases h.covered i hi with hf | ⟨q, d, hq, hd⟩
        · exact Or.inl (List.mem_cons_of_mem _ hf)
        · rcases eq_or_ne q p with rfl | hne
          · rw [hp, Option.some.injEq] at hq
            exact Or.inl (by simp [← hd, hq])
          · exact Or.inr ⟨q, d, by rw [Function.update_of_ne hne, hq], hd⟩ }

/-! ## What the operations do to the contents -/

@[simp] theorem alloc_body? (h : Heap α β) (p : α) (b : β) (hp : h.live p = none) (q : α) :
    (h.alloc p b hp).body? q = if q = p then some b else h.body? q := by
  by_cases hq : q = p
  · subst hq
    simp [body?, alloc]
  · simp [body?, alloc, hq]

@[simp] theorem free_body? (h : Heap α β) (p q : α) :
    (h.free p).body? q = if q = p then none else h.body? q := by
  unfold free
  split
  · next hp =>
    by_cases hq : q = p
    · subst hq
      simp [body?, hp]
    · simp [hq]
  · by_cases hq : q = p
    · subst hq
      simp [body?]
    · simp [body?, hq]

theorem free_freed (h : Heap α β) (p : α) :
    (h.free p).freed = h.freed ∨
      ∃ c, h.live p = some c ∧ (h.free p).freed = c.serial :: h.freed := by
  unfold free
  split
  · exact Or.inl rfl
  · next c hp => exact Or.inr ⟨c, hp, rfl⟩

end Heap

end Lib
