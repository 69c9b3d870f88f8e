import Mathlib.Data.List.Basic

/-!
# Lib.Dictionary — dictionary encoding of a list

A list of values is kept as a memo of distinct values and an index into it for each element. The
memo only grows: what has been encoded stays as it is when more is appended.
-/

universe u

namespace Lib

/-- Values, each as an index into the memo. -/
structure Dictionary (α : Type u) where
  memo : List α
  indices : List ℕ
  inRange : ∀ i ∈ indices, i < memo.length

namespace Dictionary

variable {α : Type u} {d : Dictionary α} {v w : α}

def empty : Dictionary α := ⟨[], [], nofun⟩

/-- The values that the indices stand for. -/
def decode (d : Dictionary α) : List α := d.indices.filterMap fun i => d.memo[i]?

/-- Drop the indices, and keep the memo. -/
def clear (d : Dictionary α) : Dictionary α := ⟨d.memo, [], nofun⟩

/-- Every index stands for a value. -/
theorem length_decode (d : Dictionary α) : d.decode.length = d.indices.length := by
  obtain ⟨memo, indices, inRange⟩ := d
  unfold decode
  induction indices with
  | nil => rfl
  | cons i is ih =>
    have hlt : i < memo.length := inRange i List.mem_cons_self
    have hi : memo[i]? = some memo[i] := List.getElem?_eq_getElem hlt
    have his := ih fun j hj => inRange j (List.mem_cons_of_mem i hj)
    rw [List.filterMap_cons_some hi, List.length_cons, his, List.length_cons]

variable [DecidableEq α]

/-- The memo with `v` in it. -/
def extend (memo : List α) (v : α) : List α := if v ∈ memo then memo else memo ++ [v]

theorem mem_extend {memo : List α} : w ∈ extend memo v ↔ w ∈ memo ∨ w = v := by
  unfold extend
  split
  · next hmem =>
    constructor
    · exact Or.inl
    · rintro (h | rfl)
      · exact h
      · exact hmem
  · rw [List.mem_append, List.mem_singleton]

theorem getElem?_extend_of_lt {memo : List α} {i : ℕ} (hi : i < memo.length) :
    (extend memo v)[i]? = memo[i]? := by
  unfold extend
  split
  · rfl
  · exact List.getElem?_append_left hi

theorem getElem?_extend_idxOf (memo : List α) (v : α) :
    (extend memo v)[memo.idxOf v]? = some v := by
  unfold extend
  split
  · next hmem =>
    rw [List.getElem?_eq_getElem (List.idxOf_lt_length_of_mem hmem), List.getElem_idxOf]
  · next hnew => rw [List.idxOf_eq_length hnew, List.getElem?_concat_length]

/-- The index of `v` in the memo, which is extended if `v` is new. -/
def append (d : Dictionary α) (v : α) : Dictionary α where
  memo := extend d.memo v
  indices := d.indices ++ [d.memo.idxOf v]
  inRange := by
    intro i hi
    rcases List.mem_append.mp hi with hi | hi
    · have hlt := d.inRange i hi
      have hget := getElem?_extend_of_lt (v := v) hlt
      rw [List.getElem?_eq_getElem hlt] at hget
      exact (List.getElem?_eq_some_iff.mp hget).1
    · rw [List.mem_singleton.mp hi]
      exact (List.getElem?_eq_some_iff.mp (getElem?_extend_idxOf d.memo v)).1

/-- One more value. -/
@[simp] theorem decode_append : (d.append v).decode = d.decode ++ [v] := by
  have hold : ∀ i ∈ d.indices, (extend d.memo v)[i]? = d.memo[i]? := fun i hi =>
    getElem?_extend_of_lt (d.inRange i hi)
  have hnew := getElem?_extend_idxOf d.memo v
  simp only [decode, append, List.filterMap_append, List.filterMap_congr hold,
    List.filterMap_cons_some hnew, List.filterMap_nil]

end Dictionary

end Lib
