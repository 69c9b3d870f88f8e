import Mathlib.Data.List.Basic

/-!
# Lib.Packed — values in one buffer, with their end offsets

A column of texts as a wire format keeps it: the bytes of all values one after the other, and for
each value the offset at which it ends. A value starts where the one before it ends.
-/

universe u

namespace Lib

structure Packed (α : Type u) where
  data : List α := []
  ends : List ℕ := []
deriving DecidableEq

namespace Packed

variable {α : Type u} {p : Packed α} {v data : List α} {start : ℕ} {ends : List ℕ}

/-- The values that end at these offsets, the first of them starting at `start`. -/
def slices (data : List α) : ℕ → List ℕ → List (List α)
  | _, [] => []
  | start, stop :: ends => (data.drop start).take (stop - start) :: slices data stop ends

/-- The values. -/
def decode (p : Packed α) : List (List α) := slices p.data 0 p.ends

/-- Where the last of the values ends. -/
def stop (start : ℕ) (ends : List ℕ) : ℕ := ends.getLast?.getD start

def append (p : Packed α) (v : List α) : Packed α where
  data := p.data ++ v
  ends := p.ends ++ [(p.data ++ v).length]

/-- The buffer ends with the last value, and no value reaches beyond it. -/
structure Tight (p : Packed α) : Prop where
  stop : stop 0 p.ends = p.data.length
  le : ∀ stop ∈ p.ends, stop ≤ p.data.length

theorem length_slices (data : List α) (start : ℕ) (ends : List ℕ) :
    (slices data start ends).length = ends.length := by
  induction ends generalizing start with
  | nil => rfl
  | cons stop ends ih => rw [slices, List.length_cons, ih, List.length_cons]

/-- More data does not change the values in front of it. -/
theorem slices_append_data (hle : ∀ stop ∈ ends, stop ≤ data.length) :
    slices (data ++ v) start ends = slices data start ends := by
  induction ends generalizing start with
  | nil => rfl
  | cons stop ends ih =>
    have hstop : stop ≤ data.length := hle stop List.mem_cons_self
    have htake : ((data ++ v).drop start).take (stop - start) =
        (data.drop start).take (stop - start) := by
      rw [List.drop_append, List.take_append_of_le_length]
      rw [List.length_drop]
      omega
    rw [slices, slices, htake, ih fun stop' h => hle stop' (List.mem_cons_of_mem stop h)]

/-- One more value. -/
theorem slices_concat (last : ℕ) :
    slices data start (ends ++ [last]) = slices data start ends ++
      [(data.drop (stop start ends)).take (last - stop start ends)] := by
  induction ends generalizing start with
  | nil => rfl
  | cons next ends ih =>
    have hstop : stop start (next :: ends) = stop next ends := by
      unfold stop
      rw [List.getLast?_cons]
      rfl
    rw [List.cons_append, slices, slices, ih, hstop, List.cons_append]

theorem tight_empty : Tight ({} : Packed α) := ⟨rfl, by simp⟩

theorem Tight.append (h : p.Tight) : (p.append v).Tight := by
  constructor
  · simp [Packed.stop, Packed.append]
  · intro stop hstop
    rcases List.mem_append.mp hstop with hstop | hstop
    · have hle := h.le stop hstop
      simp only [Packed.append, List.length_append]
      omega
    · rw [List.mem_singleton.mp hstop]
      exact Nat.le_refl _

/-- The value comes after the others. -/
theorem Tight.decode_append (h : p.Tight) : (p.append v).decode = p.decode ++ [v] := by
  have hlast : ((p.data ++ v).drop p.data.length).take ((p.data ++ v).length - p.data.length)
      = v := by
    rw [List.drop_left, List.length_append, Nat.add_sub_cancel_left, List.take_length]
  simp only [decode, Packed.append]
  rw [slices_concat, slices_append_data h.le, h.stop, hlast]

end Packed

end Lib
