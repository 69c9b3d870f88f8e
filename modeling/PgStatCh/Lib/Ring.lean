import Mathlib.Data.Nat.Bitwise
import Mathlib.Data.Nat.ModEq
import Mathlib.Tactic.Linarith

/-!
# Lib.Ring — 64-bit positions of a ring whose capacity is a power of two

Producers and consumers of a ring count with free-running `uint64` counters that
wrap. `pos start n` is the value of a counter that started at `start` and was
incremented `n` times; all reasoning is about the unwrapped `n`. As long as two
counts are less than `2^64` apart, the wrapped difference is the real one, and as
long as they are less than the capacity apart, their slots differ.
-/

namespace Lib

/-- The value of a `uint64` counter that started at `start`, after `n` increments. -/
def pos (start : UInt64) (n : ℕ) : UInt64 := start + UInt64.ofNat n

/-- `position & (capacity - 1)`, the mask being a `uint32` that is widened. -/
def slotIndex (capacity : UInt32) (p : UInt64) : UInt64 := p &&& (capacity - 1).toUInt64

@[simp] theorem pos_zero (start : UInt64) : pos start 0 = start := by
  simp [pos]

theorem pos_succ (start : UInt64) (n : ℕ) : pos start n + 1 = pos start (n + 1) := by
  unfold pos
  rw [UInt64.ofNat_add, ← UInt64.add_assoc]
  rfl

theorem pos_toNat (start : UInt64) (n : ℕ) :
    (pos start n).toNat = (start.toNat + n) % 2 ^ 64 := by
  simp [pos, UInt64.toNat_add, UInt64.toNat_ofNat']

/-- The wrapped difference of two counters is the real one. -/
theorem pos_sub_toNat {start : UInt64} {k m : ℕ} (hkm : k ≤ m) (hlt : m - k < 2 ^ 64) :
    (pos start m - pos start k).toNat = m - k := by
  rw [UInt64.toNat_sub, pos_toNat, pos_toNat]
  omega

/-- What a full test `head - tail >= capacity` on two counters decides. -/
theorem le_pos_sub_iff {start : UInt64} {capacity : UInt32} {k m : ℕ} (hkm : k ≤ m)
    (hlt : m - k < 2 ^ 64) :
    capacity.toUInt64 ≤ pos start m - pos start k ↔ capacity.toNat ≤ m - k := by
  rw [UInt64.le_iff_toNat_le, pos_sub_toNat hkm hlt]
  simp

section PowerOfTwo

variable {capacity : UInt32} (hpow : ∃ j, capacity.toNat = 2 ^ j)

include hpow

theorem capacity_pos : 0 < capacity.toNat := by
  obtain ⟨j, hj⟩ := hpow
  rw [hj]
  exact Nat.two_pow_pos j

theorem exists_exponent_lt : ∃ j < 32, capacity.toNat = 2 ^ j := by
  obtain ⟨j, hj⟩ := hpow
  have hlt : 2 ^ j < 2 ^ 32 := by
    rw [← hj]
    exact capacity.toNat_lt
  exact ⟨j, (Nat.pow_lt_pow_iff_right (by decide)).mp hlt, hj⟩

/-- The largest power of two in a `uint32`. -/
theorem capacity_le : capacity.toNat ≤ 2 ^ 31 := by
  obtain ⟨j, hlt, hj⟩ := exists_exponent_lt hpow
  rw [hj]
  exact Nat.pow_le_pow_right (by decide) (by omega)

/-- The mask takes the remainder modulo the capacity. -/
theorem slotIndex_toNat (p : UInt64) :
    (slotIndex capacity p).toNat = p.toNat % capacity.toNat := by
  have hpos := capacity_pos hpow
  obtain ⟨j, hj⟩ := hpow
  have hmask : (capacity - 1).toNat = capacity.toNat - 1 := by
    rw [UInt32.toNat_sub_of_le _ _ (by rw [UInt32.le_iff_toNat_le]; exact hpos)]
    rfl
  simp only [slotIndex, UInt64.toNat_and, UInt32.toNat_toUInt64, hmask]
  rw [hj, Nat.and_two_pow_sub_one_eq_mod]

/-- The capacity divides `2^64`, so wrapping does not disturb the slot order. -/
theorem slotIndex_pos_toNat (start : UInt64) (n : ℕ) :
    (slotIndex capacity (pos start n)).toNat = (start.toNat + n) % capacity.toNat := by
  rw [slotIndex_toNat hpow, pos_toNat]
  obtain ⟨j, hlt, hj⟩ := exists_exponent_lt hpow
  rw [hj]
  exact Nat.mod_mod_of_dvd _ (Nat.pow_dvd_pow 2 (by omega))

/-- Counters less than a capacity apart are in different slots. -/
theorem slotIndex_ne {start : UInt64} {k m : ℕ} (hkm : k < m)
    (hlt : m - k < capacity.toNat) :
    slotIndex capacity (pos start m) ≠ slotIndex capacity (pos start k) := by
  intro heq
  have hmod : (start.toNat + m) % capacity.toNat = (start.toNat + k) % capacity.toNat := by
    rw [← slotIndex_pos_toNat hpow, ← slotIndex_pos_toNat hpow, heq]
  have hdvd : capacity.toNat ∣ (start.toNat + m) - (start.toNat + k) :=
    (Nat.modEq_iff_dvd' (by omega)).mp hmod.symm
  have hle := Nat.le_of_dvd (by omega) hdvd
  omega

end PowerOfTwo

end Lib
