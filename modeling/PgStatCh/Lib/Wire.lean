import Mathlib.Tactic.Linarith
import Mathlib.Data.Nat.Basic

/-!
# Lib.Wire — the protocol buffer wire format

The encoding of fields: a tag, then a varint, eight bytes, or a length and that many bytes. What
is proved here is how long encodings are. A length prefix grows with what it precedes, by one
byte for every seven bits (`length_varint_le`); for nested messages of unbounded size
`length_varint_le_add` says that it never grows by more than a small share of it.
-/

namespace Lib

namespace Wire

/-- A number, seven bits to a byte, the lowest first. -/
def varint (n : ℕ) : List UInt8 :=
  if n < 128 then [UInt8.ofNat n] else UInt8.ofNat (n % 128 + 128) :: varint (n / 128)

theorem length_varint_of_lt {n : ℕ} (h : n < 128) : (varint n).length = 1 := by
  rw [varint, if_pos h, List.length_singleton]

theorem length_varint_of_le {n : ℕ} (h : 128 ≤ n) :
    (varint n).length = (varint (n / 128)).length + 1 := by
  rw [varint, if_neg (Nat.not_lt.mpr h), List.length_cons]

/-- A number of `7 * (k + 1)` bits takes at most `k + 1` bytes. -/
theorem length_varint_le {n k : ℕ} (h : n < 128 ^ (k + 1)) : (varint n).length ≤ k + 1 := by
  induction k generalizing n with
  | zero =>
    rw [length_varint_of_lt (by simpa using h)]
  | succ k ih =>
    rcases Nat.lt_or_ge n 128 with hlt | hge
    · rw [length_varint_of_lt hlt]
      omega
    · rw [length_varint_of_le hge]
      have hdiv : n / 128 < 128 ^ (k + 1) := by
        rw [Nat.div_lt_iff_lt_mul (by decide), ← pow_succ]
        exact h
      exact Nat.succ_le_succ (ih hdiv)

theorem length_varint_le_self (n : ℕ) : (varint n).length ≤ n + 1 := by
  induction n using Nat.strong_induction_on with
  | _ n ih =>
    rcases Nat.lt_or_ge n 128 with hlt | hge
    · rw [length_varint_of_lt hlt]
      omega
    · rw [length_varint_of_le hge]
      have hrec := ih (n / 128) (Nat.div_lt_self (by omega) (by decide))
      omega

/-- Beyond `7 * k` bits, at most one more byte for every `128 ^ k`. -/
theorem length_varint_le_add (n k : ℕ) : (varint n).length ≤ k + 1 + n / 128 ^ k := by
  induction k generalizing n with
  | zero =>
    have hself := length_varint_le_self n
    rw [pow_zero, Nat.div_one]
    omega
  | succ k ih =>
    rcases Nat.lt_or_ge n 128 with hlt | hge
    · rw [length_varint_of_lt hlt]
      exact Nat.le_trans (Nat.le_add_left 1 (k + 1)) (Nat.le_add_right _ _)
    · have hrec := ih (n / 128)
      rw [Nat.div_div_eq_div_mul, ← pow_succ'] at hrec
      rw [length_varint_of_le hge]
      omega

/-! ## Fields -/

/-- The tag of a field: its number and how its value is encoded. -/
def tag (field wireType : ℕ) : List UInt8 := varint (8 * field + wireType)

def varintField (field n : ℕ) : List UInt8 := tag field 0 ++ varint n

def fixed64Field (field : ℕ) (v : UInt64) : List UInt8 :=
  tag field 1 ++ (List.range 8).map fun i => UInt8.ofNat (v.toNat / 256 ^ i)

/-- A string, bytes, or an embedded message. -/
def delimitedField (field : ℕ) (payload : List UInt8) : List UInt8 :=
  tag field 2 ++ varint payload.length ++ payload

/-- A string or number that is left out when it has its default value. -/
def unlessDefault (isDefault : Bool) (encoded : List UInt8) : List UInt8 :=
  if isDefault then [] else encoded

theorem length_tag {field wireType : ℕ} (h : field < 16) (hw : wireType < 8) :
    (tag field wireType).length = 1 :=
  length_varint_of_lt (by omega)

theorem length_varintField {field : ℕ} (h : field < 16) (n : ℕ) :
    (varintField field n).length = 1 + (varint n).length := by
  rw [varintField, List.length_append, length_tag h (by decide)]

theorem length_fixed64Field {field : ℕ} (h : field < 16) (v : UInt64) :
    (fixed64Field field v).length = 9 := by
  rw [fixed64Field, List.length_append, length_tag h (by decide), List.length_map,
    List.length_range]

theorem length_delimitedField {field : ℕ} (h : field < 16) (payload : List UInt8) :
    (delimitedField field payload).length =
      1 + (varint payload.length).length + payload.length := by
  rw [delimitedField, List.length_append, List.length_append, length_tag h (by decide)]

theorem length_unlessDefault_le (isDefault : Bool) (encoded : List UInt8) :
    (unlessDefault isDefault encoded).length ≤ encoded.length := by
  unfold unlessDefault
  split
  · exact Nat.zero_le _
  · exact Nat.le_refl _

/-- A number of 64 bits takes at most ten bytes. -/
theorem length_varint_uint64 (v : UInt64) : (varint v.toNat).length ≤ 10 := by
  apply length_varint_le
  have hlt := v.toNat_lt
  have hpow : (2 : ℕ) ^ 64 ≤ 128 ^ 10 := by decide
  omega

end Wire

end Lib
