import Mathlib.Algebra.BigOperators.Group.Finset.Basic
import Mathlib.Algebra.Order.BigOperators.Group.Finset
import Mathlib.Data.Fintype.Basic

/-!
# Lib.FinTable — finite maps, and sums over a family with one changed member

A `FinTable` is a finite map with its set of keys; the invariant that ties the
two is a field. `total` adds up a weight over all entries, and so bounds their
number when every weight is positive (`size_le_total`).

The second half is about a family `s : ι → σ` of local states over a finite
index set, as a machine with several processes has: when one process moves, a
sum over all processes changes by that process's share only. `foldl_update` is about members
that are changed one after the other.
-/

universe u v w

namespace Lib

/-- A finite map from `κ` to `ν`. -/
structure FinTable (κ : Type u) (ν : Type v) where
  get : κ → Option ν
  keys : Finset κ
  mem_keys : ∀ k, k ∈ keys ↔ (get k).isSome

namespace FinTable

variable {κ : Type u} {ν : Type v}

/-- The table without entries. -/
def empty : FinTable κ ν where
  get := fun _ => none
  keys := ∅
  mem_keys := by simp

@[simp] theorem get_empty (k : κ) : (empty : FinTable κ ν).get k = none := rfl

theorem ext_get {t t' : FinTable κ ν} (h : ∀ k, t.get k = t'.get k) : t = t' := by
  have hget : t.get = t'.get := funext h
  have hkeys : t.keys = t'.keys := by
    ext k
    rw [t.mem_keys, t'.mem_keys, h]
  cases t
  cases t'
  cases hget
  cases hkeys
  rfl

/-- The number of entries. -/
def size (t : FinTable κ ν) : ℕ := t.keys.card

/-- The sum of a weight over all entries. -/
def total (t : FinTable κ ν) (f : ν → ℕ) : ℕ := ∑ k ∈ t.keys, (t.get k).elim 0 f

theorem mem_keys_of_get {t : FinTable κ ν} {k : κ} {v : ν} (h : t.get k = some v) :
    k ∈ t.keys := by
  simp [t.mem_keys, h]

theorem exists_get_of_mem {t : FinTable κ ν} {k : κ} (h : k ∈ t.keys) :
    ∃ v, t.get k = some v :=
  Option.isSome_iff_exists.mp ((t.mem_keys k).mp h)

theorem keys_eq_empty {t : FinTable κ ν} (h : ∀ k, t.get k = none) : t.keys = ∅ := by
  apply Finset.eq_empty_of_forall_notMem
  intro k hk
  simp [t.mem_keys, h k] at hk

/-- Entries of weight at least one are at most as many as the total weight. -/
theorem size_le_total (t : FinTable κ ν) (f : ν → ℕ)
    (hf : ∀ k v, t.get k = some v → 1 ≤ f v) : t.size ≤ t.total f := by
  unfold size total
  rw [Finset.card_eq_sum_ones]
  apply Finset.sum_le_sum
  intro k hk
  obtain ⟨v, hv⟩ := exists_get_of_mem hk
  simpa [hv] using hf k v hv

variable [DecidableEq κ]

/-- Add an entry or replace the one under the key. -/
def set (t : FinTable κ ν) (k : κ) (v : ν) : FinTable κ ν where
  get := Function.update t.get k (some v)
  keys := insert k t.keys
  mem_keys := by
    intro k'
    rcases eq_or_ne k' k with rfl | hne
    · simp
    · simp [hne, t.mem_keys]

/-- Remove the entry under a key, if there is one. -/
def erase (t : FinTable κ ν) (k : κ) : FinTable κ ν where
  get := Function.update t.get k none
  keys := t.keys.erase k
  mem_keys := by
    intro k'
    rcases eq_or_ne k' k with rfl | hne
    · simp
    · simp [hne, t.mem_keys]

@[simp] theorem get_set (t : FinTable κ ν) (k k' : κ) (v : ν) :
    (t.set k v).get k' = if k' = k then some v else t.get k' := by
  simp [set, Function.update_apply]

theorem get_set_self (t : FinTable κ ν) (k : κ) (v : ν) : (t.set k v).get k = some v := by
  simp

/-- Add an entry, unless there is one under the key. -/
def emplace (t : FinTable κ ν) (k : κ) (v : ν) : FinTable κ ν :=
  if (t.get k).isSome then t else t.set k v

theorem get_emplace (t : FinTable κ ν) (k k' : κ) (v : ν) :
    (t.emplace k v).get k' = (t.get k').or (if k' = k then some v else none) := by
  unfold emplace
  split
  · next h =>
    rcases eq_or_ne k' k with rfl | hne
    · rw [Option.or_of_isSome h]
    · rw [if_neg hne, Option.or_none]
  · next h =>
    rcases eq_or_ne k' k with rfl | hne
    · simp [Option.not_isSome_iff_eq_none.mp h]
    · simp [hne]

/-- After emplacing a list of entries the first one of a key counts. -/
theorem get_foldl_emplace (l : List (κ × ν)) (t : FinTable κ ν) (k : κ) :
    (l.foldl (fun t e => t.emplace e.1 e.2) t).get k =
      (t.get k).or ((l.find? fun e => e.1 = k).map Prod.snd) := by
  induction l generalizing t with
  | nil => simp
  | cons e l ih =>
    rw [List.foldl_cons, ih, get_emplace, Option.or_assoc]
    rcases eq_or_ne e.1 k with he | hne
    · simp [he]
    · simp [hne, Ne.symm hne]

@[simp] theorem get_erase (t : FinTable κ ν) (k k' : κ) :
    (t.erase k).get k' = if k' = k then none else t.get k' := by
  simp [erase, Function.update_apply]

end FinTable

/-! ## Sums over a family with one changed member -/

/-- Changing members one after the other, each once. -/
theorem foldl_update {ι : Type u} {σ : Type v} [DecidableEq ι] (g : ι → σ → σ) {is : List ι}
    (h : is.Nodup) (s : ι → σ) (j : ι) :
    is.foldl (fun s i => Function.update s i (g i (s i))) s j =
      if j ∈ is then g j (s j) else s j := by
  induction is generalizing s with
  | nil => rw [List.foldl_nil, if_neg List.not_mem_nil]
  | cons i is ih =>
    obtain ⟨hi, his⟩ := List.nodup_cons.mp h
    rw [List.foldl_cons, ih his]
    rcases eq_or_ne j i with rfl | hne
    · rw [if_neg hi, if_pos List.mem_cons_self, Function.update_self]
    · simp only [List.mem_cons, hne, false_or, Function.update_of_ne hne]

section Family

variable {ι : Type u} {σ : Type v} {M : Type w} [DecidableEq ι] [Fintype ι] [AddCommMonoid M]

/-- The share of all members but `i`. -/
def restSum (s : ι → σ) (f : σ → M) (i : ι) : M := ∑ j ∈ Finset.univ.erase i, f (s j)

theorem sum_eq_restSum (s : ι → σ) (f : σ → M) (i : ι) :
    ∑ j, f (s j) = restSum s f i + f (s i) := by
  rw [restSum, Finset.sum_erase_add _ _ (Finset.mem_univ i)]

@[simp] theorem restSum_update (s : ι → σ) (f : σ → M) (i : ι) (x : σ) :
    restSum (Function.update s i x) f i = restSum s f i := by
  unfold restSum
  apply Finset.sum_congr rfl
  intro j hj
  rw [Function.update_of_ne (Finset.ne_of_mem_erase hj)]

theorem sum_update_eq (s : ι → σ) (f : σ → M) (i : ι) (x : σ) :
    ∑ j, f (Function.update s i x j) = restSum s f i + f x := by
  have h := sum_eq_restSum (Function.update s i x) f i
  simpa using h

end Family

end Lib
