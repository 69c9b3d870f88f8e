import Mathlib.Data.List.Basic

/-!
# Lib.Greedy — cutting a list into chunks, greedily

A list is cut into consecutive chunks: items are added to the chunk at hand as long as it is not
full. Whether a full chunk is closed at once or when the next item comes makes no difference
(`greedyFrom_of_full`). The chunks are the list again when put together, none is empty, none is
full without its last item, and all but the last are full.

`acceptedUpTo` is how far a sender gets that sends the chunks one after the other and stops at
the first one that is not accepted.
-/

universe u

namespace Lib

variable {α : Type u} {full : List α → Bool}

/-- The chunks of `acc ++ xs`, with `acc` the chunk at hand. -/
def greedyFrom (full : List α → Bool) : List α → List α → List (List α)
  | [], [] => []
  | acc@(_ :: _), [] => [acc]
  | acc, x :: xs => if full acc then acc :: greedyFrom full [x] xs else greedyFrom full (acc ++ [x]) xs

/-- The chunks of a list. -/
def greedy (full : List α → Bool) (xs : List α) : List (List α) := greedyFrom full [] xs

theorem greedyFrom_nil {acc : List α} (h : acc ≠ []) : greedyFrom full acc [] = [acc] := by
  cases acc with
  | nil => exact absurd rfl h
  | cons a acc => rfl

theorem greedyFrom_cons_of_full {acc : List α} (h : full acc = true) (x : α) (xs : List α) :
    greedyFrom full acc (x :: xs) = acc :: greedyFrom full [x] xs := by
  rw [greedyFrom, if_pos h]

theorem greedyFrom_cons_of_not_full {acc : List α} (h : full acc = false) (x : α) (xs : List α) :
    greedyFrom full acc (x :: xs) = greedyFrom full (acc ++ [x]) xs := by
  rw [greedyFrom, h, if_neg Bool.false_ne_true]

/-- A full chunk may be closed before the next item is seen. -/
theorem greedyFrom_of_full (hnil : full [] = false) {acc : List α} (hne : acc ≠ [])
    (h : full acc = true) (xs : List α) :
    greedyFrom full acc xs = acc :: greedy full xs := by
  cases xs with
  | nil => rw [greedyFrom_nil hne, greedy, greedyFrom]
  | cons x xs =>
    rw [greedyFrom_cons_of_full h, greedy, greedyFrom_cons_of_not_full hnil, List.nil_append]

theorem flatten_greedyFrom (acc xs : List α) : (greedyFrom full acc xs).flatten = acc ++ xs := by
  induction xs generalizing acc with
  | nil =>
    cases acc with
    | nil => rfl
    | cons a acc => rw [greedyFrom_nil (List.cons_ne_nil _ _)]; simp
  | cons x xs ih =>
    cases h : full acc with
    | true => rw [greedyFrom_cons_of_full h, List.flatten_cons, ih, List.singleton_append]
    | false => rw [greedyFrom_cons_of_not_full h, ih, List.append_assoc, List.singleton_append]

/-- The chunks together are the list. -/
theorem flatten_greedy (xs : List α) : (greedy full xs).flatten = xs := flatten_greedyFrom [] xs

theorem mem_greedyFrom (hnil : full [] = false) {acc xs : List α}
    (hacc : acc ≠ [] → full acc.dropLast = false) :
    ∀ c ∈ greedyFrom full acc xs, c ≠ [] ∧ full c.dropLast = false := by
  induction xs generalizing acc with
  | nil =>
    cases acc with
    | nil => intro c hc; exact absurd hc List.not_mem_nil
    | cons a acc =>
      rw [greedyFrom_nil (List.cons_ne_nil _ _)]
      intro c hc
      rw [List.mem_singleton.mp hc]
      exact ⟨List.cons_ne_nil _ _, hacc (List.cons_ne_nil _ _)⟩
  | cons x xs ih =>
    cases h : full acc with
    | true =>
      have hne : acc ≠ [] := by
        rintro rfl
        rw [hnil] at h
        cases h
      rw [greedyFrom_cons_of_full h]
      intro c hc
      rcases List.mem_cons.mp hc with rfl | hc
      · exact ⟨hne, hacc hne⟩
      · have hone : [x] ≠ [] → full [x].dropLast = false := fun _ => hnil
        exact ih hone c hc
    | false =>
      rw [greedyFrom_cons_of_not_full h]
      refine ih fun _ => ?_
      rw [List.dropLast_concat]
      exact h

/-- No chunk is empty, and none is full without its last item. -/
theorem mem_greedy (hnil : full [] = false) {xs c : List α} (hc : c ∈ greedy full xs) :
    c ≠ [] ∧ full c.dropLast = false :=
  mem_greedyFrom hnil (fun h => absurd rfl h) c hc

/-- All chunks but the last are full. -/
theorem full_of_mem_dropLast {acc xs : List α} :
    ∀ c ∈ (greedyFrom full acc xs).dropLast, full c = true := by
  induction xs generalizing acc with
  | nil =>
    cases acc with
    | nil => intro c hc; exact absurd hc List.not_mem_nil
    | cons a acc => intro c hc; exact absurd hc List.not_mem_nil
  | cons x xs ih =>
    cases h : full acc with
    | true =>
      rw [greedyFrom_cons_of_full h]
      intro c hc
      rcases eq_or_ne (greedyFrom full [x] xs) [] with hlast | hmore
      · rw [hlast] at hc
        exact absurd hc List.not_mem_nil
      · rw [List.dropLast_cons_of_ne_nil hmore] at hc
        rcases List.mem_cons.mp hc with rfl | hc
        · exact h
        · exact ih c hc
    | false =>
      rw [greedyFrom_cons_of_not_full h]
      exact ih

/-- All chunks sent but the last are full, when some of them were sent. -/
theorem full_of_mem_dropLast_of_isPrefix {xs c : List α} {sent : List (List α)}
    (h : sent <+: greedy full xs) (hc : c ∈ sent.dropLast) : full c = true := by
  obtain ⟨rest, heq⟩ := h
  have hall : ∀ c ∈ (greedy full xs).dropLast, full c = true := full_of_mem_dropLast
  apply hall
  rw [← heq]
  rcases eq_or_ne rest [] with rfl | hne
  · rwa [List.append_nil]
  · rw [List.dropLast_append_of_ne_nil hne]
    exact List.mem_append_left _ (List.dropLast_subset _ hc)

/-! ## Sending the chunks -/

section Sending

variable {ok : ℕ → Bool}

/-- How many of `n` requests, numbered from `j` on, are accepted, when sending stops at the first
one that is not. -/
def acceptedUpTo (ok : ℕ → Bool) : ℕ → ℕ → ℕ
  | _, 0 => 0
  | j, n + 1 => if ok j then acceptedUpTo ok (j + 1) n + 1 else 0

theorem acceptedUpTo_le (j n : ℕ) : acceptedUpTo ok j n ≤ n := by
  induction n generalizing j with
  | zero => exact Nat.le_refl 0
  | succ n ih =>
    rw [acceptedUpTo]
    split
    · exact Nat.succ_le_succ (ih _)
    · exact Nat.zero_le _

theorem ok_of_lt_acceptedUpTo {i j n : ℕ} (hi : i < acceptedUpTo ok j n) : ok (j + i) = true := by
  induction n generalizing i j with
  | zero => exact absurd hi (Nat.not_lt_zero i)
  | succ n ih =>
    rw [acceptedUpTo] at hi
    split at hi
    · next hj =>
      cases i with
      | zero => exact hj
      | succ i =>
        rw [Nat.add_comm i, ← Nat.add_assoc]
        exact ih (Nat.lt_of_succ_lt_succ hi)
    · exact absurd hi (Nat.not_lt_zero i)

theorem not_ok_acceptedUpTo {j n : ℕ} (h : acceptedUpTo ok j n < n) :
    ok (j + acceptedUpTo ok j n) = false := by
  induction n generalizing j with
  | zero => exact absurd h (Nat.not_lt_zero _)
  | succ n ih =>
    rw [acceptedUpTo] at h ⊢
    split at h
    · next hj =>
      rw [if_pos hj, Nat.add_comm _ 1, ← Nat.add_assoc]
      exact ih (Nat.lt_of_succ_lt_succ h)
    · next hj =>
      rw [if_neg hj]
      exact Bool.eq_false_iff.mpr hj

/-- Where the sending stops is determined by what is accepted. -/
theorem acceptedUpTo_eq {j k n : ℕ} (hk : k ≤ n) (hok : ∀ i < k, ok (j + i) = true)
    (hstop : k < n → ok (j + k) = false) : acceptedUpTo ok j n = k := by
  rcases Nat.lt_trichotomy (acceptedUpTo ok j n) k with hlt | heq | hgt
  · have hfalse := not_ok_acceptedUpTo (Nat.lt_of_lt_of_le hlt hk)
    rw [hok _ hlt] at hfalse
    cases hfalse
  · exact heq
  · have hfalse := hstop (Nat.lt_of_lt_of_le hgt (acceptedUpTo_le j n))
    rw [ok_of_lt_acceptedUpTo hgt] at hfalse
    cases hfalse

end Sending

end Lib
