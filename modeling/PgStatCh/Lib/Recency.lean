import Mathlib.Data.Finset.Card
import Mathlib.Data.List.Dedup
import Mathlib.Data.List.Nodup

/-!
# Lib.Recency — the order of last use

A history is the list of the keys in the order of their uses, the latest one first.
`recent` keeps each key once, at its last use, and `since h k` are the other keys used
since the last use of `k`. A store that keeps the `m` most recently used keys keeps
`(recent h).take m`; a key is in it when it was used at all and fewer than `m` other
keys were used since (`mem_take_recent`).
-/

universe u

namespace Lib

variable {κ : Type u} [DecidableEq κ]

/-! ## Lists -/

/-- A member of a list is among its first `m` members when fewer than `m` stand before
it. -/
theorem mem_take_iff_takeWhile (l : List κ) (k : κ) (m : ℕ) :
    k ∈ l.take m ↔ k ∈ l ∧ (l.takeWhile (· ≠ k)).length < m := by
  induction l generalizing m with
  | nil => simp
  | cons x l ih =>
    cases m with
    | zero => simp
    | succ m =>
      rw [List.take_succ_cons, List.mem_cons, List.mem_cons, ih m]
      rcases eq_or_ne x k with rfl | hne
      · simp
      · simp [hne, hne.symm]

/-- Erasing another key does not move the cut before `k`. -/
theorem takeWhile_erase {x k : κ} (hne : x ≠ k) (l : List κ) :
    (l.erase x).takeWhile (· ≠ k) = (l.takeWhile (· ≠ k)).erase x := by
  induction l with
  | nil => rfl
  | cons y l ih =>
    rcases eq_or_ne y x with rfl | hyx
    · simp [hne]
    · rw [List.erase_cons_tail (by simpa using hyx)]
      rcases eq_or_ne y k with rfl | hyk
      · simp
      · rw [List.takeWhile_cons_of_pos (by simpa using hyk),
          List.takeWhile_cons_of_pos (by simpa using hyk),
          List.erase_cons_tail (by simpa using hyx), ih]

/-- What is behind the first `n + 1` members does not move into the first `n`, when one
member is taken out. -/
theorem take_erase_take (l : List κ) (k : κ) (n : ℕ) :
    ((l.take (n + 1)).erase k).take n = (l.erase k).take n := by
  induction l generalizing n with
  | nil => rfl
  | cons x l ih =>
    rw [List.take_succ_cons]
    rcases eq_or_ne x k with rfl | hne
    · simp
    · rw [List.erase_cons_tail (by simpa using hne), List.erase_cons_tail (by simpa using hne)]
      cases n with
      | zero => rfl
      | succ n => rw [List.take_succ_cons, List.take_succ_cons, ih n]

/-- Erasing the last of distinct members cuts it off. -/
theorem erase_getLast {l : List κ} (hnodup : l.Nodup) (hne : l ≠ []) :
    l.erase (l.getLast hne) = l.dropLast := by
  have hl := List.dropLast_append_getLast hne
  have hnotin : l.getLast hne ∉ l.dropLast := by
    intro hmem
    rw [← hl, List.nodup_append] at hnodup
    exact hnodup.2.2 _ hmem _ List.mem_cons_self rfl
  have herase := List.erase_append_right [l.getLast hne] hnotin
  rw [hl] at herase
  simpa using herase

/-! ## Histories -/

/-- The keys of a history, each once, in the order of their last use. -/
def recent : List κ → List κ
  | [] => []
  | k :: h => k :: (recent h).erase k

theorem mem_recent {h : List κ} {k : κ} : k ∈ recent h ↔ k ∈ h := by
  induction h with
  | nil => exact Iff.rfl
  | cons x h ih =>
    rw [recent, List.mem_cons, List.mem_cons]
    rcases eq_or_ne k x with rfl | hne
    · simp
    · rw [List.mem_erase_of_ne hne, ih]

theorem nodup_recent (h : List κ) : (recent h).Nodup := by
  induction h with
  | nil => exact List.nodup_nil
  | cons x h ih => exact List.nodup_cons.mpr ⟨ih.not_mem_erase, ih.erase x⟩

/-- The other keys used since the last use of `k`. -/
def since (h : List κ) (k : κ) : Finset κ := (h.takeWhile (· ≠ k)).toFinset

theorem toFinset_takeWhile_recent (h : List κ) (k : κ) :
    ((recent h).takeWhile (· ≠ k)).toFinset = since h k := by
  induction h with
  | nil => rfl
  | cons x h ih =>
    unfold since at ih ⊢
    rcases eq_or_ne x k with rfl | hne
    · simp [recent]
    · rw [recent, List.takeWhile_cons_of_pos (by simpa using hne),
        List.takeWhile_cons_of_pos (by simpa using hne), takeWhile_erase hne,
        List.toFinset_cons, List.toFinset_cons, ← ih]
      ext y
      rcases eq_or_ne y x with rfl | hyx
      · simp
      · simp only [Finset.mem_insert, hyx, false_or, List.mem_toFinset]
        rw [List.mem_erase_of_ne hyx]

/-- Who is among the `m` most recently used. -/
theorem mem_take_recent {h : List κ} {k : κ} {m : ℕ} :
    k ∈ (recent h).take m ↔ k ∈ h ∧ (since h k).card < m := by
  have hnodup : ((recent h).takeWhile (· ≠ k)).Nodup :=
    (nodup_recent h).sublist (List.takeWhile_sublist _)
  rw [mem_take_iff_takeWhile, mem_recent, ← toFinset_takeWhile_recent,
    List.toFinset_card_of_nodup hnodup]

/-- One more use: the key comes to the front, and the last one may go. -/
theorem take_recent_cons (h : List κ) (k : κ) (m : ℕ) :
    (recent (k :: h)).take m = (k :: ((recent h).take m).erase k).take m := by
  cases m with
  | zero => rfl
  | succ n => rw [recent, List.take_succ_cons, List.take_succ_cons, take_erase_take]

/-- The use of a key that is among the `m` most recent ones drives no other out. -/
theorem take_recent_cons_of_mem {h : List κ} {k : κ} {m : ℕ} (hk : k ∈ (recent h).take m) :
    (recent (k :: h)).take m = k :: ((recent h).take m).erase k := by
  rw [take_recent_cons, List.take_of_length_le]
  have hlen := List.length_erase_of_mem hk
  have hpos := List.length_pos_of_mem hk
  have hle := List.length_take_le m (recent h)
  simp only [List.length_cons]
  omega

end Lib
