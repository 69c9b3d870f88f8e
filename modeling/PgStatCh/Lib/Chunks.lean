import Mathlib.Data.List.Basic

/-!
# Lib.Chunks — two texts put together from chunks

`xs.flatMap f` and `xs.flatMap g` are two texts with the same plan `xs` and different
chunks. Their first `n` characters agree when the first chunk that differs does so
behind them, and, unless one of two differing chunks is a prefix of the other, only
then.
-/

universe u v

namespace Lib

variable {α : Type u} [DecidableEq α] {ι : Type v}

/-- How far two texts agree. -/
def commonLen : List α → List α → ℕ
  | a :: as, b :: bs => if a = b then commonLen as bs + 1 else 0
  | _, _ => 0

theorem commonLen_le_left (as bs : List α) : commonLen as bs ≤ as.length := by
  induction as generalizing bs with
  | nil => simp [commonLen]
  | cons a as ih =>
    cases bs with
    | nil => simp [commonLen]
    | cons b bs =>
      rw [commonLen]
      split
      · exact Nat.succ_le_succ (ih bs)
      · exact Nat.zero_le _

theorem take_append_of_le_commonLen {n : ℕ} {as bs : List α} (h : n ≤ commonLen as bs)
    (x y : List α) : (as ++ x).take n = (bs ++ y).take n := by
  induction as generalizing bs n with
  | nil =>
    have hn : n = 0 := by simpa [commonLen] using h
    simp [hn]
  | cons a as ih =>
    cases bs with
    | nil =>
      have hn : n = 0 := by simpa [commonLen] using h
      simp [hn]
    | cons b bs =>
      rw [commonLen] at h
      split at h
      · next hab =>
        subst hab
        cases n with
        | zero => simp
        | succ n => simpa using ih (Nat.le_of_succ_le_succ h)
      · have hn : n = 0 := by omega
        simp [hn]

/-- Two texts neither of which begins with the other differ where they stop agreeing. -/
theorem le_commonLen_of_take_append {n : ℕ} {as bs x y : List α} (has : ¬ as <+: bs)
    (hbs : ¬ bs <+: as) (h : (as ++ x).take n = (bs ++ y).take n) : n ≤ commonLen as bs := by
  induction as generalizing bs n with
  | nil => exact absurd List.nil_prefix has
  | cons a as ih =>
    cases bs with
    | nil => exact absurd List.nil_prefix hbs
    | cons b bs =>
      cases n with
      | zero => exact Nat.zero_le _
      | succ n =>
        simp only [List.cons_append, List.take_succ_cons, List.cons.injEq] at h
        obtain ⟨rfl, h⟩ := h
        rw [commonLen, if_pos rfl]
        refine Nat.succ_le_succ (ih ?_ ?_ h)
        · exact fun hpre => has ((List.prefix_cons_inj a).mpr hpre)
        · exact fun hpre => hbs ((List.prefix_cons_inj a).mpr hpre)

section Plans

variable {f g : ι → List α} {xs : List ι} {n : ℕ}

/-- Chunk `i` is the same in both texts up to character `n` of the text. -/
def AgreesTo (f g : ι → List α) (n : ℕ) (before : List ι) (i : ι) : Prop :=
  f i ≠ g i → n ≤ (before.flatMap f).length + commonLen (f i) (g i)

theorem take_flatMap_congr
    (h : ∀ pre i post, xs = pre ++ i :: post → AgreesTo f g n pre i) :
    (xs.flatMap f).take n = (xs.flatMap g).take n := by
  induction xs generalizing n with
  | nil => rfl
  | cons i xs ih =>
    rw [List.flatMap_cons, List.flatMap_cons]
    by_cases hi : f i = g i
    · rw [← hi, List.take_append, List.take_append, ih]
      intro pre j post hxs hj
      have hle := h (i :: pre) j post (by rw [hxs]; rfl) hj
      rw [List.flatMap_cons, List.length_append] at hle
      omega
    · have hle := h [] i xs rfl hi
      rw [List.flatMap_nil, List.length_nil, Nat.zero_add] at hle
      exact take_append_of_le_commonLen hle _ _

theorem agreesTo_of_take_flatMap
    (hfree : ∀ i ∈ xs, f i = g i ∨ ¬ f i <+: g i ∧ ¬ g i <+: f i)
    (h : (xs.flatMap f).take n = (xs.flatMap g).take n) :
    ∀ pre i post, xs = pre ++ i :: post → AgreesTo f g n pre i := by
  induction xs generalizing n with
  | nil => intro pre i post hxs; simp at hxs
  | cons j xs ih =>
    intro pre i post hxs hi
    rw [List.flatMap_cons, List.flatMap_cons] at h
    -- behind a chunk that differs nothing matters
    have hdiffer : f j ≠ g j → n ≤ commonLen (f j) (g j) := by
      intro hj
      rcases hfree j List.mem_cons_self with heq | ⟨hfg, hgf⟩
      · exact absurd heq hj
      · exact le_commonLen_of_take_append hfg hgf h
    cases pre with
    | nil =>
      cases hxs
      exact Nat.le_trans (hdiffer hi) (Nat.le_add_left _ _)
    | cons k pre =>
      cases hxs
      rw [List.flatMap_cons, List.length_append]
      by_cases hj : f j = g j
      · rw [← hj, List.take_append, List.take_append, List.append_cancel_left_eq] at h
        have hle := ih (fun i hi => hfree i (List.mem_cons_of_mem _ hi)) h pre i post rfl hi
        omega
      · have hle := Nat.le_trans (hdiffer hj) (commonLen_le_left _ _)
        omega

end Plans

end Lib
