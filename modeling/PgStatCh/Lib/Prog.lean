import Mathlib.Logic.Basic

/-!
# Lib.Prog — pre- and postconditions for programs that may throw

Programs in `EStateM ε σ`: they work on a state `σ`, and when they throw, the state
is the one they had reached. `wp x Q E s` says that from `s` the program `x` either
returns with `Q` or throws with `E`; since programs are total functions this is total
correctness. The rules below take a program apart along its `do` block; a loop is
handled by induction over the list it runs through.
-/

universe u

namespace Lib

namespace Prog

variable {ε σ α β : Type u} {Q : α → σ → Prop} {E : ε → σ → Prop} {s : σ}

/-- `x` returns with `Q` or throws with `E`. -/
def wp (x : EStateM ε σ α) (Q : α → σ → Prop) (E : ε → σ → Prop) (s : σ) : Prop :=
  match x s with
  | .ok a s' => Q a s'
  | .error e s' => E e s'

theorem wp_of_ok {x : EStateM ε σ α} {a : α} {s' : σ} (hx : x s = .ok a s') (h : wp x Q E s) :
    Q a s' := by
  rw [wp, hx] at h
  exact h

theorem wp_iff_of_ok {x : EStateM ε σ α} {a : α} {s' : σ} (hx : x s = .ok a s') :
    wp x Q E s ↔ Q a s' := by
  rw [wp, hx]

theorem wp_of_error {x : EStateM ε σ α} {e : ε} {s' : σ} (hx : x s = .error e s')
    (h : wp x Q E s) : E e s' := by
  rw [wp, hx] at h
  exact h

/-- A program that never throws returns. -/
theorem exists_ok {x : EStateM ε σ α} (h : wp x Q (fun _ _ => False) s) :
    ∃ a s', x s = .ok a s' := by
  unfold wp at h
  split at h
  · next a s' hx => exact ⟨a, s', hx⟩
  · exact h.elim

/-- What a program returns, if it does, and what `f` sees of the state then: all that is needed of a
run that is evaluated. -/
def returns (x : EStateM ε σ α) (f : σ → β) (s : σ) : Option (α × β) :=
  match x s with
  | .ok a s' => some (a, f s')
  | .error _ _ => none

theorem ok_of_returns {x : EStateM ε σ α} {f : σ → β} {a : α} {b : β}
    (h : returns x f s = some (a, b)) : ∃ s', x s = .ok a s' ∧ f s' = b := by
  unfold returns at h
  split at h
  · next a' s' hx =>
    cases h
    exact ⟨s', hx, rfl⟩
  · cases h

/-- A program that can only return one value in one state does so. -/
theorem eq_ok {x : EStateM ε σ α} {a : α} {s' : σ}
    (h : wp x (fun b t => b = a ∧ t = s') (fun _ _ => False) s) : x s = .ok a s' := by
  obtain ⟨b, t, hx⟩ := exists_ok h
  obtain ⟨rfl, rfl⟩ := wp_of_ok hx h
  exact hx

/-- A program that can only throw throws. -/
theorem exists_error {x : EStateM ε σ α} (h : wp x (fun _ _ => False) E s) :
    ∃ e s', x s = .error e s' ∧ E e s' := by
  unfold wp at h
  split at h
  · exact h.elim
  · next e s' hx => exact ⟨e, s', hx, h⟩

@[simp] theorem wp_pure (a : α) : wp (pure a : EStateM ε σ α) Q E s = Q a s := rfl

@[simp] theorem wp_bind (x : EStateM ε σ β) (f : β → EStateM ε σ α) :
    wp (x >>= f) Q E s = wp x (fun b => wp (f b) Q E) E s := by
  simp only [wp, bind, EStateM.bind]
  cases x s <;> rfl

@[simp] theorem wp_get {Q : σ → σ → Prop} : wp (get : EStateM ε σ σ) Q E s = Q s s := rfl

@[simp] theorem wp_modify {Q : PUnit → σ → Prop} (f : σ → σ) :
    wp (modify f : EStateM ε σ PUnit) Q E s = Q ⟨⟩ (f s) := rfl

@[simp] theorem wp_throw (e : ε) : wp (throw e : EStateM ε σ α) Q E s = E e s := rfl

/-- What the handler does with an exception decides. -/
@[simp] theorem wp_tryCatch (x : EStateM ε σ α) (handle : ε → EStateM ε σ α) :
    wp (tryCatch x handle) Q E s = wp x Q (fun e => wp (handle e) Q E) s := by
  simp only [wp, tryCatch, tryCatchThe, MonadExceptOf.tryCatch]
  delta EStateM.tryCatch
  cases x s <;> rfl

/-- Consequence. -/
theorem wp_mono {x : EStateM ε σ α} {Q' : α → σ → Prop} {E' : ε → σ → Prop} (h : wp x Q E s)
    (hQ : ∀ a s', Q a s' → Q' a s') (hE : ∀ e s', E e s' → E' e s') : wp x Q' E' s := by
  unfold wp at h ⊢
  split at h
  · exact hQ _ _ h
  · exact hE _ _ h

/-- Two things that are known of a program hold together. -/
theorem wp_and {x : EStateM ε σ α} {Q' : α → σ → Prop} {E' : ε → σ → Prop} (h : wp x Q E s)
    (h' : wp x Q' E' s) :
    wp x (fun a s' => Q a s' ∧ Q' a s') (fun e s' => E e s' ∧ E' e s') s := by
  unfold wp at h h' ⊢
  cases hx : x s with
  | ok a s' =>
    rw [hx] at h h'
    exact ⟨h, h'⟩
  | error e s' =>
    rw [hx] at h h'
    exact ⟨h, h'⟩

/-- `M` holds of what the body throws, and the handler goes on from there. -/
theorem wp_catch {x : EStateM ε σ α} {handle : ε → EStateM ε σ α} {M : ε → σ → Prop}
    (hx : wp x Q M s) (hhandle : ∀ e s', M e s' → wp (handle e) Q E s') :
    wp (tryCatch x handle) Q E s := by
  rw [wp_tryCatch]
  exact wp_mono hx (fun _ _ => id) hhandle

/-- What holds of the last part from any state holds of the whole. -/
theorem wp_bind_last {x : EStateM ε σ β} {f : β → EStateM ε σ α}
    (h : ∀ b s', wp (f b) Q (fun _ _ => True) s') : wp (x >>= f) Q (fun _ _ => True) s := by
  rw [wp_bind, wp]
  split
  · exact h _ _
  · trivial

end Prog

end Lib
