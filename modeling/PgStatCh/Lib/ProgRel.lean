import PgStatCh.Lib.Prog

/-!
# Lib.ProgRel — two programs that end alike

`rel x y Q E s t` says that `x` from `s` and `y` from `t` both return, with `Q`, or both throw the
same exception, with `E`. The rules take both programs apart in step; where one of them takes a
longer way than the other, `rel_of_wp` puts together what is known of each.
-/

universe u

namespace Lib

namespace Prog

variable {ε σ τ α β γ δ : Type u} {Q : α → β → σ → τ → Prop} {E : ε → σ → τ → Prop}
  {s : σ} {t : τ} {x : EStateM ε σ α} {y : EStateM ε τ β}

/-- `x` and `y` return with `Q`, or throw the same with `E`. -/
def rel (x : EStateM ε σ α) (y : EStateM ε τ β) (Q : α → β → σ → τ → Prop)
    (E : ε → σ → τ → Prop) (s : σ) (t : τ) : Prop :=
  wp x (fun a s' => wp y (fun b t' => Q a b s' t') (fun _ _ => False) t)
    (fun e s' => wp y (fun _ _ => False) (fun e' t' => e = e' ∧ E e s' t') t) s

theorem rel_of_wp {P : α → σ → Prop} {F : ε → σ → Prop} (hx : wp x P F s)
    (hok : ∀ a s', P a s' → wp y (fun b t' => Q a b s' t') (fun _ _ => False) t)
    (herror : ∀ e s', F e s' → wp y (fun _ _ => False) (fun e' t' => e = e' ∧ E e s' t') t) :
    rel x y Q E s t :=
  wp_mono hx hok herror

theorem rel_modify {Q : PUnit → PUnit → σ → τ → Prop} {f : σ → σ} {g : τ → τ}
    (h : Q ⟨⟩ ⟨⟩ (f s) (g t)) :
    rel (modify f : EStateM ε σ PUnit) (modify g : EStateM ε τ PUnit) Q E s t := h

theorem rel_bind {f : α → EStateM ε σ γ} {g : β → EStateM ε τ δ} {R : γ → δ → σ → τ → Prop}
    {P : α → β → σ → τ → Prop} (h : rel x y P E s t)
    (hnext : ∀ a b s' t', P a b s' t' → rel (f a) (g b) R E s' t') :
    rel (x >>= f) (y >>= g) R E s t := by
  unfold rel at h ⊢
  rw [wp_bind]
  refine wp_mono h ?_ ?_
  · intro a s' ha
    obtain ⟨b, t', hy⟩ := exists_ok ha
    have hab := wp_of_ok hy ha
    refine wp_mono (hnext a b s' t' hab) ?_ ?_
    · intro c s'' hc
      rw [wp_bind, wp_iff_of_ok hy]
      exact hc
    · intro e s'' he
      rw [wp_bind, wp_iff_of_ok hy]
      exact he
  · intro e s' he
    rw [wp_bind]
    exact wp_mono he (fun _ _ hfalse => hfalse.elim) fun _ _ => id

/-- The first program goes on where the second has ended. -/
theorem rel_bind_left {f : α → EStateM ε σ γ} {R : γ → β → σ → τ → Prop}
    {P : α → β → σ → τ → Prop} (h : rel x y P E s t)
    (hnext : ∀ a b s' t', P a b s' t' → rel (f a) (pure b : EStateM ε τ β) R E s' t') :
    rel (x >>= f) y R E s t := by
  have hbind := rel_bind (g := pure) h hnext
  rwa [bind_pure] at hbind

theorem rel_get_bind {f : σ → EStateM ε σ γ} {g : τ → EStateM ε τ δ}
    {R : γ → δ → σ → τ → Prop} (h : rel (f s) (g t) R E s t) :
    rel (get >>= f) (get >>= g) R E s t := h

theorem rel_get_left {f : σ → EStateM ε σ α} (h : rel (f s) y Q E s t) :
    rel (get >>= f) y Q E s t := h

theorem rel_get_right {g : τ → EStateM ε τ β} (h : rel x (g t) Q E s t) :
    rel x (get >>= g) Q E s t := h

theorem rel_modify_left {f : σ → σ} {k : PUnit → EStateM ε σ α}
    (h : rel (k ⟨⟩) y Q E (f s) t) : rel (modify f >>= k) y Q E s t := h

theorem rel_modify_right {g : τ → τ} {k : PUnit → EStateM ε τ β}
    (h : rel x (k ⟨⟩) Q E s (g t)) : rel x (modify g >>= k) Q E s t := h

theorem rel_tryCatch {handle : ε → EStateM ε σ α} {handle' : ε → EStateM ε τ β}
    {F : ε → σ → τ → Prop} (h : rel x y Q F s t)
    (hhandle : ∀ e s' t', F e s' t' → rel (handle e) (handle' e) Q E s' t') :
    rel (tryCatch x handle) (tryCatch y handle') Q E s t := by
  unfold rel at h ⊢
  rw [wp_tryCatch]
  refine wp_mono h ?_ ?_
  · intro a s' ha
    rw [wp_tryCatch]
    exact wp_mono ha (fun _ _ => id) fun _ _ hfalse => hfalse.elim
  · intro e s' he
    obtain ⟨e', t', hy, rfl, hF⟩ := exists_error he
    have hcatch : ∀ {P : β → τ → Prop} {G : ε → τ → Prop},
        wp (handle' e) P G t' → wp (tryCatch y handle') P G t := by
      intro P G hwp
      rw [wp_tryCatch, wp, hy]
      exact hwp
    exact wp_mono (hhandle e s' t' hF) (fun _ _ => hcatch) fun _ _ => hcatch

/-- What is known of the first program alone. -/
theorem rel_and_wp {P : α → σ → Prop} {F : ε → σ → Prop} (h : rel x y Q E s t)
    (hx : wp x P F s) :
    rel x y (fun a b s' t' => Q a b s' t' ∧ P a s') E s t := by
  refine wp_mono (wp_and h hx) ?_ fun _ _ he => he.1
  rintro a s' ⟨ha, hP⟩
  exact wp_mono ha (fun _ _ hQ => ⟨hQ, hP⟩) fun _ _ => id

theorem rel_mono {Q' : α → β → σ → τ → Prop} {E' : ε → σ → τ → Prop} (h : rel x y Q E s t)
    (hQ : ∀ a b s' t', Q a b s' t' → Q' a b s' t') (hE : ∀ e s' t', E e s' t' → E' e s' t') :
    rel x y Q' E' s t := by
  refine wp_mono h ?_ ?_
  · exact fun a s' ha => wp_mono ha (fun b t' => hQ a b s' t') fun _ _ => id
  · exact fun e s' he => wp_mono he (fun _ _ => id) fun _ t' h => ⟨h.1, hE e s' t' h.2⟩

end Prog

end Lib
