import Mathlib.Data.Multiset.Filter
import Mathlib.Data.Multiset.AddSub
import Mathlib.Data.Multiset.UnionInter
import PgStatCh.Lib.Prog

/-!
# Lib.Objects — objects that have to be released

Sockets, library objects and blocks of memory are objects of a kind `κ`. The objects of some
kinds live in a region, and then they also end when the region is cleared. An identity is never
given out twice: a handle that is kept for too long is no object that lives, whatever was made
since. Which objects live is a multiset, and a program's claim on them is an equation
`live = held + rest`.

A program that can be left in more than one way cleans up after itself in some of them only: a
thrown exception runs the destructors of the scopes that it leaves, and a jump over them does not
(`Prog.withCleanup`).
-/

universe u

namespace Lib

/-- An object. -/
structure Obj (κ : Type) where
  kind : κ
  id : ℕ
deriving DecidableEq, Repr

/-- The objects that live, and the next identity. -/
structure Objects (κ : Type) where
  live : Multiset (Obj κ)
  next : ℕ
  fresh : ∀ o ∈ live, o.id < next
  nodup : live.Nodup

namespace Objects

variable {κ : Type}

def empty : Objects κ where
  live := 0
  next := 0
  fresh := fun o ho => absurd ho (Multiset.notMem_zero o)
  nodup := Multiset.nodup_zero

theorem next_notMem (w : Objects κ) (kind : κ) : ⟨kind, w.next⟩ ∉ w.live :=
  fun h => lt_irrefl _ (w.fresh _ h)

theorem fresh_cons (w : Objects κ) (kind : κ) :
    ∀ o ∈ (⟨kind, w.next⟩ : Obj κ) ::ₘ w.live, o.id < w.next + 1 := by
  intro o ho
  rcases Multiset.mem_cons.mp ho with rfl | ho
  · exact Nat.lt_succ_self _
  · exact Nat.lt_succ_of_lt (w.fresh o ho)

def add (w : Objects κ) (kind : κ) : Objects κ where
  live := ⟨kind, w.next⟩ ::ₘ w.live
  next := w.next + 1
  fresh := w.fresh_cons kind
  nodup := Multiset.nodup_cons.mpr ⟨w.next_notMem kind, w.nodup⟩

/-! ## Regions -/

/-- The objects whose kind is not in the region. -/
def outside (region : κ → Bool) (m : Multiset (Obj κ)) : Multiset (Obj κ) :=
  m.filter fun o => region o.kind = false

/-- Everything in the region ends. -/
def clear (w : Objects κ) (region : κ → Bool) : Objects κ where
  live := outside region w.live
  next := w.next
  fresh := fun o ho => w.fresh o (Multiset.mem_of_mem_filter ho)
  nodup := w.nodup.filter _

variable {region : κ → Bool} {m n : Multiset (Obj κ)} {o : Obj κ}

theorem outside_add : outside region (m + n) = outside region m + outside region n :=
  Multiset.filter_add _ m n

theorem outside_eq_self (h : ∀ o ∈ m, region o.kind = false) : outside region m = m :=
  Multiset.filter_eq_self.mpr h

theorem mem_outside : o ∈ outside region m ↔ o ∈ m ∧ region o.kind = false :=
  Multiset.mem_filter

/-! ## Releasing -/

variable [DecidableEq κ]

def remove (w : Objects κ) (o : Obj κ) : Objects κ where
  live := w.live.erase o
  next := w.next
  fresh := fun o' ho' => w.fresh o' (Multiset.mem_of_mem_erase ho')
  nodup := w.nodup.erase o

theorem live_remove {w : Objects κ} (h : w.live = o ::ₘ m) : (w.remove o).live = m := by
  change w.live.erase o = m
  rw [h, Multiset.erase_cons_head]

end Objects

namespace Prog

variable {ε σ α : Type u}

/-- Run `cleanup` where `x` is left, if it is left by returning or by one of the ways that run
destructors. -/
def withCleanup (unwinds : ε → Bool) (cleanup : EStateM ε σ PUnit) (x : EStateM ε σ α) :
    EStateM ε σ α := do
  let a ← tryCatch x fun e =>
    if unwinds e then do
      cleanup
      throw e
    else throw e
  cleanup
  pure a

theorem wp_withCleanup {unwinds : ε → Bool} {cleanup : EStateM ε σ PUnit} {x : EStateM ε σ α}
    {Q : α → σ → Prop} {E : ε → σ → Prop} {s : σ}
    (h : wp x (fun a => wp cleanup (fun _ => Q a) E)
      (fun e s' => if unwinds e then wp cleanup (fun _ => E e) E s' else E e s') s) :
    wp (withCleanup unwinds cleanup x) Q E s := by
  rw [withCleanup, wp_bind, wp_tryCatch]
  refine wp_mono h ?_ ?_
  · intro a s' ha
    rw [wp_bind]
    exact ha
  · intro e s' he
    by_cases hu : unwinds e = true
    · rw [if_pos hu] at he ⊢
      rw [wp_bind]
      exact he
    · rw [if_neg hu] at he ⊢
      exact he

end Prog

end Lib
