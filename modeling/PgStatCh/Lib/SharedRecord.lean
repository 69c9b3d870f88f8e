import PgStatCh.Tla.Rules
import Mathlib.Data.Finset.Basic

/-!
# Lib.SharedRecord — a record behind a reader-writer lock

Several processes share a record. A writing call takes the lock exclusively and stores its fields
one after the other; a reading call takes it shared and reads one field after the other, and which
one it reads next may depend on what it has read. Any number of readers run side by side, and
every step of every call can be interleaved with those of the others.

`SharedRecord.seen_sequential`: what a reading call has read is what it would have read alone,
from the record as the writing calls completed before it leave it, one after the other. In
particular no call ever sees a part of another.
-/

universe u v w x

namespace Lib

open Tla

/-- A field with its value. -/
abbrev FieldValue {F : Type u} (V : F → Type v) := Σ f, V f

namespace SharedRecord

/-- Who stores what, and what is read next. -/
structure Program (F : Type u) (V : F → Type v) (C : Type w) where
  writes : C → List (FieldValue V)
  next : List (FieldValue V) → Option F

/-- Where a process is. -/
inductive Pc {F : Type u} (V : F → Type v) (C : Type w) where
  | idle
  /-- the lock is held exclusively; these fields are still to be stored -/
  | writing (call : C) (left : List (FieldValue V))
  /-- the lock is held shared; this was read -/
  | reading (got : List (FieldValue V))

end SharedRecord

open SharedRecord

structure SharedRecord (F : Type u) (V : F → Type v) (C : Type w) (P : Type x) where
  fields : (f : F) → V f
  /-- who holds the lock exclusively -/
  writer : Option P := none
  /-- who holds it shared -/
  readers : Finset P := ∅
  pc : P → Pc V C := fun _ => .idle
  /-- history: the writing calls that are complete -/
  calls : List C := []
  /-- history: what the reading calls have read, and how many writing calls were complete -/
  seen : List (ℕ × List (FieldValue V)) := []

namespace SharedRecord

variable {F : Type u} {V : F → Type v} {C : Type w} {P : Type x} [DecidableEq F] [DecidableEq P]

inductive Label (C : Type w) (P : Type x) where
  | acquire (p : P) (call : C)
  | store (p : P)
  | release (p : P)
  | acquireShared (p : P)
  | read (p : P)
  | releaseShared (p : P)

def setPc (s : SharedRecord F V C P) (p : P) (pc : Pc V C) : SharedRecord F V C P :=
  { s with pc := Function.update s.pc p pc }

variable (prog : Program F V C)

def step : Label C P → SharedRecord F V C P → Option (SharedRecord F V C P)
  | .acquire p call, s =>
    match s.pc p, s.writer with
    | .idle, none =>
      if s.readers = ∅ then
        some { s.setPc p (.writing call (prog.writes call)) with writer := some p }
      else none
    | _, _ => none
  | .store p, s =>
    match s.pc p with
    | .writing call (c :: left) =>
      some { s.setPc p (.writing call left) with fields := Function.update s.fields c.1 c.2 }
    | _ => none
  | .release p, s =>
    match s.pc p with
    | .writing call [] =>
      some { s.setPc p .idle with writer := none, calls := s.calls ++ [call] }
    | _ => none
  | .acquireShared p, s =>
    match s.pc p, s.writer with
    | .idle, none => some { s.setPc p (.reading []) with readers := insert p s.readers }
    | _, _ => none
  | .read p, s =>
    match s.pc p with
    | .reading got =>
      match prog.next got with
      | some f => some (s.setPc p (.reading (got ++ [⟨f, s.fields f⟩])))
      | none => none
    | _ => none
  | .releaseShared p, s =>
    match s.pc p with
    | .reading got =>
      match prog.next got with
      | some _ => none
      | none => some { s.setPc p .idle with
          readers := s.readers.erase p
          seen := s.seen ++ [(s.calls.length, got)] }
    | _ => none

/-- Nobody holds the lock. -/
def Init (fields : (f : F) → V f) (s : SharedRecord F V C P) : Prop := s = { fields }

def machine (P : Type x) [DecidableEq P] (fields : (f : F) → V f) :
    Machine (SharedRecord F V C P) (Label C P) where
  Init := Init fields
  step := step prog

/-! ## One call after the other -/

/-- The record after these fields are stored. -/
def store (cells : List (FieldValue V)) (fields : (f : F) → V f) : (f : F) → V f :=
  cells.foldl (fun m c => Function.update m c.1 c.2) fields

/-- The record after these calls. -/
def after (fields : (f : F) → V f) (calls : List C) : (f : F) → V f :=
  calls.foldl (fun m call => store (prog.writes call) m) fields

theorem after_append (fields : (f : F) → V f) (calls : List C) (call : C) :
    after prog fields (calls ++ [call]) = store (prog.writes call) (after prog fields calls) := by
  simp [after]

omit [DecidableEq F] in
/-- What a reading call reads alone, up to some point. -/
inductive Reads (fields : (f : F) → V f) : List (FieldValue V) → Prop where
  | nil : Reads fields []
  | snoc {got : List (FieldValue V)} {f : F} : Reads fields got → prog.next got = some f →
    Reads fields (got ++ [⟨f, fields f⟩])

/-! ## What every step keeps -/

/-- What is known of a process. -/
def PcOk (fields : (f : F) → V f) (s : SharedRecord F V C P) (p : P) : Pc V C → Prop
  | .idle => s.writer ≠ some p ∧ p ∉ s.readers
  | .writing call left => s.writer = some p ∧ p ∉ s.readers ∧ left <:+ prog.writes call ∧
    store left s.fields = after prog fields (s.calls ++ [call])
  | .reading got => s.writer = none ∧ p ∈ s.readers ∧ Reads prog s.fields got

structure Inv (fields : (f : F) → V f) (s : SharedRecord F V C P) : Prop where
  pc : ∀ p, PcOk prog fields s p (s.pc p)
  apart : s.writer ≠ none → s.readers = ∅
  free : s.writer = none → s.fields = after prog fields s.calls
  seen : ∀ n got, (n, got) ∈ s.seen → n ≤ s.calls.length ∧ prog.next got = none ∧
    Reads prog (after prog fields (s.calls.take n)) got

variable {prog} {fields : (f : F) → V f} {s s' : SharedRecord F V C P}

omit [DecidableEq P] in
theorem Inv.pc_of (hi : Inv prog fields s) {p : P} {pc : Pc V C} (h : s.pc p = pc) :
    PcOk prog fields s p pc := by
  rw [← h]
  exact hi.pc p

omit [DecidableEq F] in
/-- The others are where they were. -/
theorem pc_of_ne {p q : P} (hne : q ≠ p) (pc : Pc V C) : (s.setPc p pc).pc q = s.pc q := by
  simp [setPc, hne]

omit [DecidableEq F] in
theorem pc_self (p : P) (pc : Pc V C) : (s.setPc p pc).pc p = pc := by
  simp [setPc]

omit [DecidableEq P] in
/-- The holder of the exclusive lock is alone in the record. -/
theorem PcOk.of_writer {p q : P} (hne : q ≠ p) (hw : s.writer = some p) {pc : Pc V C}
    (h : PcOk prog fields s q pc) : pc = .idle := by
  cases pc with
  | idle => rfl
  | writing call left =>
    have hq := h.1
    rw [hw] at hq
    exact absurd (Option.some.inj hq).symm hne
  | reading got =>
    have hnone := h.1
    rw [hw] at hnone
    cases hnone

theorem inv_acquire (hi : Inv prog fields s) {p : P} {call : C} (hidle : s.pc p = .idle)
    (hw : s.writer = none) (hr : s.readers = ∅) :
    Inv prog fields { s.setPc p (.writing call (prog.writes call)) with writer := some p } := by
  refine ⟨fun q => ?_, fun _ => hr, fun h => (by cases h), hi.seen⟩
  by_cases hq : q = p
  · subst hq
    rw [show ({ s.setPc q (.writing call (prog.writes call)) with
      writer := some q } : SharedRecord F V C P).pc q = _ from pc_self q _]
    refine ⟨rfl, ?_, List.suffix_refl _, ?_⟩
    · change q ∉ s.readers
      rw [hr]
      exact Finset.notMem_empty q
    · change store (prog.writes call) s.fields = _
      rw [hi.free hw]
      exact (after_append prog fields s.calls call).symm
  · have hok := hi.pc q
    change PcOk prog fields _ q ((s.setPc p _).pc q)
    rw [pc_of_ne hq]
    cases hpc : s.pc q with
    | idle =>
      rw [hpc] at hok
      refine ⟨?_, hok.2⟩
      intro heq
      exact hq (Option.some.inj heq).symm
    | writing call' left =>
      rw [hpc, PcOk, hw] at hok
      cases hok.1
    | reading got =>
      rw [hpc] at hok
      have hmem := hok.2.1
      rw [hr] at hmem
      exact absurd hmem (Finset.notMem_empty q)

/-- A step of the writer changes nothing for the others, who are idle. -/
theorem inv_writer (hi : Inv prog fields s) {p : P} (hw : s.writer = some p) {pc : Pc V C}
    (hwriter : s'.writer = some p ∨ s'.writer = none) (hreaders : s'.readers = s.readers)
    (hpc : s'.pc = Function.update s.pc p pc) (hself : PcOk prog fields s' p pc)
    (hfree : s'.writer = none → s'.fields = after prog fields s'.calls)
    (hcalls : ∃ more, s'.calls = s.calls ++ more) (hseen : s'.seen = s.seen) :
    Inv prog fields s' := by
  have hempty : s.readers = ∅ := hi.apart (by rw [hw]; exact Option.some_ne_none p)
  refine ⟨fun q => ?_, fun _ => hreaders.trans hempty, hfree, fun n got hmem => ?_⟩
  · by_cases hq : q = p
    · subst hq
      rw [hpc, Function.update_self]
      exact hself
    · rw [hpc, Function.update_of_ne hq, PcOk.of_writer hq hw (hi.pc q)]
      refine ⟨?_, ?_⟩
      · rcases hwriter with h | h
        · rw [h]
          intro heq
          exact hq (Option.some.inj heq).symm
        · rw [h]
          intro heq
          cases heq
      · rw [hreaders, hempty]
        exact Finset.notMem_empty q
  · rw [hseen] at hmem
    obtain ⟨hle, hend, hreads⟩ := hi.seen n got hmem
    obtain ⟨more, hmore⟩ := hcalls
    rw [hmore, List.take_append_of_le_length hle, List.length_append]
    exact ⟨Nat.le_add_right_of_le hle, hend, hreads⟩

/-- A step of a reader changes nothing for the others. -/
theorem inv_reader (hi : Inv prog fields s) {p : P} {pc : Pc V C} (hw : s.writer = none)
    (hwriter : s'.writer = s.writer) (hfields : s'.fields = s.fields)
    (hcalls : s'.calls = s.calls) (hreaders : ∀ q, q ≠ p → (q ∈ s'.readers ↔ q ∈ s.readers))
    (hpc : s'.pc = Function.update s.pc p pc) (hself : PcOk prog fields s' p pc)
    (hseen : ∀ n got, (n, got) ∈ s'.seen → (n, got) ∈ s.seen ∨
      n = s.calls.length ∧ prog.next got = none ∧ Reads prog s.fields got) :
    Inv prog fields s' := by
  have hw' : s'.writer = none := hwriter.trans hw
  refine ⟨fun q => ?_, fun h => absurd hw' h, fun _ => ?_, fun n got hmem => ?_⟩
  · by_cases hq : q = p
    · subst hq
      rw [hpc, Function.update_self]
      exact hself
    · rw [hpc, Function.update_of_ne hq]
      have hok := hi.pc q
      cases h : s.pc q with
      | idle =>
        rw [h] at hok
        refine ⟨by rw [hwriter]; exact hok.1, ?_⟩
        rw [hreaders q hq]
        exact hok.2
      | writing call left =>
        rw [h, PcOk, hw] at hok
        cases hok.1
      | reading got =>
        rw [h] at hok
        refine ⟨hw', ?_, ?_⟩
        · rw [hreaders q hq]
          exact hok.2.1
        · rw [hfields]
          exact hok.2.2
  · rw [hfields, hcalls]
    exact hi.free hw
  · rw [hcalls]
    rcases hseen n got hmem with hold | ⟨rfl, hend, hreads⟩
    · exact hi.seen n got hold
    · refine ⟨le_rfl, hend, ?_⟩
      rw [List.take_length, ← hi.free hw]
      exact hreads

theorem Inv.step (hi : Inv prog fields s) {l : Label C P} (h : step prog l s = some s') :
    Inv prog fields s' := by
  cases l with
  | acquire p call =>
    simp only [SharedRecord.step] at h
    split at h
    · next hidle hw =>
      split at h
      · next hr =>
        cases h
        exact inv_acquire hi hidle hw hr
      · cases h
    · cases h
  | store p =>
    simp only [SharedRecord.step] at h
    split at h
    · next call c left hpc =>
      cases h
      obtain ⟨hw, hmem, hsuffix, hleft⟩ := hi.pc_of hpc
      exact inv_writer hi hw (Or.inl hw) rfl rfl
        ⟨hw, hmem, (List.suffix_cons c left).trans hsuffix, hleft⟩
        (fun hnone => absurd (hw.symm.trans hnone) (Option.some_ne_none p))
        ⟨[], (List.append_nil _).symm⟩ rfl
    · cases h
  | release p =>
    simp only [SharedRecord.step] at h
    split at h
    · next call hpc =>
      cases h
      obtain ⟨hw, hmem, -, hleft⟩ := hi.pc_of hpc
      refine inv_writer hi hw (Or.inr rfl) rfl rfl ⟨?_, hmem⟩ (fun _ => hleft) ⟨[call], rfl⟩ rfl
      intro hnone
      cases hnone
    · cases h
  | acquireShared p =>
    simp only [SharedRecord.step] at h
    split at h
    · next hidle hw =>
      cases h
      refine inv_reader hi hw rfl rfl rfl (fun q hq => ?_) rfl
        ⟨hw, Finset.mem_insert_self p _, .nil⟩ (fun n got hmem => Or.inl hmem)
      simp [hq]
    · cases h
  | read p =>
    simp only [SharedRecord.step] at h
    split at h
    · next got hpc =>
      split at h
      · next f hf =>
        cases h
        obtain ⟨hw, hmem, hreads⟩ := hi.pc_of hpc
        exact inv_reader hi hw rfl rfl rfl (fun q _ => Iff.rfl) rfl
          ⟨hw, hmem, hreads.snoc hf⟩ (fun n got hmem => Or.inl hmem)
      · cases h
    · cases h
  | releaseShared p =>
    simp only [SharedRecord.step] at h
    split at h
    · next got hpc =>
      split at h
      · cases h
      · next hend =>
        cases h
        obtain ⟨hw, hmem, hreads⟩ := hi.pc_of hpc
        refine inv_reader hi hw rfl rfl rfl (fun q hq => ?_) rfl ⟨?_, Finset.notMem_erase p _⟩
          (fun n got' hmem' => ?_)
        · simp [hq]
        · change s.writer ≠ some p
          rw [hw]
          intro hnone
          cases hnone
        · rcases List.mem_append.mp hmem' with hold | hnew
          · exact Or.inl hold
          · cases List.mem_singleton.mp hnew
            exact Or.inr ⟨rfl, hend, hreads⟩
    · cases h

theorem inv_reachable (hs : (machine prog P fields).toSpec.Reachable s) : Inv prog fields s := by
  refine Spec.Reachable.invariant ?_ ?_ hs
  · rintro s rfl
    refine ⟨fun p => ⟨?_, Finset.notMem_empty p⟩, fun _ => rfl, fun _ => rfl, fun n got hmem => ?_⟩
    · intro hnone
      cases hnone
    · cases hmem
  · rintro s s' hi ⟨l, hl⟩
    exact hi.step hl

/-- What a reading call has read, it would have read alone after the first `n` writing calls, all
of them complete. -/
theorem seen_sequential (hs : (machine prog P fields).toSpec.Reachable s) {n : ℕ}
    {got : List (FieldValue V)} (hseen : (n, got) ∈ s.seen) :
    n ≤ s.calls.length ∧ prog.next got = none ∧
      Reads prog (after prog fields (s.calls.take n)) got :=
  (inv_reachable hs).seen n got hseen

end SharedRecord

end Lib
