import PgStatCh.Hooks.CaptureInv

/-!
# Hooks.CaptureGuard — what `disable_error_capture` prevents, and when it is restored

A log message emitted under the queue lock does not come back to the queue lock
(`no_reentry`), whatever happens inside the calls.

The guard is also given back on every way out of `PschEnqueueEvent` and
`PschEnqueueBatch`, but one: an ERROR that is raised while the guard is set and the
lock is not yet taken passes by the restoring call (`enqueue_restores`). Then nothing
clears the guard any more, and the backend captures no log message for the rest of
its life (`overflow_warning_escapes`).
-/

namespace PgStatCh

open Lib Tla

namespace Session

variable {s s' : Session} {l : Label}

/-! ## No re-entry -/

/-- Is the next step an attempt on the queue lock? -/
def acquires (s : Session) : Bool :=
  match s.stack with
  | .enqueue _ _ .acquire :: _ => !s.raising
  | _ => false

/-- While an enqueuing call reads `local_batch`, no step writes it. -/
theorem localBatch_of_reads {rel : Bool → Bool → Prop} (hi : Inv rel s) (h : Step s l s')
    (hreads : ∃ f ∈ s.stack, f.reads = true) : s'.localBatch = s.localBatch := by
  cases h with
  | copied a e below hstack hraise =>
    -- only `PschLocalBatchAdd` writes the batch, and nobody below it reads it
    obtain ⟨f, hf, hread⟩ := hreads
    rw [hstack] at hf
    rcases List.mem_cons.mp hf with rfl | hf
    · cases hread
    · rw [((hi.of_stack hstack).frames.1 f hf).2] at hread
      cases hread
  | _ => rfl

/-- `CaptureLogEvent` has no other call of itself below it. -/
theorem captures_le_one {rel : Bool → Bool → Prop} {stack : List Frame}
    (h : EveryFrame (FrameOk rel) stack) : (stack.filter Frame.captures).length ≤ 1 := by
  refine h.length_filter_le_one fun f below hf hcaptures => ?_
  cases f with
  | captureLogEvent enqueued => exact hf.2.2
  | enqueue | localBatchAdd | emitLogHook => cases hcaptures

/-- Whatever log messages the calls emit and whichever of them raise errors: the
backend never tries to take the queue lock while it holds it, `CaptureLogEvent` is
never active twice, and `local_batch` is not written while `PschEnqueueBatch` reads
it. -/
theorem no_reentry (hs : machine.toSpec.Reachable s) :
    (s.acquires = true → s.holdsLock = false) ∧
    (s.stack.filter Frame.captures).length ≤ 1 ∧
    ((∃ f ∈ s.stack, f.reads = true) → ∀ l s', step l s = some s' →
      s'.localBatch = s.localBatch) := by
  have hi := inv_reachable hs
  refine ⟨?_, captures_le_one hi.frames, fun hreads l s' hl => ?_⟩
  · intro hacquire
    unfold acquires at hacquire
    split at hacquire
    · -- the running call does not hold the lock yet, and no call below it does
      next c saved below hstack =>
      replace hi := hi.of_stack hstack
      rw [hi.lock]
      exact hi.frames.1.1.any_locks
    · cases hacquire
  · exact localBatch_of_reads hi (step_cases hl) hreads

theorem idle_init : Init {} := ⟨rfl, rfl, rfl, rfl, rfl⟩

/-- A log message is captured, and its event is about to be enqueued. -/
def capturing : List Label := [.emit, .step {}, .step {}, .step {}]

theorem no_reentry_capturing :
    (machine.run {} capturing).acquires = true ∧
    (machine.run {} capturing).holdsLock = false ∧
    ((machine.run {} capturing).stack.filter Frame.captures).length ≤ 1 := by
  have h := no_reentry (machine.run_reachable {} (.init idle_init) capturing)
  exact ⟨rfl, h.1 rfl, h.2.1⟩

/-! ## Giving the guard back -/

/-- Gives back a guard that was set before. -/
def keeps : Frame → Bool
  | .enqueue _ saved _ => saved
  | .localBatchAdd _ _ => true
  | .emitLogHook .prev => true
  | .emitLogHook .capturing => false
  | .captureLogEvent _ => false

/-- The guard is set and nobody will clear it: either an ERROR is on its way through
calls that do not touch it, or every call found it set. -/
def Stuck (s : Session) : Prop :=
  s.disableErrorCapture = true ∧
  (s.raising = true ∧ s.stack ≠ [] ∧ guarded s.stack = false ∨ ∀ f ∈ s.stack, keeps f = true)

/-- An ERROR goes out of a call that does not need the guard. -/
theorem step_of_raising (hraise : s.raising = true) (hstack : s.stack ≠ [])
    (hfree : guarded s.stack = false) (h : step l s = some s') :
    ∃ f below, s.stack = f :: below ∧
      s' = { s with stack := below, raising := !below.isEmpty } := by
  cases hs : s.stack with
  | nil => exact absurd hs hstack
  | cons f below =>
    refine ⟨f, below, rfl, ?_⟩
    rw [hs, guarded_cons, Bool.or_eq_false_iff] at hfree
    cases l with
    | unwind =>
      simp only [step, hs, hraise, if_true, Option.some.injEq] at h
      rw [← h]
      cases f with
      | enqueue c saved pc =>
        cases pc with
        | contended => rfl
        | _ => cases hfree.1
      | localBatchAdd => rfl
      | emitLogHook pc =>
        cases pc with
        | prev => rfl
        | capturing => cases hfree.1
      | captureLogEvent => cases hfree.1
    | emit | raise => simp [step, hs, mayReport, hraise] at h
    | enqueueEvent | flush => simp [step, hs] at h
    | step a => simp [step, hs, hraise] at h

theorem Stuck.step (h : Stuck s) (hl : Session.step l s = some s') : Stuck s' := by
  obtain ⟨hguard, ⟨hraise, hstack, hfree⟩ | hall⟩ := h
  · -- the ERROR goes on, or out of the last call
    obtain ⟨f, below, hs, rfl⟩ := step_of_raising hraise hstack hfree hl
    rw [hs, guarded_cons, Bool.or_eq_false_iff] at hfree
    refine ⟨hguard, ?_⟩
    cases below with
    | nil => exact Or.inr (List.forall_mem_nil _)
    | cons g rest => exact Or.inl ⟨rfl, List.cons_ne_nil _ _, hfree.2⟩
  -- a call that begins now finds the guard set; one that ends gives it back as it was
  have hpop : ∀ {f : Frame} {below : List Frame}, s.stack = f :: below →
      keeps f = true ∧ ∀ g ∈ below, keeps g = true := by
    intro f below hs
    rw [hs] at hall
    exact ⟨hall f List.mem_cons_self, fun g hg => hall g (List.mem_cons_of_mem f hg)⟩
  have hpush : ∀ {f : Frame} {below : List Frame}, keeps f = true → (∀ g ∈ below, keeps g = true) →
      ∀ g ∈ f :: below, keeps g = true := by
    intro f below hf hbelow g hg
    rcases List.mem_cons.mp hg with rfl | hg
    · exact hf
    · exact hbelow g hg
  cases step_cases hl with
  | enqueueEvent | flush => exact ⟨rfl, Or.inr (hpush hguard hall)⟩
  | enqueueNothing | flushNothing | raise | caught => exact ⟨hguard, Or.inr hall⟩
  | emit => exact ⟨hguard, Or.inr (hpush rfl hall)⟩
  | leave f below hs => exact ⟨hguard, Or.inr (hpop hs).2⟩
  | cleanUp c saved pc below hs | next a c saved pc pc' below hs | acquired a c saved below hs =>
    obtain ⟨hsaved, hbelow⟩ := hpop hs
    exact ⟨hguard, Or.inr (hpush hsaved hbelow)⟩
  | overflowed a c saved below hs | finished a c saved rethrow below hs =>
    obtain ⟨hsaved, hbelow⟩ := hpop hs
    exact ⟨hsaved, Or.inr hbelow⟩
  | contended a e saved pc below hs =>
    obtain ⟨hsaved, hbelow⟩ := hpop hs
    exact ⟨hsaved, Or.inr (hpush rfl (hpush hsaved hbelow))⟩
  | buffered a c saved below hs | copied a e below hs | ignored a below hs =>
    exact ⟨hguard, Or.inr (hpop hs).2⟩
  | registered a e below hs | room a e count below hs =>
    exact ⟨hguard, Or.inr (hpush rfl (hpop hs).2)⟩
  | flushFull a e below hs => exact ⟨rfl, Or.inr (hpush hguard (hpush rfl (hpop hs).2))⟩
  | capture a below hs hraise hfree =>
    -- `ShouldCaptureLog` finds the guard set
    rw [hguard] at hfree
    cases hfree
  | captured a below hs | built a below hs | builtNothing a below hs | captureDone a below hs =>
    cases (hpop hs).1

theorem Stuck.run (h : Stuck s) (ls : List Label) :
    (machine.run s ls).disableErrorCapture = true :=
  (Machine.run_invariant h fun _ _ _ _ hstuck hl => hstuck.step hl).1

/-- After an ERROR has escaped, the guard stays set. -/
theorem stuck_of_escapes (hi : Inv (fun g v => g = true → v = true) s) (hesc : Escapes s l)
    (h : step l s = some s') : Stuck s' := by
  obtain ⟨rfl, c, pc, below, hstack, hguards, htry⟩ := hesc
  replace hi := hi.of_stack hstack
  -- capture was enabled before the call, so nobody below needs the guard
  have hfree : guarded below = false := by
    by_contra hb
    cases hi.frames.1.2.1 (Bool.not_eq_false _ ▸ hb)
  have hguard : s.disableErrorCapture = true := hi.guard (by simp [Frame.guards, hguards])
  simp only [step, hstack, unwindFrame, htry] at h
  split at h
  · cases h
    refine ⟨hguard, ?_⟩
    cases below with
    | nil => exact Or.inr (List.forall_mem_nil _)
    | cons f rest => exact Or.inl ⟨rfl, List.cons_ne_nil _ _, hfree⟩
  · cases h

/-- On every way out of `PschEnqueueEvent` and `PschEnqueueBatch` the lock is free. The
guard is what it was at the beginning of the call unless an ERROR escapes; then it is
set for the rest of the session. -/
theorem enqueue_restores {c : EnqueueCall} {saved : Bool} {pc : EnqueuePc} {below : List Frame}
    (hs : machine.toSpec.Reachable s) (hl : step l s = some s')
    (hcall : s.stack = .enqueue c saved pc :: below) (hout : s'.stack = below) :
    s'.holdsLock = false ∧
    ((machine.under fun s l => ¬ Escapes s l).Reachable s →
      (s'.disableErrorCapture = saved ↔ ¬ Escapes s l)) ∧
    (Escapes s l → ∀ ls, (machine.run s' ls).disableErrorCapture = true) := by
  have hi := inv_reachable hs
  refine ⟨?_, fun hexact => ⟨?_, fun hok => ?_⟩, fun hesc => (stuck_of_escapes hi hesc hl).run⟩
  · have hi' := inv_reachable (hs.step ⟨l, hl⟩)
    rw [hi'.lock, hout]
    exact (hi.of_stack hcall).frames.1.1.any_locks
  · intro hsame hesc
    have hset := (stuck_of_escapes hi hesc hl).1
    obtain ⟨-, c', pc', below', hcall', -, -⟩ := hesc
    rw [hcall] at hcall'
    cases hcall'
    rw [hset] at hsame
    cases hsame
  · -- before and after the step the guard says whether a call below needs it
    have hi' := inv_exact (hexact.step ⟨l, hok, hl⟩)
    have hguard := hi'.guard
    rw [hout] at hguard
    exact hguard.trans ((inv_exact hexact).of_stack hcall).frames.1.2.1.symm

/-- `PschEnqueueEvent` finds the ring full, and the overflow was reported before. -/
def overflowing : List Label := [.enqueueEvent {} true, .step { full := true }, .step {}]

theorem enqueue_restores_overflow :
    (machine.run {} overflowing).disableErrorCapture = true ∧
    (machine.run {} (overflowing ++ [.step {}])).disableErrorCapture = false ∧
    (machine.run {} (overflowing ++ [.step {}])).holdsLock = false := by
  have hs : (machine.under fun s l => ¬ Escapes s l).Reachable (machine.run {} overflowing) := by
    have hinit : (machine.under fun s l => ¬ Escapes s l).Reachable {} := .init idle_init
    refine Machine.run_reachable_under hinit _ ?_
    rintro l hl s ⟨rfl, -⟩
    simp [overflowing] at hl
  have hl : step (.step {}) (machine.run {} overflowing) =
      some (machine.run {} (overflowing ++ [.step {}])) := rfl
  obtain ⟨hlock, hguard, -⟩ := enqueue_restores (c := .event {})
    (Machine.reachable_of_under hs) hl rfl rfl
  refine ⟨rfl, (hguard hs).mpr ?_, hlock⟩
  rintro ⟨hl, -⟩
  cases hl

/-- The ring is full, the overflow is reported, and the report ends in an ERROR, for
instance because the statement was cancelled: capture is off, and the next log message
is not captured. -/
theorem overflow_warning_escapes :
    let ls := [.enqueueEvent {} true, .step { full := true }, .step { firstOverflow := true },
      .raise, .unwind]
    machine.toSpec.Reachable (machine.run {} ls) ∧
    (machine.run {} ls).stack = [] ∧
    (machine.run {} ls).disableErrorCapture = true ∧
    (machine.run {} (ls ++ [.emit, .step {}])).stack = [] :=
  ⟨machine.run_reachable {} (.init idle_init) _, rfl, rfl, rfl⟩

end Session

end PgStatCh
