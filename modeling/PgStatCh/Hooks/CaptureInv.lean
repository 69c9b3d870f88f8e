import PgStatCh.Lib.Stack
import PgStatCh.Tla.Rules
import PgStatCh.Hooks.LogHook

/-!
# Hooks.CaptureInv — what holds of the stack of calls

What a step of `LogHook` can do (`Step`), and the invariant of every run: a call that
is between setting and restoring `disable_error_capture` has it set, only such a call
holds the queue lock, reads the local batch or captures a log message, and each call
knows how the guard was before it. As long as no ERROR has escaped (`Escapes`), the
guard is set only then.
-/

namespace PgStatCh

open Lib Tla

/-! ## What a frame keeps from happening -/

namespace Frame

/-- Needs `disable_error_capture`. -/
def guards : Frame → Bool
  | enqueue _ _ pc => pc.guards
  | localBatchAdd _ _ => false
  | emitLogHook .prev => false
  | emitLogHook .capturing => true
  | captureLogEvent _ => true

/-- Holds the queue lock. -/
def locks : Frame → Bool
  | enqueue _ _ pc => pc.locks
  | _ => false

/-- Reads `local_batch`. -/
def reads : Frame → Bool
  | enqueue (.batch _) _ _ => true
  | _ => false

def captures : Frame → Bool
  | captureLogEvent _ => true
  | _ => false

/-- Has a `PG_TRY` around the running statement. -/
def handles : Frame → Bool
  | enqueue _ _ pc => pc.inTry
  | emitLogHook .capturing => true
  | _ => false

end Frame

/-- Does one of these calls need the guard? -/
def guarded (stack : List Frame) : Bool := stack.any Frame.guards

@[simp] theorem guarded_cons (f : Frame) (below : List Frame) :
    guarded (f :: below) = (f.guards || guarded below) := rfl

/-- None of these calls holds the queue lock or reads `local_batch`. -/
def Quiet (stack : List Frame) : Prop := ∀ f ∈ stack, f.locks = false ∧ f.reads = false

theorem Quiet.cons {f : Frame} {below : List Frame} (hf : f.locks = false ∧ f.reads = false)
    (h : Quiet below) : Quiet (f :: below) := by
  intro g hg
  rcases List.mem_cons.mp hg with rfl | hg
  · exact hf
  · exact h g hg

theorem Quiet.any_locks {stack : List Frame} (h : Quiet stack) :
    stack.any Frame.locks = false := by
  rw [List.any_eq_false]
  intro f hf
  simp [(h f hf).1]

/-! ## What holds of the stack -/

/-- How the guard stands to the question whether a call needs it: it is at least as
strong, or just that. -/
structure GuardRel (rel : Bool → Bool → Prop) : Prop where
  refl : ∀ g, rel g g
  strict : ¬ rel true false

theorem guardRel_imp : GuardRel fun g v => g = true → v = true where
  refl := fun _ => id
  strict := by
    intro h
    cases h rfl

theorem guardRel_eq : GuardRel fun g v => v = g where
  refl := fun _ => rfl
  strict := by
    intro h
    cases h

variable {rel : Bool → Bool → Prop}

theorem GuardRel.eq_true (hrel : GuardRel rel) {v : Bool} (h : rel true v) : v = true := by
  cases v with
  | true => rfl
  | false => exact absurd h hrel.strict

theorem GuardRel.eq_false (hrel : GuardRel rel) {g : Bool} (h : rel g false) : g = false := by
  cases g with
  | false => rfl
  | true => exact absurd h hrel.strict

/-- Can another call run above this one, or an ERROR pass through it? -/
def Frame.waits : Frame → Bool
  | enqueue _ _ .contended => true
  | enqueue _ _ pc => pc.callsOut
  | localBatchAdd _ .check => false
  | localBatchAdd _ _ => true
  | emitLogHook _ => true
  | captureLogEvent _ => true

/-- What holds of a call and the calls below it. -/
def FrameOk (rel : Bool → Bool → Prop) : Frame → List Frame → Prop
  | .enqueue c saved pc, below =>
    Quiet below ∧ rel (guarded below) saved ∧ (pc = .contended → ∃ e, c = .event e)
  | .localBatchAdd _ _, below => Quiet below
  | .emitLogHook .prev, _ => True
  | .emitLogHook .capturing, below => guarded below = false
  | .captureLogEvent _, below =>
    Quiet below ∧ guarded below = true ∧ ∀ f ∈ below, f.captures = false

/-- A call that holds the lock, reads the batch or captures needs the guard. -/
theorem quiet_of_unguarded {stack : List Frame} (h : EveryFrame (FrameOk rel) stack)
    (hfree : guarded stack = false) : Quiet stack ∧ ∀ f ∈ stack, f.captures = false := by
  have hall : ∀ f ∈ stack, (f.locks = false ∧ f.reads = false) ∧ f.captures = false := by
    refine h.forall_mem (fun stack => guarded stack = false) ?_ hfree
    intro f below hf hfree
    rw [guarded_cons, Bool.or_eq_false_iff] at hfree
    refine ⟨?_, hfree.2⟩
    cases f with
    | enqueue c saved pc =>
      cases pc with
      | contended =>
        obtain ⟨e, rfl⟩ := hf.2.2 rfl
        exact ⟨⟨rfl, rfl⟩, rfl⟩
      | _ => cases hfree.1
    | localBatchAdd => exact ⟨⟨rfl, rfl⟩, rfl⟩
    | emitLogHook => exact ⟨⟨rfl, rfl⟩, rfl⟩
    | captureLogEvent => cases hfree.1
  exact ⟨fun f hf => (hall f hf).1, fun f hf => (hall f hf).2⟩

/-- The stack, the guard, the lock and a raised ERROR fit together. -/
structure Good (rel : Bool → Bool → Prop) (stack : List Frame) (guard lock raising : Bool) :
    Prop where
  guard : rel (guarded stack) guard
  frames : EveryFrame (FrameOk rel) stack
  lock : lock = stack.any Frame.locks
  below : ∀ f ∈ stack.tail, f.waits = true
  raised : raising = true → ∃ f ∈ stack.head?, f.waits = true

namespace Good

variable {f f' : Frame} {stack below : List Frame} {guard guard' lock raising raising' : Bool}

/-- Only an ERROR that is on its way makes the running call wait. -/
theorem not_raised (hraise : raising = false) :
    raising = true → ∃ f ∈ stack.head?, f.waits = true := by
  rw [hraise]
  intro h
  cases h

theorem push (h : Good rel stack guard lock raising) (hwaits : ∀ g ∈ stack.head?, g.waits = true)
    (hraise : raising' = false) (hguard : rel (f.guards || guarded stack) guard')
    (hf : FrameOk rel f stack) (hlock : f.locks = false) :
    Good rel (f :: stack) guard' lock raising' where
  guard := hguard
  frames := ⟨hf, h.frames⟩
  lock := by rw [h.lock, List.any_cons, hlock, Bool.false_or]
  below := by
    intro g hg
    cases stack with
    | nil => cases hg
    | cons top rest =>
      rcases List.mem_cons.mp hg with rfl | hg
      · exact hwaits g rfl
      · exact h.below g hg
  raised := not_raised hraise

/-- `PschSuppressErrorCapture(true)` at the beginning of an enqueuing call. -/
theorem pushEnqueue (hrel : GuardRel rel) (h : Good rel stack guard lock raising)
    (hwaits : ∀ g ∈ stack.head?, g.waits = true) (hraise : raising' = false)
    (hquiet : Quiet stack) (c : EnqueueCall) :
    Good rel (.enqueue c guard .fastCheck :: stack) true lock raising' :=
  h.push hwaits hraise (hrel.refl true) ⟨hquiet, h.guard, by rintro ⟨⟩⟩ rfl

theorem replace (h : Good rel (f :: below) guard lock raising) (hraise : raising' = false)
    (hguards : f'.guards = f.guards) (hlocks : f'.locks = f.locks) (hf : FrameOk rel f' below) :
    Good rel (f' :: below) guard lock raising' where
  guard := by
    rw [guarded_cons, hguards]
    exact h.guard
  frames := ⟨hf, h.frames.2⟩
  lock := by rw [h.lock, List.any_cons, List.any_cons, hlocks]
  below := h.below
  raised := not_raised hraise

/-- An ERROR that goes on arrives at the call below. -/
theorem raised_below (h : Good rel (f :: below) guard lock raising)
    (hraise : raising' = true → below.isEmpty = false) :
    raising' = true → ∃ f ∈ below.head?, f.waits = true := by
  intro hr
  cases below with
  | nil => cases hraise hr
  | cons g rest => exact ⟨g, rfl, h.below g List.mem_cons_self⟩

theorem pop (h : Good rel (f :: below) guard lock raising) (hguard : rel (guarded below) guard')
    (hlock : f.locks = false) (hraise : raising' = true → below.isEmpty = false) :
    Good rel below guard' lock raising' where
  guard := hguard
  frames := h.frames.2
  lock := by rw [h.lock, List.any_cons, hlock, Bool.false_or]
  below := fun g hg => h.below g (List.mem_of_mem_tail hg)
  raised := h.raised_below hraise

/-- Return from a call. -/
theorem ret (h : Good rel (f :: below) guard lock raising) (hraise : raising' = false)
    (hguard : rel (guarded below) guard') (hlock : f.locks = false) :
    Good rel below guard' lock raising' := by
  refine h.pop hguard hlock ?_
  intro hr
  rw [hraise] at hr
  cases hr

/-- Return from a call, with the lock released. -/
theorem unlock (h : Good rel (f :: below) guard lock raising)
    (hguard : rel (guarded below) guard') (hquiet : Quiet below)
    (hraise : raising' = true → below.isEmpty = false) : Good rel below guard' false raising' where
  guard := hguard
  frames := h.frames.2
  lock := hquiet.any_locks.symm
  below := fun g hg => h.below g (List.mem_of_mem_tail hg)
  raised := h.raised_below hraise

/-- `CaptureLogEvent` changes nothing about whether the guard is needed: the hook below it
needs it too. -/
theorem guard_captureLogEvent {enqueued : Bool}
    (h : Good rel (.captureLogEvent enqueued :: below) guard lock raising) :
    rel (guarded below) guard := by
  rw [h.frames.1.2.1]
  exact h.guard

/-- An ERROR leaves a call that does not handle it. -/
theorem leave (hrel : GuardRel rel) (h : Good rel (f :: below) guard lock true)
    (hhandles : f.handles = false)
    (hesc : ∀ c pc, f = .enqueue c false pc → pc.guards = true → pc.inTry = false →
      ∀ g, rel g true) :
    Good rel below guard lock (!below.isEmpty) := by
  have hraise : (!below.isEmpty) = true → below.isEmpty = false := by simp
  obtain ⟨g, hg, hwaits⟩ := h.raised rfl
  cases hg
  cases f with
  | enqueue c saved pc =>
    have hlocks : pc.locks = false := by
      cases pc with
      | pgFinally => cases hwaits
      | _ => exact hhandles
    refine h.pop ?_ hlocks hraise
    cases pc with
    | contended => exact h.guard
    | _ =>
      -- the guard is set; either it was set before the call, or the ERROR escapes
      rw [hrel.eq_true h.guard]
      cases saved with
      | true => exact h.frames.1.2.1
      | false => exact hesc c _ rfl rfl hhandles _
  | localBatchAdd => exact h.pop h.guard rfl hraise
  | emitLogHook pc =>
    cases pc with
    | prev => exact h.pop h.guard rfl hraise
    | capturing => cases hhandles
  | captureLogEvent => exact h.pop h.guard_captureLogEvent rfl hraise

/-- `PschEnqueueEvent` gives the guard back and calls `PschLocalBatchAdd`. -/
theorem contend {e : PschEvent} {saved : Bool} (pc : AddPc)
    (h : Good rel (.enqueue (.event e) saved .acquire :: below) guard lock raising)
    (hraise : raising = false) :
    Good rel (.localBatchAdd e pc :: .enqueue (.event e) saved .contended :: below) saved lock
      raising := by
  obtain ⟨hquiet, hsaved, -⟩ := h.frames.1
  have hframe : Good rel (.enqueue (.event e) saved .contended :: below) saved lock raising :=
    ⟨hsaved, ⟨⟨hquiet, hsaved, fun _ => ⟨e, rfl⟩⟩, h.frames.2⟩, h.lock, h.below, not_raised hraise⟩
  exact hframe.push (by simp [Frame.waits]) hraise hframe.guard (hquiet.cons ⟨rfl, rfl⟩) rfl

/-- The hook sets the guard and captures: it was free, so nobody below needs it. -/
theorem capture (hrel : GuardRel rel)
    (h : Good rel (.emitLogHook .prev :: below) false lock raising) (hraise : raising = false) :
    Good rel (.captureLogEvent false :: .emitLogHook .capturing :: below) true lock raising := by
  have hfree : guarded below = false := hrel.eq_false h.guard
  obtain ⟨hquiet, hcaptures⟩ := quiet_of_unguarded h.frames.2 hfree
  have hframe : Good rel (.emitLogHook .capturing :: below) true lock raising :=
    ⟨hrel.refl true, ⟨hfree, h.frames.2⟩, h.lock, h.below, not_raised hraise⟩
  refine hframe.push (by simp [Frame.waits]) hraise (hrel.refl true)
    ⟨hquiet.cons ⟨rfl, rfl⟩, rfl, ?_⟩ rfl
  intro f hf
  rcases List.mem_cons.mp hf with rfl | hf
  · rfl
  · exact hcaptures f hf

end Good

/-! ## What a step can do -/

namespace Session

variable {s s' : Session} {l : Label}

/-- What a step of the machine can do. -/
inductive Step (s : Session) : Label → Session → Prop where
  | enqueueEvent (e : PschEvent) : s.stack = [] →
    Step s (.enqueueEvent e true) (s.beginEnqueue (.event e))
  | enqueueNothing (e : PschEvent) : s.stack = [] → Step s (.enqueueEvent e false) s
  | flush : s.stack = [] →
    Step s (.flush true) ({ s with localBatchCount := 0 }.beginEnqueue (.batch s.localBatchCount))
  | flushNothing (enabled : Bool) : s.stack = [] →
    Step s (.flush enabled) { s with localBatchCount := 0 }
  | emit : s.mayReport = true → Step s .emit { s with stack := .emitLogHook .prev :: s.stack }
  | raise (f : Frame) (below : List Frame) : s.stack = f :: below → s.mayReport = true →
    Step s .raise { s with raising := true }
  | leave (f : Frame) (below : List Frame) : s.stack = f :: below → s.raising = true →
    f.handles = false → Step s .unwind { s with stack := below, raising := !below.isEmpty }
  | cleanUp (c : EnqueueCall) (saved : Bool) (pc : EnqueuePc) (below : List Frame) :
    s.stack = .enqueue c saved pc :: below → s.raising = true → pc.inTry = true →
    Step s .unwind { s with stack := .enqueue c saved (.pgFinally true) :: below, raising := false }
  | caught (below : List Frame) : s.stack = .emitLogHook .capturing :: below →
    s.raising = true → Step s .unwind { s with raising := false }
  | next (a : Answers) (c : EnqueueCall) (saved : Bool) (pc pc' : EnqueuePc)
      (below : List Frame) : s.stack = .enqueue c saved pc :: below → s.raising = false →
    pc.guards = true → pc'.guards = true → pc'.locks = pc.locks →
    Step s (.step a) { s with stack := .enqueue c saved pc' :: below }
  | overflowed (a : Answers) (c : EnqueueCall) (saved : Bool) (below : List Frame) :
    s.stack = .enqueue c saved (.fastOverflow 0) :: below → s.raising = false →
    Step s (.step a) { s with disableErrorCapture := saved, stack := below }
  | acquired (a : Answers) (c : EnqueueCall) (saved : Bool) (below : List Frame) :
    s.stack = .enqueue c saved .acquire :: below → s.raising = false → s.holdsLock = false →
    Step s (.step a)
      { s with holdsLock := true, stack := .enqueue c saved (.tryEnqueue 0) :: below }
  | contended (a : Answers) (e : PschEvent) (saved : Bool) (pc : AddPc) (below : List Frame) :
    s.stack = .enqueue (.event e) saved .acquire :: below → s.raising = false →
    Step s (.step a) { s with
      disableErrorCapture := saved
      stack := .localBatchAdd e pc :: .enqueue (.event e) saved .contended :: below }
  | finished (a : Answers) (c : EnqueueCall) (saved rethrow : Bool) (below : List Frame) :
    s.stack = .enqueue c saved (.pgFinally rethrow) :: below → s.raising = false →
    Step s (.step a) { s with holdsLock := false, disableErrorCapture := saved, stack := below
                              raising := rethrow && !below.isEmpty }
  | buffered (a : Answers) (c : EnqueueCall) (saved : Bool) (below : List Frame) :
    s.stack = .enqueue c saved .contended :: below → s.raising = false →
    Step s (.step a) { s with stack := below }
  | registered (a : Answers) (e : PschEvent) (below : List Frame) :
    s.stack = .localBatchAdd e .init :: below → s.raising = false →
    Step s (.step a)
      { s with localBatchInitialized := true, stack := .localBatchAdd e .check :: below }
  | flushFull (a : Answers) (e : PschEvent) (below : List Frame) :
    s.stack = .localBatchAdd e .check :: below → s.raising = false →
    Step s (.step a)
      ({ s with stack := .localBatchAdd e .copy :: below, localBatchCount := 0 }.beginEnqueue
        (.batch s.localBatchCount))
  | room (a : Answers) (e : PschEvent) (count : ℕ) (below : List Frame) :
    s.stack = .localBatchAdd e .check :: below → s.raising = false → count < localBatchCapacity →
    Step s (.step a)
      { s with stack := .localBatchAdd e .copy :: below, localBatchCount := count }
  | copied (a : Answers) (e : PschEvent) (below : List Frame) :
    s.stack = .localBatchAdd e .copy :: below → s.raising = false →
    Step s (.step a)
      { s with localBatch := Function.update s.localBatch s.localBatchCount e
               localBatchCount := s.localBatchCount + 1, stack := below }
  | ignored (a : Answers) (below : List Frame) : s.stack = .emitLogHook .prev :: below →
    s.raising = false → Step s (.step a) { s with stack := below }
  | capture (a : Answers) (below : List Frame) : s.stack = .emitLogHook .prev :: below →
    s.raising = false → s.disableErrorCapture = false →
    Step s (.step a) { s with
      disableErrorCapture := true
      stack := .captureLogEvent false :: .emitLogHook .capturing :: below }
  | captured (a : Answers) (below : List Frame) :
    s.stack = .emitLogHook .capturing :: below → s.raising = false →
    Step s (.step a) { s with disableErrorCapture := false, stack := below }
  | built (a : Answers) (below : List Frame) : s.stack = .captureLogEvent false :: below →
    s.raising = false →
    Step s (.step a)
      ({ s with stack := .captureLogEvent true :: below }.beginEnqueue (.event a.event))
  | builtNothing (a : Answers) (below : List Frame) :
    s.stack = .captureLogEvent false :: below → s.raising = false →
    Step s (.step a) { s with stack := .captureLogEvent true :: below }
  | captureDone (a : Answers) (below : List Frame) :
    s.stack = .captureLogEvent true :: below → s.raising = false →
    Step s (.step a) { s with stack := below }

theorem nextEvent_locks (count i : ℕ) : (EnqueuePc.nextEvent count i).locks = true := by
  unfold EnqueuePc.nextEvent
  split <;> rfl

theorem nextEvent_guards (count i : ℕ) : (EnqueuePc.nextEvent count i).guards = true := by
  unfold EnqueuePc.nextEvent
  split <;> rfl

/-- The steps inside an enqueuing call keep the guard, and the lock as it is. -/
theorem nextPc_inv {count : ℕ} {a : Answers} {pc pc' : EnqueuePc}
    (h : nextPc count a pc = some pc') :
    pc.guards = true ∧ pc'.guards = true ∧ pc'.locks = pc.locks := by
  unfold nextPc at h
  split at h
  · cases h
    split <;> exact ⟨rfl, rfl, rfl⟩
  · cases h
    split <;> exact ⟨rfl, rfl, rfl⟩
  · cases h
    exact ⟨rfl, rfl, rfl⟩
  · cases h
    split <;> exact ⟨rfl, rfl, rfl⟩
  · cases h
    split
    · exact ⟨rfl, rfl, rfl⟩
    · exact ⟨rfl, nextEvent_guards _ _, nextEvent_locks _ _⟩
  · cases h
    exact ⟨rfl, nextEvent_guards _ _, nextEvent_locks _ _⟩
  · cases h
    exact ⟨rfl, nextEvent_guards _ _, nextEvent_locks _ _⟩
  · cases h

theorem stepEnqueue_inv {a : Answers} {c : EnqueueCall} {saved : Bool} {pc : EnqueuePc}
    {below : List Frame} (hstack : s.stack = .enqueue c saved pc :: below)
    (hraise : s.raising = false) (h : stepEnqueue a c saved pc below s = some s') :
    Step s (.step a) s' := by
  unfold stepEnqueue at h
  split at h
  · cases h
    exact .overflowed a c saved below hstack hraise
  · split at h
    · next hfree =>
      cases h
      exact .acquired a c saved below hstack hraise hfree.2
    · split at h
      · cases h
        exact .contended a _ saved _ below hstack hraise
      · cases h
  · cases h
    exact .finished a c saved _ below hstack hraise
  · cases h
    exact .buffered a c saved below hstack hraise
  · simp only [Option.map_eq_some_iff] at h
    obtain ⟨pc', hnext, rfl⟩ := h
    obtain ⟨hpc, hpc', hlocks⟩ := nextPc_inv hnext
    exact .next a c saved pc pc' below hstack hraise hpc hpc' hlocks

theorem stepAdd_inv {a : Answers} {e : PschEvent} {pc : AddPc} {below : List Frame}
    (hstack : s.stack = .localBatchAdd e pc :: below) (hraise : s.raising = false) :
    Step s (.step a) (stepAdd a e pc below s) := by
  cases pc with
  | init => exact .registered a e below hstack hraise
  | check =>
    simp only [stepAdd]
    split
    · next hfull =>
      have hpos : s.localBatchCount ≠ 0 := Nat.ne_of_gt (Nat.lt_of_lt_of_le (by decide) hfull)
      simp only [pschLocalBatchFlush, pschEnqueueBatch, hpos, if_false, or_false]
      split
      · exact .room a e 0 below hstack hraise (by decide)
      · exact .flushFull a e below hstack hraise
    · next hroom =>
      exact .room a e s.localBatchCount below hstack hraise (Nat.not_le.mp hroom)
  | copy => exact .copied a e below hstack hraise

theorem stepHook_inv {a : Answers} {pc : HookPc} {below : List Frame}
    (hstack : s.stack = .emitLogHook pc :: below) (hraise : s.raising = false) :
    Step s (.step a) (stepHook a pc below s) := by
  cases pc with
  | prev =>
    simp only [stepHook]
    split
    · next h => exact .capture a below hstack hraise h.2
    · exact .ignored a below hstack hraise
  | capturing => exact .captured a below hstack hraise

theorem stepCapture_inv {a : Answers} {enqueued : Bool} {below : List Frame}
    (hstack : s.stack = .captureLogEvent enqueued :: below) (hraise : s.raising = false) :
    Step s (.step a) (stepCapture a enqueued below s) := by
  cases enqueued with
  | true => exact .captureDone a below hstack hraise
  | false =>
    simp only [stepCapture, pschEnqueueEvent, Bool.false_eq_true, if_false]
    split
    · exact .built a below hstack hraise
    · exact .builtNothing a below hstack hraise

theorem unwindFrame_inv {f : Frame} {below : List Frame} (hstack : s.stack = f :: below)
    (hraise : s.raising = true) : Step s .unwind (unwindFrame f below s) := by
  unfold unwindFrame
  split
  · exact .caught below hstack hraise
  · next c saved pc =>
    split
    · next htry => exact .cleanUp c saved pc below hstack hraise htry
    · next htry => exact .leave _ below hstack hraise (Bool.not_eq_true _ ▸ htry)
  · next hcapturing henqueue =>
    refine .leave f below hstack hraise ?_
    cases f with
    | enqueue c saved pc => exact absurd rfl (henqueue c saved pc)
    | emitLogHook pc =>
      cases pc with
      | prev => rfl
      | capturing => exact absurd rfl hcapturing
    | localBatchAdd | captureLogEvent => rfl

theorem step_cases (h : step l s = some s') : Step s l s' := by
  unfold step at h
  split at h
  · next e enabled hstack =>
    cases h
    cases enabled with
    | true => exact .enqueueEvent e hstack
    | false => exact .enqueueNothing e hstack
  · next enabled hstack =>
    cases h
    unfold pschLocalBatchFlush pschEnqueueBatch
    split
    · next hzero =>
      have hsame := Step.flushNothing (s := s) enabled hstack
      rwa [← hzero] at hsame
    · cases enabled with
      | true =>
        next hpos =>
        rw [if_neg (by simpa using hpos)]
        exact .flush hstack
      | false =>
        rw [if_pos (Or.inl rfl)]
        exact .flushNothing false hstack
  · split at h
    · next hreport =>
      cases h
      exact .emit hreport
    · cases h
  · next f below hstack =>
    split at h
    · next hreport =>
      cases h
      exact .raise f below hstack hreport
    · cases h
  · next f below hstack =>
    split at h
    · next hraise =>
      cases h
      exact unwindFrame_inv hstack hraise
    · cases h
  · next a f below hstack =>
    split at h
    · cases h
    · next hraise =>
      rw [Bool.not_eq_true] at hraise
      cases f with
      | enqueue c saved pc => exact stepEnqueue_inv hstack hraise h
      | localBatchAdd e pc =>
        cases h
        exact stepAdd_inv hstack hraise
      | emitLogHook pc =>
        cases h
        exact stepHook_inv hstack hraise
      | captureLogEvent enqueued =>
        cases h
        exact stepCapture_inv hstack hraise
  · cases h

/-! ## Every run -/

def Inv (rel : Bool → Bool → Prop) (s : Session) : Prop :=
  Good rel s.stack s.disableErrorCapture s.holdsLock s.raising

/-- An ERROR leaves an enqueuing call that has set the guard and does not restore it:
capture was enabled before, and the statement is not inside `PG_TRY`. -/
def Escapes (s : Session) (l : Label) : Prop :=
  l = .unwind ∧ ∃ c pc below, s.stack = .enqueue c false pc :: below ∧ pc.guards = true ∧
    pc.inTry = false

theorem inv_init (hrel : GuardRel rel) (h : Init s) : Inv rel s := by
  obtain ⟨hstack, hguard, hlock, hraise, -⟩ := h
  unfold Inv
  rw [hstack, hguard, hlock, hraise]
  refine ⟨hrel.refl false, trivial, rfl, List.forall_mem_nil _, ?_⟩
  intro h
  cases h

/-- The running call waits while it reports something. -/
theorem waits_of_mayReport (h : s.mayReport = true) : ∀ f ∈ s.stack.head?, f.waits = true := by
  unfold mayReport at h
  cases hstack : s.stack with
  | nil =>
    intro f hf
    cases hf
  | cons f below =>
    rintro g hg
    cases hg
    rw [hstack] at h
    simp only [Bool.and_eq_true] at h
    cases f with
    | enqueue c saved pc =>
      cases pc with
      | contended => rfl
      | _ => exact h.1
    | localBatchAdd e pc =>
      cases pc with
      | init => rfl
      | _ => cases h.1
    | emitLogHook => rfl
    | captureLogEvent => rfl

theorem Inv.of_stack {stack : List Frame} (hi : Inv rel s) (hstack : s.stack = stack) :
    Good rel stack s.disableErrorCapture s.holdsLock s.raising := by
  rw [← hstack]
  exact hi

/-- Nothing is on its way when nothing is running. -/
theorem Inv.not_raising (hi : Inv rel s) (hstack : s.stack = []) : s.raising = false := by
  by_contra hraise
  obtain ⟨f, hf, -⟩ := hi.raised (by simpa using hraise)
  rw [hstack] at hf
  cases hf

theorem Inv.not_raising_of_mayReport (hi : Inv rel s) (h : s.mayReport = true) :
    s.raising = false := by
  unfold mayReport at h
  cases hstack : s.stack with
  | nil => exact hi.not_raising hstack
  | cons f below =>
    rw [hstack] at h
    simpa using (Bool.and_eq_true_iff.mp h).2

theorem Inv.step (hrel : GuardRel rel) (hesc : Escapes s l → ∀ g, rel g true) (hi : Inv rel s)
    (h : Step s l s') : Inv rel s' := by
  -- a call from outside the hooks finds nothing on the stack
  have hidle : s.stack = [] → ∀ c, Inv rel (s.beginEnqueue c) := by
    intro hstack c
    have hgood := hi.pushEnqueue hrel (by simp [hstack]) (hi.not_raising hstack)
      (by simp [hstack, Quiet]) c
    exact hgood
  cases h with
  | enqueueEvent e hstack => exact hidle hstack (.event e)
  | enqueueNothing e hstack => exact hi
  | flush hstack => exact hidle hstack (.batch s.localBatchCount)
  | flushNothing enabled hstack => exact hi
  | emit hreport =>
    exact hi.push (waits_of_mayReport hreport) (hi.not_raising_of_mayReport hreport) hi.guard
      trivial rfl
  | raise f below hstack hreport =>
    refine ⟨hi.guard, hi.frames, hi.lock, hi.below, fun _ => ⟨f, by simp [hstack], ?_⟩⟩
    exact waits_of_mayReport hreport f (by simp [hstack])
  | leave f below hstack hraise hhandles =>
    replace hi := hi.of_stack hstack
    rw [hraise] at hi
    -- only here can the guard be left set: the relation has to allow it, or the exit is no escape
    refine hi.leave hrel hhandles ?_
    rintro c pc rfl hguards htry
    exact hesc ⟨rfl, c, pc, below, hstack, hguards, htry⟩
  | cleanUp c saved pc below hstack hraise htry =>
    replace hi := hi.of_stack hstack
    -- inside `PG_TRY` the guard is set and the lock is held, so the handler has both to undo
    have hpc : pc.guards = true ∧ pc.locks = true := by
      cases pc <;> first | exact ⟨rfl, rfl⟩ | cases htry
    exact hi.replace rfl hpc.1.symm hpc.2.symm ⟨hi.frames.1.1, hi.frames.1.2.1, by rintro ⟨⟩⟩
  | caught below hstack hraise =>
    exact ⟨hi.guard, hi.frames, hi.lock, hi.below, Good.not_raised rfl⟩
  | next a c saved pc pc' below hstack hraise hpc hpc' hlocks =>
    replace hi := hi.of_stack hstack
    refine hi.replace hraise (hpc'.trans hpc.symm) hlocks
      ⟨hi.frames.1.1, hi.frames.1.2.1, ?_⟩
    rintro rfl
    cases hpc'
  | overflowed a c saved below hstack hraise =>
    replace hi := hi.of_stack hstack
    exact hi.ret hraise hi.frames.1.2.1 rfl
  | acquired a c saved below hstack hraise hlock =>
    replace hi := hi.of_stack hstack
    obtain ⟨hquiet, hsaved, -⟩ := hi.frames.1
    exact ⟨hi.guard, ⟨⟨hquiet, hsaved, by rintro ⟨⟩⟩, hi.frames.2⟩, rfl, hi.below,
      Good.not_raised hraise⟩
  | contended a e saved pc below hstack hraise =>
    exact (hi.of_stack hstack).contend pc hraise
  | finished a c saved rethrow below hstack hraise =>
    replace hi := hi.of_stack hstack
    exact hi.unlock hi.frames.1.2.1 hi.frames.1.1 (by simp)
  | buffered a c saved below hstack hraise =>
    replace hi := hi.of_stack hstack
    exact hi.ret hraise hi.guard rfl
  | registered a e below hstack hraise =>
    replace hi := hi.of_stack hstack
    exact hi.replace hraise rfl rfl hi.frames.1
  | flushFull a e below hstack hraise =>
    -- the flush runs above the frame that will copy the event when it returns
    replace hi := hi.of_stack hstack
    have hframe : Good rel (.localBatchAdd e .copy :: below) s.disableErrorCapture s.holdsLock
        s.raising := hi.replace hraise rfl rfl hi.frames.1
    have hgood := hframe.pushEnqueue hrel (by simp [Frame.waits]) hraise
      (Quiet.cons ⟨rfl, rfl⟩ hi.frames.1) (.batch s.localBatchCount)
    exact hgood
  | room a e count below hstack hraise hlt =>
    replace hi := hi.of_stack hstack
    exact hi.replace hraise rfl rfl hi.frames.1
  | copied a e below hstack hraise =>
    replace hi := hi.of_stack hstack
    exact hi.ret hraise hi.guard rfl
  | ignored a below hstack hraise =>
    replace hi := hi.of_stack hstack
    exact hi.ret hraise hi.guard rfl
  | capture a below hstack hraise hguard =>
    replace hi := hi.of_stack hstack
    rw [hguard] at hi
    exact hi.capture hrel hraise
  | captured a below hstack hraise =>
    replace hi := hi.of_stack hstack
    -- the hook captured, so capture was enabled below it
    have hfree : guarded below = false := hi.frames.1
    refine hi.ret hraise ?_ rfl
    rw [hfree]
    exact hrel.refl false
  | built a below hstack hraise =>
    -- the event goes into the queue with `CaptureLogEvent` still on the stack
    replace hi := hi.of_stack hstack
    have hframe : Good rel (.captureLogEvent true :: below) s.disableErrorCapture s.holdsLock
        s.raising := hi.replace hraise rfl rfl hi.frames.1
    have hgood := hframe.pushEnqueue hrel (by simp [Frame.waits]) hraise
      (Quiet.cons ⟨rfl, rfl⟩ hi.frames.1.1) (.event a.event)
    exact hgood
  | builtNothing a below hstack hraise =>
    replace hi := hi.of_stack hstack
    exact hi.replace hraise rfl rfl hi.frames.1
  | captureDone a below hstack hraise =>
    replace hi := hi.of_stack hstack
    exact hi.ret hraise hi.guard_captureLogEvent rfl

theorem inv_reachable (hs : machine.toSpec.Reachable s) :
    Inv (fun g v => g = true → v = true) s := by
  refine hs.invariant (fun _ => inv_init guardRel_imp) ?_
  rintro s s' hi ⟨l, hl⟩
  exact hi.step guardRel_imp (fun _ _ _ => rfl) (step_cases hl)

/-- As long as no ERROR has escaped, the guard is set only while somebody needs it. -/
theorem inv_exact (hs : (machine.under fun s l => ¬ Escapes s l).Reachable s) :
    Inv (fun g v => v = g) s := by
  refine Machine.invariant_under (fun _ _ => trivial) (fun _ => inv_init guardRel_eq) ?_ hs
  rintro s s' l - hi hok hl
  exact hi.step guardRel_eq (fun hesc => absurd hesc hok) (step_cases hl)

end Session

end PgStatCh
