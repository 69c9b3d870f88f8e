import PgStatCh.Queue.Conservation
import PgStatCh.Queue.FastPath

/-!
# Queue.Reset — the counters and the overflow warning, over resets

`PschResetStats` sets `enqueued` and `dropped` to 0 and clears `overflow_logged`, one after the
other, with the queue lock held. `HandleOverflow` counts a drop and then tests and sets the flag,
and on the lock-free path it does so without the lock: both operations can fall anywhere among the
stores of a reset.

`Shmem` counts as if nobody ever reset anything. Here its counters are history, and the real ones
stand beside them.

* `counted_since_reset` — whenever no producer is between `head` and `enqueued`, `enqueued` is the
  number of events published since the last reset, and `dropped` the number of drops: since a
  producer advances both with the lock held, no reset falls in between.
* `overflow_warned_once` — between two resets the warning is logged at most once. It is logged if
  a drop is counted, apart from drops that are not yet through `HandleOverflow` and those that
  fell between the store to `dropped` and the clearing of the flag: these are counted, and the
  flag that they found set is cleared after them (`overflow_warned_once_slipped`).

Left out: `exported`, `send_failures` and `dsa_oom_count`, which are set to 0 as `dropped` is.
-/

namespace PgStatCh

open Lib Tla

/-! ## Who counts what in a step -/

theorem Backend.Step.tally {cfg : Config} {b : cfg.Proc} {a : Answer} {sh sh' : Shmem cfg}
    {be be' : Backend} (h : Backend.Step b a sh be sh' be') :
    ∃ ret, sh'.tally = Function.update sh.tally b ((sh.tally b).after ret) := by
  have hnone : sh.tally = Function.update sh.tally b ((sh.tally b).after none) :=
    (Function.update_eq_self b sh.tally).symm
  cases h with
  | fastDrop => exact ⟨some false, rfl⟩
  | acquired c sh' hb hacquire => exact ⟨none, (Shmem.acquire_tally hacquire).trans hnone⟩
  | enqueue c e rest n sh' hb hbegin => exact ⟨none, (Shmem.beginEnqueue_tally hbegin).trans hnone⟩
  | inside c rest n sh' hb htry => exact ⟨none, Shmem.tryStep_tally htry⟩
  | enqueued c rest n sh' hb htry => exact ⟨some true, Shmem.tryStep_tally htry⟩
  | dropped c rest n sh' hb htry => exact ⟨some false, Shmem.tryStep_tally htry⟩
  | unlock c n sh' hb hrelease => exact ⟨none, (Shmem.release_tally hrelease).trans hnone⟩
  | _ => exact ⟨none, hnone⟩

namespace Shmem

variable {cfg : Config} {s s' : Shmem cfg}

/-! ## The lock -/

theorem tryStep_lock {b : cfg.Proc} {a : Answer} {force : Bool} {ret : Option Bool}
    (h : s.tryStep b a force = some (s', ret)) : s'.lock = s.lock := by
  unfold tryStep at h
  split at h
  · cases h
  · cases h
  · cases h
    rfl
  · split at h <;> cases h <;> rfl
  · cases h
    rfl
  · cases h
    rfl
  · simp only [Option.map_eq_some_iff, Prod.exists, Prod.mk.injEq] at h
    obtain ⟨m', slot', pc', -, rfl, -⟩ := h
    rfl
  · cases h
    rfl

/-- The consumer works without the lock. -/
theorem dequeueStep_lock (h : s.dequeueStep = some s') : s'.lock = s.lock := by
  unfold dequeueStep at h
  split at h
  · cases h
  · split at h <;> cases h <;> rfl
  · cases h
    rfl
  · simp only [Option.map_eq_some_iff, Prod.exists] at h
    obtain ⟨m', out', pc', -, rfl⟩ := h
    rfl

/-! ## Published and counted -/

/-- An event is counted right after it is published. -/
structure Bumped (s : Shmem cfg) : Prop where
  counted : (∀ b, s.phase b ≠ .bump) → s.published.length = ∑ b, (s.tally b).enqueued
  between : ∀ b, s.phase b = .bump → s.published.length = ∑ b, (s.tally b).enqueued + 1

/-- A step of a producer that neither publishes nor counts. -/
theorem Bumped.setPhase (h : Bumped s) {b : cfg.Proc} {ph : Phase} (hb : s.phase b ≠ .bump)
    (hph : ph ≠ .bump) (hphase : s'.phase = Function.update s.phase b ph)
    (hpublished : s'.published = s.published)
    (htally : ∑ b, (s'.tally b).enqueued = ∑ b, (s.tally b).enqueued) : Bumped s' := by
  have hsame : ∀ b', s'.phase b' = .bump ↔ s.phase b' = .bump := by
    intro b'
    rw [hphase]
    by_cases heq : b' = b
    · subst heq
      rw [Function.update_self]
      exact ⟨fun h => absurd h hph, fun h => absurd h hb⟩
    · rw [Function.update_of_ne heq]
  constructor
  · intro hnone
    rw [hpublished, htally]
    exact h.counted fun b' hb' => hnone b' ((hsame b').mpr hb')
  · intro b' hb'
    rw [hpublished, htally]
    exact h.between b' ((hsame b').mp hb')

theorem Bumped.step (hi : Inv s) (h : Bumped s) (hstep : Step s s') : Bumped s' := by
  have hne : ∀ {b : cfg.Proc} {ph : Phase}, s.phase b = ph → ph ≠ .bump → s.phase b ≠ .bump := by
    intro b ph hb hph heq
    rw [hb] at heq
    exact hph heq
  cases hstep with
  | acquire b hb _ | release b hb | beginEnqueue b e hb | readHead b e hb | full b e head hb
  | room b e head hb _ | build b a e head pc m' slot' pc' hb _ =>
    exact h.setPhase (hne hb (by simp)) (by simp) rfl rfl rfl
  | overflow b hb =>
    exact h.setPhase (hne hb (by simp)) (by simp) rfl rfl (sum_drop s.tally b).1
  | fastOverflow b =>
    have hsum := (sum_drop s.tally b).1
    exact ⟨fun hnone => (h.counted hnone).trans hsum.symm,
      fun b' hb' => (h.between b' hb').trans (congrArg (· + 1) hsum.symm)⟩
  | publish b e head errBlock met hb =>
    -- no other producer is inside
    have hnone : ∀ b', s.phase b' ≠ .bump := by
      intro b' hb'
      have heq : b' = b := hi.only_one (by rw [hb']; simp) (by rw [hb]; simp)
      rw [heq, hb] at hb'
      cases hb'
    have hlen : (s.published ++ [(⟨e, s.slotAt head, errBlock, met⟩ : Published)]).length =
        ∑ b', (s.tally b').enqueued + 1 := by
      rw [List.length_append, List.length_singleton, h.counted hnone]
    constructor
    · intro hall
      refine absurd ?_ (hall b)
      exact Function.update_self b Phase.bump s.phase
    · exact fun _ _ => hlen
  | bump b hb =>
    have hlen := h.between b hb
    have hsum := (sum_enqueue s.tally b).1
    constructor
    · exact fun _ => hlen.trans hsum.symm
    · intro b' hb'
      exfalso
      by_cases heq : b' = b
      · subst heq
        change Function.update s.phase b' Phase.locked b' = _ at hb'
        rw [Function.update_self] at hb'
        cases hb'
      · change Function.update s.phase b Phase.locked b' = _ at hb'
        rw [Function.update_of_ne heq] at hb'
        exact heq (hi.only_one (by rw [hb']; simp) (by rw [hb]; simp))
  | _ => exact ⟨h.counted, h.between⟩

theorem bumped_reachable (hs : (machine cfg).toSpec.Reachable s) : Bumped s := by
  refine Spec.Reachable.invariant_of (fun _ => inv_reachable) ?_ ?_ hs
  · rintro s ⟨start, slots, rfl⟩
    constructor
    · intro _
      simp
    · intro b hb
      cases hb
  · rintro s s' hi h ⟨l, hstep⟩
    exact h.step hi (step_cases hstep)

/-- With the lock elsewhere no producer is inside. -/
theorem Inv.no_bump (hi : Inv s) (hlock : s.lock = some .other) (b : cfg.Proc) :
    s.phase b ≠ .bump := by
  intro hb
  have hown := (hi.lock b).mp (by rw [hb]; simp)
  rw [hlock] at hown
  cases hown

end Shmem

theorem Backend.Step.lock {cfg : Config} {b : cfg.Proc} {a : Answer} {sh sh' : Shmem cfg}
    {be be' : Backend} (hi : Shmem.Inv sh) (h : Backend.Step b a sh be sh' be')
    (hlock : sh.lock = some .other) : sh'.lock = some .other := by
  cases h with
  | acquired c sh' hb hacquire =>
    simp [Shmem.acquire, hlock] at hacquire
  | enqueue c e rest n sh' hb hbegin =>
    unfold Shmem.beginEnqueue at hbegin
    split at hbegin <;> cases hbegin
    exact hlock
  | inside c rest n sh' hb htry | enqueued c rest n sh' hb htry | dropped c rest n sh' hb htry =>
    exact (Shmem.tryStep_lock htry).trans hlock
  | unlock c n sh' hb hrelease =>
    unfold Shmem.release at hrelease
    split at hrelease
    · next hphase =>
      have hown := (hi.lock b).mp (by rw [hphase]; simp)
      rw [hlock] at hown
      cases hown
    · cases hrelease
  | _ => exact hlock

/-- Another user keeps the lock until it releases it. -/
theorem Queue.step_lock {cfg : Config} {s s' : Queue cfg} {l : Queue.Label cfg}
    (hi : Shmem.Inv s.shmem) (h : Queue.step l s = some s') (hl : l ≠ .releaseOther)
    (hlock : s.shmem.lock = some .other) : s'.shmem.lock = some .other := by
  cases Queue.step_cases h with
  | step b a sh' be' hbe => exact hbe.lock hi hlock
  | shared l l' sh' hshared hsh =>
    cases l with
    | acquireOther =>
      cases hshared
      simp [Shmem.step, hlock] at hsh
    | releaseOther => exact absurd rfl hl
    | beginDequeue buf =>
      cases hshared
      simp only [Shmem.step, Shmem.beginDequeue] at hsh
      split at hsh <;> cases hsh
      exact hlock
    | dequeueStep =>
      cases hshared
      exact (Shmem.dequeueStep_lock hsh).trans hlock
    | _ => cases hshared
  | _ => exact hlock

/-! ## The real counters -/

/-- Which store of `PschResetStats` comes next. -/
inductive ResetPc where
  | out
  | storeEnqueued
  | storeDropped
  | clearFlag
  | unlock
deriving DecidableEq, Repr

structure Stats (cfg : Config) where
  queue : Queue cfg
  /-- `psch_shared_state->enqueued` -/
  enqueued : UInt64 := 0
  /-- `psch_shared_state->dropped` -/
  dropped : UInt64 := 0
  /-- `psch_shared_state->overflow_logged` -/
  overflowLogged : Bool := false
  /-- between the two operations of `HandleOverflow`; history: is the drop still in `dropped`? -/
  testing : cfg.Proc → Option Bool := fun _ => none
  reset : ResetPc := .out
  /-- history: how many events were published when `enqueued` was last set to 0 -/
  publishedAt : ℕ := 0
  /-- history: how often the processes had counted a drop when `dropped` was last set to 0 -/
  droppedAt : ℕ := 0
  /-- history: how often the warning was logged since the flag was last cleared -/
  warnings : ℕ := 0
  /-- history: the drops since the last reset that are through `HandleOverflow`; those that were
  before the flag was cleared, while that is still to come; and after it was -/
  window : ℕ := 0
  slipped : ℕ := 0
  finished : ℕ := 0

namespace Stats

variable {cfg : Config}

inductive Label (cfg : Config) where
  /-- a step of the queue; a drop is counted here -/
  | queue (l : Queue.Label cfg)
  /-- `pg_atomic_test_set_flag` in `HandleOverflow` -/
  | testSetFlag (b : cfg.Proc)
  /-- `PschResetStats` gets the lock -/
  | acquire
  | store

/-- How often the processes have counted a drop. -/
def drops (sh : Shmem cfg) : ℕ := ∑ b, (sh.tally b).dropped

/-- A process inside `HandleOverflow` makes no other step, and nobody but `PschResetStats`
releases the lock that it has. -/
def mayStep (s : Stats cfg) (l : Queue.Label cfg) : Bool :=
  (match l.proc with
    | some b => (s.testing b).isNone
    | none => true) &&
  (match l with
    | .releaseOther => decide (s.reset = .out)
    | _ => true)

/-- What a process has counted in `Shmem`, it counts in the real counters. -/
def follow (s : Stats cfg) (l : Queue.Label cfg) (q : Queue cfg) : Stats cfg :=
  match l with
  | .step b _ =>
    let enqueues := (q.shmem.tally b).enqueued - (s.queue.shmem.tally b).enqueued
    let drops := (q.shmem.tally b).dropped - (s.queue.shmem.tally b).dropped
    { s with
      queue := q
      enqueued := s.enqueued + UInt64.ofNat enqueues
      dropped := s.dropped + UInt64.ofNat drops
      testing := if drops = 0 then s.testing else Function.update s.testing b (some true) }
  | _ => { s with queue := q }

/-- The flag was clear: the warning is logged. -/
def testSetFlag (s : Stats cfg) : Stats cfg :=
  { s with
    overflowLogged := true
    warnings := if s.overflowLogged then s.warnings else s.warnings + 1 }

/-- Where a drop goes that is through `HandleOverflow`. -/
def finish (s : Stats cfg) (counted : Bool) : Stats cfg :=
  if counted then
    if s.reset = .clearFlag then { s with window := s.window + 1 }
    else { s with finished := s.finished + 1 }
  else s

def step : Label cfg → Stats cfg → Option (Stats cfg)
  | .queue l, s => if s.mayStep l then (Queue.step l s.queue).map (s.follow l) else none
  | .testSetFlag b, s =>
    match s.testing b with
    | some counted =>
      some { (s.testSetFlag).finish counted with testing := Function.update s.testing b none }
    | none => none
  | .acquire, s =>
    match s.reset with
    | .out => (Queue.step .acquireOther s.queue).map fun q =>
        { s with queue := q, reset := .storeEnqueued }
    | _ => none
  | .store, s =>
    match s.reset with
    | .out => none
    | .storeEnqueued => some { s with
        enqueued := 0
        publishedAt := s.queue.shmem.published.length
        reset := .storeDropped }
    | .storeDropped => some { s with
        dropped := 0
        droppedAt := drops s.queue.shmem
        testing := fun b => (s.testing b).map fun _ => false
        window := 0
        slipped := 0
        finished := 0
        reset := .clearFlag }
    | .clearFlag => some { s with
        overflowLogged := false
        warnings := 0
        slipped := s.window
        window := 0
        reset := .unlock }
    | .unlock => (Queue.step .releaseOther s.queue).map fun q => { s with queue := q, reset := .out }

/-- As `InitializeSharedState` leaves it. -/
def Init (s : Stats cfg) : Prop := ∃ queue, Queue.Init queue ∧ s = { queue }

def machine (cfg : Config) : Machine (Stats cfg) (Label cfg) where
  Init := Init
  step := step

/-! ## What a step can do -/

variable {s s' : Stats cfg}

/-- What a step can do. The first three are steps of the queue. -/
inductive Step (s : Stats cfg) : Stats cfg → Prop where
  | quiet (q : Queue cfg) (l : Queue.Label cfg) : Queue.step l s.queue = some q →
    (l = .releaseOther → s.reset = .out) → q.shmem.tally = s.queue.shmem.tally →
    Step s { s with queue := q }
  | enqueues (b : cfg.Proc) (a : Answer) (q : Queue cfg) : Queue.step (.step b a) s.queue = some q →
    q.shmem.tally =
      Function.update s.queue.shmem.tally b (s.queue.shmem.tally b).enqueue →
    Step s { s with queue := q, enqueued := s.enqueued + 1 }
  | drops (b : cfg.Proc) (a : Answer) (q : Queue cfg) : Queue.step (.step b a) s.queue = some q →
    s.testing b = none →
    q.shmem.tally = Function.update s.queue.shmem.tally b (s.queue.shmem.tally b).drop →
    Step s { s with
      queue := q
      dropped := s.dropped + 1
      testing := Function.update s.testing b (some true) }
  | testSetFlag (b : cfg.Proc) (counted : Bool) : s.testing b = some counted →
    Step s { (s.testSetFlag).finish counted with testing := Function.update s.testing b none }
  | acquire (q : Queue cfg) : s.reset = .out → Queue.step .acquireOther s.queue = some q →
    Step s { s with queue := q, reset := .storeEnqueued }
  | storeEnqueued : s.reset = .storeEnqueued →
    Step s { s with
      enqueued := 0
      publishedAt := s.queue.shmem.published.length
      reset := .storeDropped }
  | storeDropped : s.reset = .storeDropped →
    Step s { s with
      dropped := 0
      droppedAt := Stats.drops s.queue.shmem
      testing := fun b => (s.testing b).map fun _ => false
      window := 0
      slipped := 0
      finished := 0
      reset := .clearFlag }
  | clearFlag : s.reset = .clearFlag →
    Step s { s with
      overflowLogged := false
      warnings := 0
      slipped := s.window
      window := 0
      reset := .unlock }
  | unlock (q : Queue cfg) : s.reset = .unlock → Queue.step .releaseOther s.queue = some q →
    Step s { s with queue := q, reset := .out }

/-- Only a backend's own steps count. -/
theorem tally_of_other {l : Queue.Label cfg} {q q' : Queue cfg} (h : Queue.step l q = some q')
    (hl : ∀ b a, l ≠ .step b a) : q'.shmem.tally = q.shmem.tally := by
  cases Queue.step_cases h with
  | step b a => exact absurd rfl (hl b a)
  | shared l l' sh' hshared hsh => exact Queue.shared_tally hshared hsh
  | _ => rfl

theorem follow_of_other {l : Queue.Label cfg} {q : Queue cfg} (hl : ∀ b a, l ≠ .step b a) :
    s.follow l q = { s with queue := q } := by
  cases l with
  | step b a => exact absurd rfl (hl b a)
  | _ => rfl

theorem mayStep_releaseOther {l : Queue.Label cfg} (h : s.mayStep l = true)
    (hl : l = .releaseOther) : s.reset = .out := by
  subst hl
  simpa [mayStep, Queue.Label.proc] using h

/-- A step of a backend, by what it counts. -/
theorem step_cases_backend {b : cfg.Proc} {a : Answer} {q : Queue cfg}
    (h : Queue.step (.step b a) s.queue = some q) (hmay : s.mayStep (.step b a) = true) :
    Step s (s.follow (.step b a) q) := by
  have htesting : s.testing b = none := by
    simpa [mayStep, Queue.Label.proc] using hmay
  have htally : ∃ ret, q.shmem.tally = Function.update s.queue.shmem.tally b
      ((s.queue.shmem.tally b).after ret) := by
    cases Queue.step_cases h with
    | step b a sh' be' hbe => exact hbe.tally
    | shared l l' sh' hshared => cases hshared
  obtain ⟨ret, hret⟩ := htally
  have hb : q.shmem.tally b = (s.queue.shmem.tally b).after ret := by
    rw [hret, Function.update_self]
  have hzero : UInt64.ofNat 0 = 0 := rfl
  have hone : UInt64.ofNat 1 = 1 := rfl
  unfold follow
  simp only [hb]
  cases ret with
  | none =>
    have hsame : q.shmem.tally = s.queue.shmem.tally := by
      rw [hret]
      exact Function.update_eq_self b _
    simp only [Tally.after, Nat.sub_self, hzero, UInt64.add_zero, if_true]
    refine .quiet q (.step b a) h ?_ hsame
    intro hrelease
    cases hrelease
  | some enqueued =>
    cases enqueued with
    | true =>
      simp only [Tally.after, Tally.enqueue, Nat.add_sub_cancel_left, Nat.sub_self, hzero, hone,
        UInt64.add_zero, if_true]
      exact .enqueues b a q h hret
    | false =>
      simp only [Tally.after, Tally.drop, Nat.add_sub_cancel_left, Nat.sub_self, hzero, hone,
        UInt64.add_zero, one_ne_zero, if_false]
      exact .drops b a q h htesting hret

theorem step_cases {l : Label cfg} (h : step l s = some s') : Step s s' := by
  cases l with
  | queue l =>
    simp only [step] at h
    split at h
    · next hmay =>
      simp only [Option.map_eq_some_iff] at h
      obtain ⟨q, hq, rfl⟩ := h
      by_cases hl : ∃ b a, l = .step b a
      · obtain ⟨b, a, rfl⟩ := hl
        exact step_cases_backend hq hmay
      · have hother : ∀ b a, l ≠ .step b a := fun b a heq => hl ⟨b, a, heq⟩
        rw [follow_of_other hother]
        exact .quiet q l hq (mayStep_releaseOther hmay) (tally_of_other hq hother)
    · cases h
  | testSetFlag b =>
    simp only [step] at h
    split at h
    · next counted hcounted =>
      cases h
      exact .testSetFlag b counted hcounted
    · cases h
  | acquire =>
    simp only [step] at h
    split at h
    · next hout =>
      simp only [Option.map_eq_some_iff] at h
      obtain ⟨q, hq, rfl⟩ := h
      exact .acquire q hout hq
    · cases h
  | store =>
    simp only [step] at h
    split at h
    · cases h
    · next hpc =>
      cases h
      exact .storeEnqueued hpc
    · next hpc =>
      cases h
      exact .storeDropped hpc
    · next hpc =>
      cases h
      exact .clearFlag hpc
    · next hpc =>
      simp only [Option.map_eq_some_iff] at h
      obtain ⟨q, hq, rfl⟩ := h
      exact .unlock q hpc hq

/-! ## The queue -/

theorem finish_queue (s : Stats cfg) (counted : Bool) : (s.finish counted).queue = s.queue := by
  unfold finish
  split
  · split <;> rfl
  · rfl

/-- The queue behaves as if nobody ever reset anything. -/
theorem refines_queue (cfg : Config) :
    Refinement (machine cfg).toSpec (Queue.machine cfg).toSpec Stats.queue where
  init := by
    rintro s ⟨queue, hqueue, rfl⟩
    exact hqueue
  next := by
    rintro s s' - ⟨l, hl⟩
    cases step_cases hl with
    | quiet q l hq => exact Or.inl ⟨l, hq⟩
    | enqueues b a q hq | drops b a q hq => exact Or.inl ⟨.step b a, hq⟩
    | acquire q _ hq => exact Or.inl ⟨.acquireOther, hq⟩
    | unlock q _ hq => exact Or.inl ⟨.releaseOther, hq⟩
    | testSetFlag b counted => exact Or.inr (finish_queue _ counted)
    | storeEnqueued | storeDropped | clearFlag => exact Or.inr rfl

theorem shmem_reachable (hs : (machine cfg).toSpec.Reachable s) :
    (Shmem.machine cfg).toSpec.Reachable s.queue.shmem :=
  Queue.shmem_reachable ((refines_queue cfg).reachable hs)

/-! ## The counters -/

/-- How often the processes have counted an event. -/
def enqueues (sh : Shmem cfg) : ℕ := ∑ b, (sh.tally b).enqueued

/-- The real counters are what was counted since they were set to 0, and the reset has the
lock. -/
structure Counts (s : Stats cfg) : Prop where
  lock : s.reset ≠ .out → s.queue.shmem.lock = some .other
  publishedAt : s.publishedAt ≤ enqueues s.queue.shmem
  droppedAt : s.droppedAt ≤ drops s.queue.shmem
  enqueued : s.enqueued = UInt64.ofNat (enqueues s.queue.shmem - s.publishedAt)
  dropped : s.dropped = UInt64.ofNat (drops s.queue.shmem - s.droppedAt)

theorem ofNat_add_sub {n m : ℕ} (k : ℕ) (h : m ≤ n) :
    UInt64.ofNat (n - m) + UInt64.ofNat k = UInt64.ofNat (n + k - m) := by
  rw [Nat.sub_add_comm h, UInt64.ofNat_add]

/-- A step that counts `e` events and `d` drops in `Shmem` and in the real counters. -/
theorem Counts.next (h : Counts s) (e d : ℕ)
    (hlock : s'.reset ≠ .out → s'.queue.shmem.lock = some .other)
    (hpublishedAt : s'.publishedAt = s.publishedAt) (hdroppedAt : s'.droppedAt = s.droppedAt)
    (henqueues : enqueues s'.queue.shmem = enqueues s.queue.shmem + e)
    (hdrops : drops s'.queue.shmem = drops s.queue.shmem + d)
    (henqueued : s'.enqueued = s.enqueued + UInt64.ofNat e)
    (hdropped : s'.dropped = s.dropped + UInt64.ofNat d) : Counts s' := by
  refine ⟨hlock, ?_, ?_, ?_, ?_⟩
  · rw [hpublishedAt, henqueues]
    exact Nat.le_add_right_of_le h.publishedAt
  · rw [hdroppedAt, hdrops]
    exact Nat.le_add_right_of_le h.droppedAt
  · rw [henqueued, hpublishedAt, henqueues, h.enqueued]
    exact ofNat_add_sub e h.publishedAt
  · rw [hdropped, hdroppedAt, hdrops, h.dropped]
    exact ofNat_add_sub d h.droppedAt

/-- A step that counts nothing. -/
theorem Counts.same (h : Counts s) {q : Queue cfg} {reset : ResetPc}
    (htally : q.shmem.tally = s.queue.shmem.tally)
    (hlock : reset ≠ .out → q.shmem.lock = some .other) :
    Counts { s with queue := q, reset := reset } := by
  refine h.next 0 0 hlock rfl rfl ?_ ?_ (UInt64.add_zero _).symm (UInt64.add_zero _).symm
  · change ∑ b, (q.shmem.tally b).enqueued = _
    rw [htally]
    rfl
  · change ∑ b, (q.shmem.tally b).dropped = _
    rw [htally]
    rfl

theorem Counts.step (hi : Shmem.Inv s.queue.shmem) (hb : Shmem.Bumped s.queue.shmem)
    (h : Counts s) (hstep : Step s s') : Counts s' := by
  have hlock : ∀ {l : Queue.Label cfg} {q : Queue cfg}, Queue.step l s.queue = some q →
      (l = .releaseOther → s.reset = .out) → s.reset ≠ .out → q.shmem.lock = some .other := by
    intro l q hq hl hreset
    exact Queue.step_lock hi hq (fun heq => hreset (hl heq)) (h.lock hreset)
  have hbackend : ∀ {b : cfg.Proc} {a : Answer},
      (Queue.Label.step b a : Queue.Label cfg) = .releaseOther → s.reset = .out := by
    intro b a heq
    cases heq
  cases hstep with
  | quiet q l hq hl htally => exact h.same htally (hlock hq hl)
  | enqueues b a q hq htally =>
    obtain ⟨henq, hdrop⟩ := Shmem.sum_enqueue s.queue.shmem.tally b
    rw [← htally] at henq hdrop
    exact h.next 1 0 (hlock hq hbackend) rfl rfl henq hdrop rfl (UInt64.add_zero _).symm
  | drops b a q hq htesting htally =>
    obtain ⟨henq, hdrop⟩ := Shmem.sum_drop s.queue.shmem.tally b
    rw [← htally] at henq hdrop
    exact h.next 0 1 (hlock hq hbackend) rfl rfl henq hdrop (UInt64.add_zero _).symm rfl
  | testSetFlag b counted hcounted =>
    unfold finish
    split
    · split <;> exact ⟨h.lock, h.publishedAt, h.droppedAt, h.enqueued, h.dropped⟩
    · exact ⟨h.lock, h.publishedAt, h.droppedAt, h.enqueued, h.dropped⟩
  | acquire q hout hq =>
    refine h.same (tally_of_other hq fun b a heq => by cases heq) fun _ => ?_
    simp only [Queue.step, Queue.shared, Shmem.step, Option.map_eq_some_iff] at hq
    obtain ⟨sh', hsh, rfl⟩ := hq
    split at hsh <;> cases hsh
    rfl
  | storeEnqueued hpc =>
    have hown := h.lock (by rw [hpc]; decide)
    -- no producer is between `head` and `enqueued`
    have hlen := hb.counted (hi.no_bump hown)
    refine ⟨fun _ => hown, hlen.le, h.droppedAt, ?_, h.dropped⟩
    change (0 : UInt64) = UInt64.ofNat (enqueues s.queue.shmem - s.queue.shmem.published.length)
    rw [hlen, enqueues, Nat.sub_self]
    rfl
  | storeDropped hpc =>
    refine ⟨fun _ => h.lock (by rw [hpc]; decide), h.publishedAt, le_rfl, h.enqueued, ?_⟩
    change (0 : UInt64) = UInt64.ofNat (Stats.drops s.queue.shmem - Stats.drops s.queue.shmem)
    rw [Nat.sub_self]
    rfl
  | clearFlag hpc =>
    exact ⟨fun _ => h.lock (by rw [hpc]; decide), h.publishedAt, h.droppedAt, h.enqueued,
      h.dropped⟩
  | unlock q hpc hq =>
    exact h.same (tally_of_other hq fun b a heq => by cases heq) fun hreset => absurd rfl hreset

theorem counts_reachable (hs : (machine cfg).toSpec.Reachable s) : Counts s := by
  have hknown : ∀ s : Stats cfg, (machine cfg).toSpec.Reachable s →
      Shmem.Inv s.queue.shmem ∧ Shmem.Bumped s.queue.shmem := by
    intro s hs
    exact ⟨Shmem.inv_reachable (shmem_reachable hs), Shmem.bumped_reachable (shmem_reachable hs)⟩
  refine Spec.Reachable.invariant_of hknown ?_ ?_ hs
  · rintro s ⟨queue, ⟨⟨start, slots, hsh⟩, -⟩, rfl⟩
    have henq : enqueues queue.shmem = 0 := by
      rw [hsh]
      simp [enqueues]
    have hdrop : drops queue.shmem = 0 := by
      rw [hsh]
      simp [drops]
    refine ⟨fun hreset => absurd rfl hreset, Nat.zero_le _, Nat.zero_le _, ?_, ?_⟩
    · rw [henq]
      rfl
    · rw [hdrop]
      rfl
  · rintro s s' ⟨hi, hb⟩ h ⟨l, hl⟩
    exact h.step hi hb (step_cases hl)

/-- Whenever no producer is between `head` and `enqueued`, the counters say how many events were
published and how many dropped since they were last set to 0. -/
theorem counted_since_reset (s : Stats cfg) (hs : (machine cfg).toSpec.Reachable s)
    (hbump : ∀ b, s.queue.shmem.phase b ≠ .bump) :
    s.publishedAt ≤ s.queue.shmem.published.length ∧
    s.enqueued = UInt64.ofNat (s.queue.shmem.published.length - s.publishedAt) ∧
    s.dropped = UInt64.ofNat (drops s.queue.shmem - s.droppedAt) := by
  have h := counts_reachable hs
  have hlen := (Shmem.bumped_reachable (shmem_reachable hs)).counted hbump
  rw [hlen]
  exact ⟨h.publishedAt, h.enqueued, h.dropped⟩

/-- `PschResetStats` as far as the clearing of the flag, and the rest of it. -/
def resetUpToFlag : List (Label sampleConfig) := [.acquire, .store, .store]

def resetRest : List (Label sampleConfig) := [.store, .store]

/-- Backend 2 calls `PschEnqueueEvent`, and takes the ring for full because an event goes through it
between its reads of `head` and `tail`. -/
def takenForFull : List (Label sampleConfig) :=
  [.queue (.call proc₂ {}), .queue (.step proc₂ {})] ++ Queue.inAndOut.map .queue ++
    [.queue (.step proc₂ {})]

/-- It drops its event. -/
def dropOne : List (Label sampleConfig) :=
  .queue (.step proc₂ {}) :: .testSetFlag proc₂ :: List.replicate 2 (.queue (.step proc₂ {}))

def sample : Stats sampleConfig := { queue := Queue.sample }

theorem sample_reachable (ls : List (Label sampleConfig)) :
    (machine sampleConfig).toSpec.Reachable ((machine sampleConfig).run sample ls) :=
  (machine sampleConfig).run_reachable _ (.init ⟨_, Queue.sample_init, rfl⟩) ls

/-- One event is enqueued, the counters are reset, and another one is. -/
def resetBetween : List (Label sampleConfig) :=
  (Queue.enqueueOne proc₀ 8 { queryLen := 1 }).map .queue ++ resetUpToFlag ++ resetRest ++
    (Queue.enqueueOne proc₀ 16 { queryLen := 2 }).map .queue

theorem counted_since_reset_between :
    let s := (machine sampleConfig).run sample resetBetween
    s.queue.shmem.published.length = 2 ∧ s.enqueued = UInt64.ofNat (2 - 1) := by
  intro s
  have hlen : s.queue.shmem.published.length = 2 := by decide +kernel
  have hpublishedAt : s.publishedAt = 1 := by decide +kernel
  have hphase : ∀ b, (match s.queue.shmem.phase b with | .bump => true | _ => false) = false := by
    decide +kernel
  have hbump : ∀ b, s.queue.shmem.phase b ≠ .bump := by
    intro b heq
    have h := hphase b
    rw [heq] at h
    cases h
  obtain ⟨-, henqueued, -⟩ := counted_since_reset s (sample_reachable _) hbump
  rw [hlen, hpublishedAt] at henqueued
  exact ⟨hlen, henqueued⟩

/-! ## The warning -/

/-- A process inside `HandleOverflow` whose drop is still in `dropped`. -/
def weight : Option Bool → ℕ
  | some true => 1
  | _ => 0

/-- The processes inside `HandleOverflow`. -/
def inside (s : Stats cfg) : ℕ := ∑ b, (if (s.testing b).isSome then 1 else 0)

/-- Every drop that is counted is somewhere, and those that came after the flag was cleared have
set it. -/
structure Flagged (s : Stats cfg) : Prop where
  balance : drops s.queue.shmem =
    s.droppedAt + (s.window + s.slipped + s.finished + ∑ b, weight (s.testing b))
  window : s.reset ≠ .clearFlag → s.window = 0
  flag : s.reset ≠ .clearFlag → 0 < s.finished → s.overflowLogged = true
  cleared : s.reset = .clearFlag → s.slipped = 0 ∧ s.finished = 0
  warnings : s.warnings = if s.overflowLogged then 1 else 0

/-- A step that counts no drop and does not move the reset over the flag. -/
theorem Flagged.same (h : Flagged s) {q : Queue cfg} {reset : ResetPc} {enqueued : UInt64}
    (hdrops : drops q.shmem = drops s.queue.shmem)
    (hreset : reset = .clearFlag ↔ s.reset = .clearFlag) {publishedAt : ℕ} :
    Flagged { s with
      queue := q, reset := reset, enqueued := enqueued, publishedAt := publishedAt } :=
  ⟨hdrops.trans h.balance, fun hne => h.window (hreset.not.mp hne),
    fun hne => h.flag (hreset.not.mp hne), fun heq => h.cleared (hreset.mp heq), h.warnings⟩

theorem drops_eq {sh sh' : Shmem cfg} (h : sh'.tally = sh.tally) : drops sh' = drops sh := by
  rw [drops, h]
  rfl

/-- The flag is set, and the warning logged if it was not. -/
theorem testSetFlag_warnings (h : s.warnings = if s.overflowLogged then 1 else 0) :
    s.testSetFlag.warnings = 1 := by
  unfold testSetFlag
  cases hflag : s.overflowLogged with
  | true =>
    rw [hflag] at h
    exact h
  | false =>
    rw [hflag] at h
    simp [h]

theorem Flagged.testSetFlag (h : Flagged s) {b : cfg.Proc} {counted : Bool}
    (hb : s.testing b = some counted) :
    Flagged { (s.testSetFlag).finish counted with
      testing := Function.update s.testing b none } := by
  have hwarnings := testSetFlag_warnings h.warnings
  have hsum : ∑ b', weight (s.testing b') =
      ∑ b', weight (Function.update s.testing b none b') + weight (some counted) := by
    rw [sum_update_eq s.testing weight b none, sum_eq_restSum s.testing weight b, hb]
    rfl
  have hbalance := h.balance
  rw [hsum] at hbalance
  cases counted with
  | true =>
    by_cases hreset : s.reset = .clearFlag
    · have hfinish : (s.testSetFlag).finish true =
          { s.testSetFlag with window := s.window + 1 } := by
        simp [finish, Stats.testSetFlag, hreset]
      rw [hfinish]
      refine ⟨?_, fun hne => absurd hreset hne, fun hne => absurd hreset hne, h.cleared,
        hwarnings⟩
      change drops s.queue.shmem = s.droppedAt + (s.window + 1 + s.slipped + s.finished + _)
      rw [hbalance]
      simp only [weight]
      omega
    · have hfinish : (s.testSetFlag).finish true =
          { s.testSetFlag with finished := s.finished + 1 } := by
        simp [finish, Stats.testSetFlag, hreset]
      rw [hfinish]
      refine ⟨?_, h.window, fun _ _ => rfl, fun heq => absurd heq hreset, hwarnings⟩
      change drops s.queue.shmem = s.droppedAt + (s.window + s.slipped + (s.finished + 1) + _)
      rw [hbalance]
      simp only [weight]
      omega
  | false =>
    exact ⟨hbalance, h.window, fun _ _ => rfl, h.cleared, hwarnings⟩

theorem Flagged.step (h : Flagged s) (hstep : Step s s') : Flagged s' := by
  cases hstep with
  | quiet q l hq hl htally => exact h.same (drops_eq htally) Iff.rfl
  | enqueues b a q hq htally =>
    refine h.same ?_ Iff.rfl
    rw [drops, htally]
    exact (Shmem.sum_enqueue s.queue.shmem.tally b).2
  | drops b a q hq htesting htally =>
    have hsum : ∑ b', weight (Function.update s.testing b (some true) b') =
        ∑ b', weight (s.testing b') + 1 := by
      rw [sum_update_eq s.testing weight b (some true), sum_eq_restSum s.testing weight b,
        htesting]
      rfl
    have hdrops : Stats.drops q.shmem = Stats.drops s.queue.shmem + 1 := by
      rw [Stats.drops, htally]
      exact (Shmem.sum_drop s.queue.shmem.tally b).2
    refine ⟨?_, h.window, h.flag, h.cleared, h.warnings⟩
    change Stats.drops q.shmem = s.droppedAt + (s.window + s.slipped + s.finished + _)
    rw [hsum, hdrops, h.balance]
    omega
  | testSetFlag b counted hcounted => exact h.testSetFlag hcounted
  | acquire q hout hq =>
    refine h.same (drops_eq (tally_of_other hq fun b a heq => by cases heq)) ?_
    rw [hout]
    decide
  | storeEnqueued hpc =>
    refine h.same rfl ?_
    rw [hpc]
    decide
  | storeDropped hpc =>
    -- the drops under way are no longer in `dropped`
    have hnone : ∑ b, weight ((s.testing b).map fun _ => false) = 0 := by
      refine Finset.sum_eq_zero fun b _ => ?_
      cases s.testing b <;> rfl
    refine ⟨?_, fun _ => rfl, fun hne => absurd rfl hne, fun _ => ⟨rfl, rfl⟩, h.warnings⟩
    change Stats.drops s.queue.shmem = Stats.drops s.queue.shmem + (0 + 0 + 0 + _)
    rw [hnone]
    rfl
  | clearFlag hpc =>
    obtain ⟨hslipped, hfinished⟩ := h.cleared hpc
    have hbalance := h.balance
    refine ⟨?_, fun _ => rfl, fun _ hpos => ?_, fun heq => (by cases heq), rfl⟩
    · change Stats.drops s.queue.shmem =
        s.droppedAt + (0 + s.window + s.finished + ∑ b, weight (s.testing b))
      rw [hbalance, hslipped]
      omega
    · change 0 < s.finished at hpos
      omega
  | unlock q hpc hq =>
    refine h.same (drops_eq (tally_of_other hq fun b a heq => by cases heq)) ?_
    rw [hpc]
    decide

theorem flagged_reachable (hs : (machine cfg).toSpec.Reachable s) : Flagged s := by
  refine Spec.Reachable.invariant ?_ ?_ hs
  · rintro s ⟨queue, ⟨⟨start, slots, hsh⟩, -⟩, rfl⟩
    refine ⟨?_, fun _ => rfl, fun _ hpos => absurd hpos (lt_irrefl 0), fun _ => ⟨rfl, rfl⟩, rfl⟩
    change drops queue.shmem = _
    rw [hsh]
    simp [drops, weight]
  · rintro s s' h ⟨l, hl⟩
    exact h.step (step_cases hl)

theorem sum_weight_le_inside (s : Stats cfg) : ∑ b, weight (s.testing b) ≤ s.inside := by
  refine Finset.sum_le_sum fun b _ => ?_
  cases s.testing b with
  | none => exact le_rfl
  | some counted => cases counted <;> decide

/-- Since the flag was last cleared the warning was logged at most once. It was logged once if
more drops were counted since the last reset than slipped through it or are still inside
`HandleOverflow`, unless that reset has yet to clear the flag. -/
theorem overflow_warned_once (s : Stats cfg) (hs : (machine cfg).toSpec.Reachable s) :
    s.warnings ≤ 1 ∧
    (s.reset ≠ .clearFlag → s.slipped + s.inside < drops s.queue.shmem - s.droppedAt →
      s.warnings = 1) := by
  have h := flagged_reachable hs
  have hwarnings := h.warnings
  constructor
  · rw [hwarnings]
    split <;> decide
  · intro hreset hmore
    have hbalance := h.balance
    have hwindow := h.window hreset
    have hinside := sum_weight_le_inside s
    have hflag := h.flag hreset (by omega)
    rw [hwarnings, hflag]
    rfl

/-- A drop falls between the store to `dropped` and the clearing of the flag. -/
def slips : List (Label sampleConfig) := takenForFull ++ resetUpToFlag ++ dropOne ++ resetRest

/-- The drop that slips through is counted without a warning; the next one logs it. -/
theorem overflow_warned_once_slipped :
    let s := (machine sampleConfig).run sample slips
    let s' := (machine sampleConfig).run sample (slips ++ takenForFull ++ dropOne)
    s.dropped = 1 ∧ s.warnings = 0 ∧ s'.dropped = 2 ∧ s'.warnings = 1 := by
  intro s s'
  refine ⟨by decide +kernel, by decide +kernel, by decide +kernel, ?_⟩
  exact (overflow_warned_once s' (sample_reachable _)).2 (by decide +kernel) (by decide +kernel)

end Stats

end PgStatCh
