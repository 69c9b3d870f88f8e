import PgStatCh.Queue.Ring

/-!
# Queue.FastPath — the overflow check without the lock

`PschEnqueueEvent` and `PschEnqueueBatch` first read `head`, then `tail`, and drop
what they were given when the difference is at least the capacity. Between the
two reads other producers and the consumer go on. As long as the consumer has not
passed the `head` that was read, "full" means that the queue was full when `head`
was read (`fastPath_full`). Once it has passed it, the difference of the two
unsigned reads wraps to a huge number and the check says "full" whatever the
queue holds, even nothing at all (`fastPath_drop_not_full`).
-/

namespace PgStatCh

open Lib Tla

/-! ## Histories only grow -/

/-- Where the positions started stays, and the histories grow. -/
structure Shmem.Grows {cfg : Config} (s s' : Shmem cfg) : Prop where
  start : s'.start = s.start
  published : s.published.length ≤ s'.published.length
  returned : s.returned.length ≤ s'.returned.length

theorem Shmem.Step.grows {cfg : Config} {s s' : Shmem cfg} (h : Shmem.Step s s') :
    s.Grows s' := by
  cases h with
  | publish => exact ⟨rfl, by simp, le_rfl⟩
  | deliver => exact ⟨rfl, le_rfl, by simp⟩
  | _ => exact ⟨rfl, le_rfl, le_rfl⟩

namespace Queue

variable {cfg : Config} {s s' : Queue cfg}

/-- How many events wait in the ring. -/
def occupancy (s : Queue cfg) : ℕ := s.shmem.published.length - s.shmem.returned.length

theorem step_grows {l : Label cfg} (h : step l s = some s') : s.shmem.Grows s'.shmem := by
  rcases step_shmem h with hsame | ⟨l', -, hl'⟩
  · rw [hsame]
    exact ⟨rfl, le_rfl, le_rfl⟩
  · exact (Shmem.step_cases hl').grows

theorem returned_mono (e : Behavior (machine cfg).toSpec) :
    Monotone fun n => (e.st n).shmem.returned.length := by
  apply e.monotone (fun s => s.shmem.returned.length)
  rintro s s' - ⟨l, hstep⟩
  exact (step_grows hstep).returned

theorem start_eq (e : Behavior (machine cfg).toSpec) (n : ℕ) :
    (e.st n).shmem.start = (e.st 0).shmem.start := by
  induction n with
  | zero => rfl
  | succ n ih =>
    rcases e.next n with ⟨l, hstep⟩ | hstut
    · exact (step_grows hstep).start.trans ih
    · rw [hstut]
      exact ih

/-! ## One backend -/

/-- The backend that a label moves. -/
def Label.proc : Label cfg → Option cfg.Proc
  | .call b _ => some b
  | .xactEnd b => some b
  | .exit b => some b
  | .start b _ _ => some b
  | .setEnabled b _ => some b
  | .setForce b _ => some b
  | .step b _ => some b
  | _ => none

theorem setBackend_of_ne (s : Queue cfg) {b b' : cfg.Proc} (be : Backend) (hne : b ≠ b') :
    (s.setBackend b' be).backends b = s.backends b := Function.update_of_ne hne _ _

/-- A step leaves the other backends alone. -/
theorem step_backend_of_ne {l : Label cfg} (h : step l s = some s') {b : cfg.Proc}
    (hb : l.proc ≠ some b) : s'.backends b = s.backends b := by
  cases step_cases h with
  | shared => rfl
  | call | xactEnd | exit | start | setEnabled | setForce | step =>
    apply setBackend_of_ne
    rintro rfl
    exact hb rfl

/-! ## The two reads -/

/-- What can become of a backend that has read `head` and not yet `tail`. -/
theorem step_of_fastTail {l : Label cfg} (h : step l s = some s') {b : cfg.Proc} {c : Caller}
    {head : UInt64} (hb : (s.backends b).pc = .fastTail c head) :
    (s'.backends b).pc = .fastTail c head ∨
    (cfg.capacity.toUInt64 ≤ head - s.shmem.tail ∧
      (s'.backends b).pc = .fastOverflow c c.count) ∨
    (¬ cfg.capacity.toUInt64 ≤ head - s.shmem.tail ∧ (s'.backends b).pc = .acquire c) := by
  by_cases hproc : l.proc = some b
  · -- its own step, unless only a setting changes
    cases l with
    | call | xactEnd | exit | start =>
      cases hproc
      simp [step, hb] at h
    | setEnabled | setForce =>
      cases hproc
      cases h
      left
      simpa [setBackend] using hb
    | step b' a =>
      cases hproc
      simp only [step, Option.map_eq_some_iff, Prod.exists] at h
      obtain ⟨sh', be', hstep, rfl⟩ := h
      simp only [Backend.step, hb] at hstep
      split at hstep
      · next hfull =>
        cases hstep
        exact Or.inr (Or.inl ⟨hfull, by simp [setBackend]⟩)
      · next hroom =>
        cases hstep
        exact Or.inr (Or.inr ⟨hroom, by simp [setBackend]⟩)
    | _ => cases hproc
  · left
    rw [step_backend_of_ne h hproc]
    exact hb

/-- In a behavior, backend `b` reads `head` for call `c` in step `i` and is about
to read `tail` in step `j`. -/
structure FastCheck (e : Behavior (machine cfg).toSpec) (b : cfg.Proc) (c : Caller)
    (i j : ℕ) : Prop where
  lt : i < j
  readsHead : ((e.st i).backends b).pc = .fastHead c
  waits : ∀ k, i < k → k ≤ j → ((e.st k).backends b).pc = .fastTail c (e.st i).shmem.head

theorem FastCheck.full_of_overflow {e : Behavior (machine cfg).toSpec} {b : cfg.Proc}
    {c : Caller} {i j : ℕ} (h : FastCheck e b c i j)
    (hover : ((e.st (j + 1)).backends b).pc = .fastOverflow c c.count) :
    cfg.capacity.toUInt64 ≤ (e.st i).shmem.head - (e.st j).shmem.tail := by
  have hj := h.waits j h.lt le_rfl
  rcases e.next j with ⟨l, hstep⟩ | hstut
  · rcases step_of_fastTail hstep hj with hsame | ⟨hfull, -⟩ | ⟨-, hacq⟩
    · rw [hsame] at hover
      cases hover
    · exact hfull
    · rw [hacq] at hover
      cases hover
  · rw [hstut, hj] at hover
    cases hover

/-- The two reads as counts of events. -/
theorem reads_eq (e : Behavior (machine cfg).toSpec) (i j : ℕ) :
    (e.st i).shmem.head - (e.st j).shmem.tail =
      pos (e.st 0).shmem.start (e.st i).shmem.published.length -
        pos (e.st 0).shmem.start (e.st j).shmem.returned.length := by
  have hi := Shmem.inv_reachable (shmem_reachable (e.reachable i))
  have hj := Shmem.inv_reachable (shmem_reachable (e.reachable j))
  rw [hi.head_eq, hj.tail_eq, start_eq e i, start_eq e j]

/-- While the consumer has not passed the `head` that was read, a drop on the fast
path means that the ring was full when it was read; once it has, the check calls
for a drop no matter what the ring holds. -/
theorem fastPath_full (e : Behavior (machine cfg).toSpec) {b : cfg.Proc} {c : Caller} {i j : ℕ}
    (h : FastCheck e b c i j) :
    ((e.st j).shmem.returned.length ≤ (e.st i).shmem.published.length →
      ((e.st (j + 1)).backends b).pc = .fastOverflow c c.count →
      ∃ k, i ≤ k ∧ k ≤ j ∧ (e.st k).occupancy = cfg.capacity.toNat) ∧
    ((e.st i).shmem.published.length < (e.st j).shmem.returned.length →
      (e.st j).shmem.returned.length + cfg.capacity.toNat ≤
        (e.st i).shmem.published.length + 2 ^ 64 →
      cfg.capacity.toUInt64 ≤ (e.st i).shmem.head - (e.st j).shmem.tail) := by
  have hij := le_of_lt h.lt
  have hinv := Shmem.inv_reachable (shmem_reachable (e.reachable i))
  have hbound := hinv.bound
  have hle := hinv.le
  have hcap := cfg.capacity.toNat_lt
  constructor
  · intro hnot hover
    have hret : (e.st i).shmem.returned.length ≤ (e.st j).shmem.returned.length :=
      returned_mono e hij
    have hfull := h.full_of_overflow hover
    rw [reads_eq, le_pos_sub_iff hnot (by omega)] at hfull
    -- the consumer did not move between the reads, and the ring was full at the first
    refine ⟨i, le_rfl, hij, ?_⟩
    unfold occupancy
    omega
  · intro hpassed hgap
    rw [reads_eq, UInt64.le_iff_toNat_le, UInt64.toNat_sub, pos_toNat, pos_toNat,
      UInt32.toNat_toUInt64]
    omega

/-! ## Schedules -/

theorem run_backend_of_ne (s : Queue cfg) {ls : List (Label cfg)} {b : cfg.Proc}
    (hls : ∀ l ∈ ls, l.proc ≠ some b) : ((machine cfg).run s ls).backends b = s.backends b := by
  induction ls generalizing s with
  | nil => rfl
  | cons l ls ih =>
    have hfire : ((machine cfg).fire s l).backends b = s.backends b := by
      cases h : (machine cfg).step l s with
      | none => simp [Machine.fire, h]
      | some s' =>
        simpa [Machine.fire, h] using step_backend_of_ne h (hls l (List.mem_cons_self ..))
    exact (ih _ fun l' hl' => hls l' (List.mem_cons_of_mem _ hl')).trans hfire

theorem fire_call {b : cfg.Proc} (hb : (s.backends b).pc = .idle)
    (hon : (s.backends b).pschEnabled = true) (e : PschEvent) :
    (((machine cfg).fire s (.call b e)).backends b).pc =
      .fastHead (.event e (s.shmem.tally b)) := by
  simp [Machine.fire, machine, step, Backend.call, hb, hon, setBackend]

theorem fire_call_shmem (b : cfg.Proc) (e : PschEvent) :
    ((machine cfg).fire s (.call b e)).shmem = s.shmem := by
  simp only [Machine.fire, machine, step]
  split <;> rfl

theorem fire_fastHead_shmem {b : cfg.Proc} {c : Caller} (hb : (s.backends b).pc = .fastHead c)
    (a : Answer) : ((machine cfg).fire s (.step b a)).shmem = s.shmem := by
  simp [Machine.fire, machine, step, Backend.step, hb, setBackend]

theorem fire_fastHead {b : cfg.Proc} {c : Caller} (hb : (s.backends b).pc = .fastHead c)
    (a : Answer) :
    (((machine cfg).fire s (.step b a)).backends b).pc = .fastTail c s.shmem.head := by
  simp [Machine.fire, machine, step, Backend.step, hb, setBackend]

theorem fire_fastTail {b : cfg.Proc} {c : Caller} {head : UInt64}
    (hb : (s.backends b).pc = .fastTail c head)
    (hfull : cfg.capacity.toUInt64 ≤ head - s.shmem.tail) (a : Answer) :
    (((machine cfg).fire s (.step b a)).backends b).pc = .fastOverflow c c.count := by
  simp [Machine.fire, machine, step, Backend.step, hb, hfull, setBackend]

/-- A schedule in which `b` reads `head` after `first` and then waits for the
others' steps `mid`. -/
theorem fastCheck_of_schedule (s : Queue cfg) (hs : (machine cfg).Init s)
    (first mid last : List (Label cfg)) (b : cfg.Proc) (a : Answer) {c : Caller}
    (hb : (((machine cfg).run s first).backends b).pc = .fastHead c)
    (hmid : ∀ l ∈ mid, l.proc ≠ some b) :
    FastCheck ((machine cfg).behavior s hs (first ++ (.step b a :: mid) ++ last)) b c
      first.length (first.length + (mid.length + 1)) where
  lt := by omega
  readsHead := by
    rw [Machine.behavior_st, List.append_assoc, List.take_left]
    exact hb
  waits := by
    intro k hlt hle
    obtain ⟨n, rfl⟩ : ∃ n, k = first.length + (n + 1) := ⟨k - first.length - 1, by omega⟩
    have htake : (first ++ (.step b a :: mid) ++ last).take (first.length + (n + 1)) =
        first ++ (.step b a :: mid.take n) := by
      rw [List.append_assoc, List.take_length_add_append, List.cons_append, List.take_succ_cons,
        List.take_append_of_le_length (by omega)]
    have hfirst : (first ++ (.step b a :: mid) ++ last).take first.length = first := by
      rw [List.append_assoc, List.take_left]
    rw [Machine.behavior_st, Machine.behavior_st, htake, hfirst, Machine.run_append]
    rw [← fire_fastHead hb a]
    exact congrArg Backend.pc
      (run_backend_of_ne _ fun l hl => hmid l (List.mem_of_mem_take hl))

/-- A backend that was idle through `before` calls `PschEnqueueEvent`. -/
theorem fastCheck_of_call (s : Queue cfg) (hs : (machine cfg).Init s)
    (before mid last : List (Label cfg)) (b : cfg.Proc) (e : PschEvent) (a : Answer)
    (hidle : (s.backends b).pc = .idle) (hon : (s.backends b).pschEnabled = true)
    (hbefore : ∀ l ∈ before, l.proc ≠ some b) (hmid : ∀ l ∈ mid, l.proc ≠ some b) :
    FastCheck ((machine cfg).behavior s hs
        ((before ++ [.call b e]) ++ (.step b a :: mid) ++ last)) b
      (.event e (((machine cfg).run s before).shmem.tally b))
      (before.length + 1) (before.length + 1 + (mid.length + 1)) := by
  have hcall : (((machine cfg).run s (before ++ [.call b e])).backends b).pc =
      .fastHead (.event e (((machine cfg).run s before).shmem.tally b)) := by
    have hsame := run_backend_of_ne s hbefore
    rw [Machine.run_append]
    exact fire_call (by rw [hsame, hidle]) (by rw [hsame, hon]) e
  have hcheck := fastCheck_of_schedule s hs (before ++ [.call b e]) mid last b a hcall hmid
  rwa [List.length_append, List.length_singleton] at hcheck

/-! ## A producer alone -/

section Alone

/-- Nothing but its own steps moves backend `b`, which is here in its call, `n` events after `s₀`. -/
structure Alone (s₀ : Queue cfg) (b : cfg.Proc) (pc : Pc) (phase : Phase)
    (lock : Option (Holder cfg)) (n : ℕ) (s : Queue cfg) : Prop where
  pc : (s.backends b).pc = pc
  enabled : (s.backends b).pschEnabled = true
  notForced : (s.backends b).forceLockedOverflow = false
  phase : s.shmem.phase b = phase
  lock : s.shmem.lock = lock
  head : s.shmem.head = s₀.shmem.head + UInt64.ofNat n
  tail : s.shmem.tail = s₀.shmem.tail
  published : s.shmem.published.length = s₀.shmem.published.length + n
  returned : s.shmem.returned = s₀.shmem.returned

variable {s₀ s : Queue cfg} {b : cfg.Proc} {pc : Pc} {phase : Phase} {lock : Option (Holder cfg)}
  {n : ℕ}

/-- A step of `b` that takes nothing from the ring. -/
theorem Alone.fire (h : Alone s₀ b pc phase lock n s) {a : Answer} (sh : Shmem cfg) (pc' : Pc)
    (k : ℕ)
    (hstep : Backend.step b a s.shmem (s.backends b) = some (sh, { s.backends b with pc := pc' }))
    (hhead : sh.head = s.shmem.head + UInt64.ofNat k) (htail : sh.tail = s.shmem.tail)
    (hpublished : sh.published.length = s.shmem.published.length + k)
    (hreturned : sh.returned = s.shmem.returned) :
    Alone s₀ b pc' (sh.phase b) sh.lock (n + k) ((machine cfg).fire s (.step b a)) := by
  have hfire : (machine cfg).fire s (.step b a) =
      { s.setBackend b { s.backends b with pc := pc' } with shmem := sh } := by
    simp [Machine.fire, machine, step, hstep]
  rw [hfire]
  refine ⟨?_, ?_, ?_, rfl, rfl, ?_, htail.trans h.tail, ?_, hreturned.trans h.returned⟩
  · simp [setBackend]
  · simpa [setBackend] using h.enabled
  · simpa [setBackend] using h.notForced
  · rw [hhead, h.head, UInt64.ofNat_add, UInt64.add_assoc]
  · rw [hpublished, h.published, Nat.add_assoc]

/-- ... that leaves the shared memory as it is, -/
theorem Alone.own (h : Alone s₀ b pc phase lock n s) {a : Answer} (pc' : Pc)
    (hstep : Backend.step b a s.shmem (s.backends b) =
      some (s.shmem, { s.backends b with pc := pc' })) :
    Alone s₀ b pc' phase lock n ((machine cfg).fire s (.step b a)) := by
  have h' := h.fire s.shmem pc' 0 hstep (UInt64.add_zero _).symm rfl rfl rfl
  rwa [h.phase, h.lock] at h'

/-- ... or is one inside `TryEnqueueLocked`. -/
theorem Alone.inside {c : Caller} {rest : List PschEvent} {m : ℕ}
    (h : Alone s₀ b (.trying c rest m) phase lock n s) {a : Answer} (sh : Shmem cfg) (k : ℕ)
    (hstep : s.shmem.tryStep b a false = some (sh, none))
    (hhead : sh.head = s.shmem.head + UInt64.ofNat k) (htail : sh.tail = s.shmem.tail)
    (hpublished : sh.published.length = s.shmem.published.length + k)
    (hreturned : sh.returned = s.shmem.returned) (hlock : sh.lock = s.shmem.lock) :
    Alone s₀ b (.trying c rest m) (sh.phase b) lock (n + k) ((machine cfg).fire s (.step b a)) := by
  have h' := h.fire (a := a) sh (.trying c rest m) k ?_ hhead htail hpublished hreturned
  · rwa [hlock, h.lock] at h'
  · have hback : s.backends b = { s.backends b with pc := .trying c rest m } := by rw [← h.pc]
    rw [Backend.step, h.pc]
    simp only [h.notForced, hstep, Option.map_some]
    rw [← h.notForced, ← hback]

/-- `PschEnqueueEvent` for an event without texts. -/
def enqueueBare (b : cfg.Proc) : List (Label cfg) := .call b {} :: List.replicate 13 (.step b {})

theorem Alone.call (h : Alone s₀ b .idle .out none n s) :
    Alone s₀ b (.fastHead (.event {} (s.shmem.tally b))) .out none n
      ((machine cfg).fire s (.call b {})) := by
  have hfire : (machine cfg).fire s (.call b {}) =
      s.setBackend b ((s.backends b).call (s.shmem.tally b) {}) := by
    simp [Machine.fire, machine, step, h.pc]
  rw [hfire]
  refine ⟨?_, ?_, ?_, h.phase, h.lock, h.head, h.tail, h.published, h.returned⟩
  all_goals simp [setBackend, Backend.call, h.enabled, h.notForced]

/-- A step that fills the slot. -/
theorem Alone.build {c : Caller} {rest : List PschEvent} {m : ℕ} {e : PschEvent} {head : UInt64}
    {q : BuildPc} (h : Alone s₀ b (.trying c rest m) (.build e head q) lock n s) {a : Answer}
    {mem : Mem} {slot : PschRingEntry} (q' : BuildPc) (hq : ∀ errBlock met, q ≠ .ready errBlock met)
    (hstep : buildStep cfg e a s.shmem.mem (s.shmem.slotAt head) q = some (mem, slot, q')) :
    Alone s₀ b (.trying c rest m) (.build e head q') lock n
      ((machine cfg).fire s (.step b a)) := by
  let sh : Shmem cfg := { s.shmem.setPhase b (.build e head q') with
    mem := mem
    slots := Function.update s.shmem.slots (slotIndex cfg.capacity head) slot }
  have htry : s.shmem.tryStep b a false = some (sh, none) := by
    unfold Shmem.tryStep
    rw [h.phase]
    cases q with
    | ready errBlock met => exact absurd rfl (hq errBlock met)
    | _ => simp only [hstep, Option.map_some, sh]
  have h' := h.inside sh 0 htry (UInt64.add_zero _).symm rfl rfl rfl rfl
  have hphase : sh.phase b = .build e head q' := Function.update_self ..
  rwa [hphase] at h'

/-- The lock is free. -/
theorem Alone.acquire {c : Caller} (h : Alone s₀ b (.acquire c) .out none n s) {a : Answer} :
    Alone s₀ b (.enqueue c c.first c.rest 0) .locked (some (.producer b)) n
      ((machine cfg).fire s (.step b a)) := by
  let sh : Shmem cfg := { s.shmem.setPhase b .locked with lock := some (.producer b) }
  have h' := h.fire (a := a) sh (.enqueue c c.first c.rest 0) 0
    (by simp only [Backend.step, h.pc, Shmem.acquire, h.phase, h.lock, sh])
    (UInt64.add_zero _).symm rfl rfl rfl
  have hphase : sh.phase b = .locked := Function.update_self ..
  rwa [hphase] at h'

theorem Alone.begin {c : Caller} {e : PschEvent} {rest : List PschEvent} {m : ℕ}
    (h : Alone s₀ b (.enqueue c e rest m) .locked lock n s) {a : Answer} :
    Alone s₀ b (.trying c rest m) (.readHead e) lock n ((machine cfg).fire s (.step b a)) := by
  let sh : Shmem cfg := s.shmem.setPhase b (.readHead e)
  have h' := h.fire (a := a) sh (.trying c rest m) 0
    (by simp only [Backend.step, h.pc, Shmem.beginEnqueue, h.phase, Option.map_some, sh])
    (UInt64.add_zero _).symm rfl rfl rfl
  have hphase : sh.phase b = .readHead e := Function.update_self ..
  have hlock : sh.lock = lock := h.lock
  rwa [hphase, hlock] at h'

theorem Alone.readHead {c : Caller} {e : PschEvent} {rest : List PschEvent} {m : ℕ}
    (h : Alone s₀ b (.trying c rest m) (.readHead e) lock n s) {a : Answer} :
    Alone s₀ b (.trying c rest m) (.readTail e s.shmem.head) lock n
      ((machine cfg).fire s (.step b a)) := by
  have h' := h.inside (a := a) (s.shmem.setPhase b (.readTail e s.shmem.head)) 0
    (by simp only [Shmem.tryStep, h.phase]) (UInt64.add_zero _).symm rfl rfl rfl rfl
  simpa [Shmem.setPhase] using h'

theorem Alone.readTail {c : Caller} {e : PschEvent} {rest : List PschEvent} {m : ℕ} {head : UInt64}
    (h : Alone s₀ b (.trying c rest m) (.readTail e head) lock n s) {a : Answer}
    (hroom : ¬ cfg.capacity.toUInt64 ≤ head - s.shmem.tail) :
    Alone s₀ b (.trying c rest m) (.build e head .copyPrefix) lock n
      ((machine cfg).fire s (.step b a)) := by
  have h' := h.inside (a := a) (s.shmem.setPhase b (.build e head .copyPrefix)) 0
    (by simp [Shmem.tryStep, h.phase, hroom]) (UInt64.add_zero _).symm rfl rfl rfl rfl
  simpa [Shmem.setPhase] using h'

theorem Alone.publish {c : Caller} {e : PschEvent} {rest : List PschEvent} {m : ℕ}
    {errBlock : Option DsaPointer} {met : List Met}
    (h : Alone s₀ b (.trying c rest m) (.build e s.shmem.head (.ready errBlock met)) lock n s)
    {a : Answer} :
    Alone s₀ b (.trying c rest m) .bump lock (n + 1) ((machine cfg).fire s (.step b a)) := by
  let sh : Shmem cfg := { s.shmem.setPhase b .bump with
    head := s.shmem.head + 1
    published := s.shmem.published ++ [⟨e, s.shmem.slotAt s.shmem.head, errBlock, met⟩] }
  have h' := h.inside (a := a) sh 1 (by simp only [Shmem.tryStep, h.phase, sh]) rfl rfl
    (by simp [sh]) rfl rfl
  have hphase : sh.phase b = .bump := Function.update_self ..
  rwa [hphase] at h'

theorem Alone.bump {c : Caller} {rest : List PschEvent} {m : ℕ}
    (h : Alone s₀ b (.trying c rest m) .bump lock n s) {a : Answer} :
    Alone s₀ b (c.next (m + 1) rest) .locked lock n ((machine cfg).fire s (.step b a)) := by
  let sh : Shmem cfg := { s.shmem.setPhase b .locked with
    enqueued := s.shmem.enqueued + 1
    tally := Function.update s.shmem.tally b
      { s.shmem.tally b with enqueued := (s.shmem.tally b).enqueued + 1 } }
  have h' := h.fire (a := a) sh (c.next (m + 1) rest) 0
    (by simp only [Backend.step, h.pc, h.notForced, Shmem.tryStep, h.phase, Option.map_some, sh])
    (UInt64.add_zero _).symm rfl rfl rfl
  have hphase : sh.phase b = .locked := Function.update_self ..
  have hlock : sh.lock = lock := h.lock
  rwa [hphase, hlock] at h'

theorem Alone.unlock {c : Caller} {m : ℕ} (h : Alone s₀ b (.unlock c m) .locked lock n s)
    {a : Answer} : Alone s₀ b (c.ret m) .out none n ((machine cfg).fire s (.step b a)) := by
  let sh : Shmem cfg := { s.shmem.setPhase b .out with lock := none }
  have h' := h.fire (a := a) sh (c.ret m) 0
    (by simp only [Backend.step, h.pc, Shmem.release, h.phase, Option.map_some, sh])
    (UInt64.add_zero _).symm rfl rfl rfl
  have hphase : sh.phase b = .out := Function.update_self ..
  rwa [hphase] at h'

theorem Alone.enqueueBare (h : Alone s₀ b .idle .out none n s)
    (hroom : ¬ cfg.capacity.toUInt64 ≤ s.shmem.head - s.shmem.tail) :
    Alone s₀ b .idle .out none (n + 1) ((machine cfg).run s (enqueueBare b)) := by
  rw [h.head, h.tail] at hroom
  have h₀ := h.call
  let c := Caller.event {} (s.shmem.tally b)
  -- the fast path finds room, and the lock is free
  have h₁ := h₀.own (a := {}) (.fastTail c (s₀.shmem.head + UInt64.ofNat n))
    (by simp only [Backend.step, h₀.pc, h₀.head, c])
  have h₂ := h₁.own (a := {}) (.acquire c)
    (by simp only [Backend.step, h₁.pc, h₁.tail, hroom, if_false])
  have h₄ := (h₂.acquire (a := {})).begin (a := {})
  have h₅ := h₄.readHead (a := {})
  rw [h₄.head] at h₅
  have h₆ := h₅.readTail (a := {}) (by rw [h₅.tail]; exact hroom)
  have h₇ := h₆.build (a := {}) .allocErr nofun rfl
  have h₈ := h₇.build (a := {}) (.query none) nofun rfl
  have h₉ := h₈.build (a := {}) (.ready none []) nofun rfl
  rw [← h₉.head] at h₉
  have h' := ((h₉.publish (a := {})).bump (a := {})).unlock (a := {})
  exact h'.own (a := {}) .idle (by rw [Backend.step, h'.pc]; rfl)

theorem Alone.start (hpc : (s.backends b).pc = .idle) (hon : (s.backends b).pschEnabled = true)
    (hforced : (s.backends b).forceLockedOverflow = false) (hphase : s.shmem.phase b = .out)
    (hlock : s.shmem.lock = none) : Alone s b .idle .out none 0 s :=
  ⟨hpc, hon, hforced, hphase, hlock, (UInt64.add_zero _).symm, rfl, rfl, rfl⟩

/-- From an empty ring on, a producer can enqueue as many events as there are slots. -/
theorem Alone.fill (h : Alone s b .idle .out none 0 s) (hempty : s.shmem.head = s.shmem.tail)
    (hn : n ≤ cfg.capacity.toNat) :
    Alone s b .idle .out none n
      ((machine cfg).run s (List.replicate n (Queue.enqueueBare b)).flatten) := by
  induction n with
  | zero => exact h
  | succ n ih =>
    have hprev := ih (Nat.le_of_succ_le hn)
    rw [List.replicate_succ', List.flatten_append, List.flatten_singleton, Machine.run_append]
    refine hprev.enqueueBare ?_
    have hlt : n < UInt64.size := (Nat.lt_of_succ_le hn).trans
      (cfg.capacity.toNat_lt.trans (by decide))
    rw [hprev.head, hprev.tail, hempty, UInt64.add_comm, UInt64.add_sub_cancel,
      UInt64.le_iff_toNat_le, UInt32.toNat_toUInt64, UInt64.toNat_ofNat_of_lt' hlt]
    omega

end Alone

/-- Backend 0 fills the ring. -/
def fill : List (Label sampleConfig) := (List.replicate 1024 (enqueueBare proc₀)).flatten

theorem fill_alone :
    Alone sample proc₀ .idle .out none 1024 ((machine sampleConfig).run sample fill) :=
  (Alone.start rfl rfl rfl rfl rfl).fill rfl le_rfl

/-- Backend 2 calls `PschEnqueueEvent` when the ring is full. -/
def overfull : Behavior (machine sampleConfig).toSpec :=
  (machine sampleConfig).behavior sample sample_init
    ((fill ++ [.call proc₂ {}]) ++ (.step proc₂ {} :: []) ++
      [.step proc₂ {}])

theorem overfull_check :
    FastCheck overfull proc₂
      (.event {} (((machine sampleConfig).run sample fill).shmem.tally proc₂))
      (fill.length + 1) (fill.length + 2) := by
  have hothers : ∀ l ∈ fill, l.proc ≠ some proc₂ := by
    intro l hl
    simp only [fill, enqueueBare, List.mem_flatten, List.mem_replicate] at hl
    obtain ⟨ls, ⟨-, rfl⟩, hl⟩ := hl
    rcases List.mem_cons.mp hl with rfl | hl
    · decide
    · rw [List.eq_of_mem_replicate hl]
      decide
  have hcheck := fastCheck_of_call sample sample_init fill [] [.step proc₂ {}] proc₂ {} {} rfl rfl
    hothers (by simp)
  simp only [List.length_nil, Nat.zero_add, Nat.add_assoc, Nat.reduceAdd] at hcheck
  exact hcheck

/-- Backend 2 has not touched the ring yet. -/
theorem overfull_shmem :
    (overfull.st (fill.length + 1)).shmem = ((machine sampleConfig).run sample fill).shmem ∧
    (overfull.st (fill.length + 2)).shmem = ((machine sampleConfig).run sample fill).shmem := by
  have hfill : overfull.st fill.length = (machine sampleConfig).run sample fill := by
    rw [overfull, Machine.behavior_st, List.append_assoc, List.append_assoc, List.take_left]
  have hcall : overfull.st (fill.length + 1) = (machine sampleConfig).fire
      (overfull.st fill.length) (.call proc₂ {}) := Machine.behavior_succ _ _ _ (by simp)
  have hread : overfull.st (fill.length + 2) = (machine sampleConfig).fire
      (overfull.st (fill.length + 1)) (.step proc₂ {}) := Machine.behavior_succ _ _ _ (by simp)
  have hfirst : (overfull.st (fill.length + 1)).shmem =
      ((machine sampleConfig).run sample fill).shmem := by
    rw [hcall, fire_call_shmem, hfill]
  refine ⟨hfirst, ?_⟩
  rw [hread, fire_fastHead_shmem overfull_check.readsHead, hfirst]

theorem fastPath_full_overfull :
    ∃ k, fill.length + 1 ≤ k ∧ k ≤ fill.length + 2 ∧ (overfull.st k).occupancy = 1024 := by
  have hlast : overfull.st (fill.length + 3) = (machine sampleConfig).fire
      (overfull.st (fill.length + 2)) (.step proc₂ {}) :=
    Machine.behavior_succ _ _ _ (by simp)
  obtain ⟨hcall, hread⟩ := overfull_shmem
  have hfill := fill_alone
  have hfull : sampleConfig.capacity.toUInt64 ≤ (overfull.st (fill.length + 1)).shmem.head -
      (overfull.st (fill.length + 2)).shmem.tail := by
    rw [hcall, hread, hfill.head, hfill.tail]
    decide
  refine (fastPath_full overfull overfull_check).1 ?_ ?_
  · rw [hcall, hread, hfill.returned]
    exact Nat.zero_le _
  · rw [hlast]
    exact fire_fastTail (overfull_check.waits _ (by omega) le_rfl) hfull {}

/-- One event goes through the queue. -/
def inAndOut : List (Label sampleConfig) :=
  enqueueOne proc₀ 8 { queryLen := 1 } ++ dequeueOne

/-- Backend 2 calls `PschEnqueueEvent` on an empty queue and reads `head`; one event
goes through the queue, and then backend 2 reads `tail`. -/
def lateTail : Behavior (machine sampleConfig).toSpec :=
  (machine sampleConfig).behavior sample sample_init
    (([] ++ [.call proc₂ {}]) ++ (.step proc₂ {} :: inAndOut) ++
      [.step proc₂ {}])

theorem lateTail_check : FastCheck lateTail proc₂ (.event {} {}) 1 29 :=
  fastCheck_of_call sample sample_init [] inAndOut [.step proc₂ {}] proc₂ {} {}
    rfl rfl (by simp) (by decide +kernel)

/-- The fast path drops an event although the ring, which has 1024 slots, never
held more than one. -/
theorem fastPath_drop_not_full :
    FastCheck lateTail proc₂ (.event {} {}) 1 29 ∧
    ((lateTail.st 30).backends proc₂).pc = .fastOverflow (.event {} {}) 1 ∧
    (∀ k ≤ 30, (lateTail.st k).occupancy ≤ 1) ∧ sampleConfig.capacity.toNat = 1024 := by
  refine ⟨lateTail_check, ?_, by decide +kernel, rfl⟩
  have hlast : lateTail.st 30 = (machine sampleConfig).fire (lateTail.st 29)
      (.step proc₂ {}) := Machine.behavior_succ _ _ _ rfl
  have hfull : sampleConfig.capacity.toUInt64 ≤
      (lateTail.st 1).shmem.head - (lateTail.st 29).shmem.tail := by decide +kernel
  rw [hlast]
  exact fire_fastTail (lateTail_check.waits 29 (by decide) le_rfl) hfull {}

end Queue

end PgStatCh
