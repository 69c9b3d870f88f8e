import PgStatCh.Queue.Ring

/-!
# Queue.Conservation — where every event goes

Each call of `PschEnqueueEvent` that passes its guard hands in one event. It is
enqueued, dropped, buffered, or thrown away by a flush that finds `psch_enabled`
off; until then the call is in flight. A backend can only change its own part of
this account, so the balance is kept per backend (`Backend.Ok`), step by step, and
summed up at the end (`producer_conservation`). The shared counters are the sums
of the backends' increments, modulo `2^64`.
-/

namespace PgStatCh

open Lib Tla

/-! ## What is in flight -/

/-- The event that is appended after the flush. -/
def Cont.pending : Cont → ℕ
  | .add _ => 1
  | .xact => 0
  | .shutdown => 0

/-- The events that the caller of this call still has in hand. -/
def Caller.pending : Caller → ℕ
  | .event _ _ => 0
  | .batch _ _ k _ => k.pending

/-- The events handed in and not yet accounted for. -/
def Pc.pending : Pc → ℕ
  | .idle => 0
  | .exited => 0
  | .fastHead c => c.count + c.pending
  | .fastTail c _ => c.count + c.pending
  | .fastOverflow c left => left + c.pending
  | .acquire c => c.count + c.pending
  | .enqueue c _ rest _ => rest.length + 1 + c.pending
  | .trying c rest _ => rest.length + 1 + c.pending
  | .unlock c _ => c.pending
  | .add _ => 1
  | .returnEvent _ _ _ => 0
  | .returnBatch k _ _ _ _ => k.pending

/-! ## Who increments what -/

namespace Tally

/-- One more enqueued. -/
def enqueue (t : Tally) : Tally := { t with enqueued := t.enqueued + 1 }

/-- One more dropped. -/
def drop (t : Tally) : Tally := { t with dropped := t.dropped + 1 }

/-- After a step of `TryEnqueueLocked` that returns `ret`, or does not return yet. -/
def after (t : Tally) : Option Bool → Tally
  | none => t
  | some true => t.enqueue
  | some false => t.drop

end Tally

namespace Shmem

variable {cfg : Config} {sh sh' : Shmem cfg} {b : cfg.Proc}

theorem acquire_tally (h : sh.acquire b = some sh') : sh'.tally = sh.tally := by
  unfold Shmem.acquire at h
  split at h <;> cases h
  rfl

theorem release_tally (h : sh.release b = some sh') : sh'.tally = sh.tally := by
  unfold Shmem.release at h
  split at h <;> cases h
  rfl

theorem beginEnqueue_tally {e : PschEvent} (h : sh.beginEnqueue b e = some sh') :
    sh'.tally = sh.tally := by
  unfold Shmem.beginEnqueue at h
  split at h <;> cases h
  rfl

/-- `TryEnqueueLocked` returns right after it incremented the counter that goes
with the value it returns. -/
theorem tryStep_tally {a : Answer} {force : Bool} {ret : Option Bool}
    (h : sh.tryStep b a force = some (sh', ret)) :
    sh'.tally = Function.update sh.tally b ((sh.tally b).after ret) := by
  have hnone : sh.tally = Function.update sh.tally b ((sh.tally b).after none) :=
    (Function.update_eq_self b sh.tally).symm
  unfold Shmem.tryStep at h
  split at h
  · cases h
  · cases h
  · cases h
    exact hnone
  · split at h <;> cases h <;> exact hnone
  · cases h
    rfl
  · cases h
    exact hnone
  · simp only [Option.map_eq_some_iff, Prod.exists, Prod.mk.injEq] at h
    obtain ⟨m', slot', pc', -, rfl, rfl⟩ := h
    exact hnone
  · cases h
    rfl

end Shmem

/-! ## The account of one backend -/

/-- Is the local batch being flushed? -/
def Caller.Flushing : Caller → Prop
  | .event _ _ => False
  | .batch _ _ _ _ => True

/-- While it is flushed, and after the backend exited, the local batch is empty. -/
def Pc.Flushed : Pc → Prop
  | .exited => True
  | .fastHead c => c.Flushing
  | .fastTail c _ => c.Flushing
  | .fastOverflow c _ => c.Flushing
  | .acquire c => c.Flushing
  | .enqueue c _ _ _ => c.Flushing
  | .trying c _ _ => c.Flushing
  | .unlock c _ => c.Flushing
  | .returnBatch _ _ _ _ _ => True
  | _ => False

/-- What the call has done to the counters so far: `n` of its events are enqueued,
all others but `left` are dropped. -/
def Caller.Done (c : Caller) (t : Tally) (n left : ℕ) : Prop :=
  n + left ≤ c.count ∧ t.enqueued = c.before.enqueued + n ∧
  t.dropped = c.before.dropped + (c.count - (n + left))

theorem Caller.Done.enqueue {c : Caller} {t : Tally} {n left : ℕ} (h : c.Done t n (left + 1)) :
    c.Done t.enqueue (n + 1) left := by
  obtain ⟨hle, henq, hdrop⟩ := h
  refine ⟨by omega, ?_, ?_⟩
  · simp only [Tally.enqueue]
    omega
  · simp only [Tally.enqueue]
    rw [hdrop, add_right_comm n 1 left, add_assoc n left 1]

theorem Caller.Done.drop {c : Caller} {t : Tally} {n left : ℕ} (h : c.Done t n (left + 1)) :
    c.Done t.drop n left := by
  obtain ⟨hle, henq, hdrop⟩ := h
  refine ⟨by omega, henq, ?_⟩
  simp only [Tally.drop]
  omega

def Pc.Ok (t : Tally) (batch : List PschEvent) : Pc → Prop
  | .fastHead c => c.Done t 0 c.count
  | .fastTail c _ => c.Done t 0 c.count
  | .fastOverflow c left => c.Done t 0 left
  | .acquire c => c.Done t 0 c.count
  | .enqueue c _ rest n => c.Done t n (rest.length + 1)
  | .trying c rest n => c.Done t n (rest.length + 1)
  | .unlock c n => c.Done t n 0
  | .returnEvent _ ret (some before) =>
    ret = true ∧ t.enqueued = before.enqueued + 1 ∧ t.dropped = before.dropped ∨
    ret = false ∧ t.enqueued = before.enqueued ∧ t.dropped = before.dropped + 1
  | .returnEvent e ret none => ret = true ∧ batch.getLast? = some e
  | .returnBatch _ count ret enabled before =>
    t.enqueued = before.enqueued + ret ∧ ret ≤ count ∧
    (enabled = true → t.dropped = before.dropped + (count - ret))
  | _ => True

structure Backend.Ok (t : Tally) (be : Backend) : Prop where
  balance : be.calls =
    t.enqueued + t.dropped + be.localBatch.length + be.pc.pending + be.discarded
  bound : be.localBatch.length ≤ pschLocalBatchCapacity
  flushed : be.pc.Flushed → be.localBatch = []
  pc : be.pc.Ok t be.localBatch

namespace Backend

variable {t : Tally} {be : Backend}

/-- After a flush, with room in the batch. -/
theorem Ok.resume {k : Cont} (hbalance : be.calls =
      t.enqueued + t.dropped + be.localBatch.length + k.pending + be.discarded)
    (hroom : be.localBatch.length < pschLocalBatchCapacity)
    (hexit : k = .shutdown → be.localBatch = []) : (be.resume k).Ok t := by
  cases k with
  | add e =>
    refine ⟨?_, ?_, False.elim, rfl, ?_⟩
    · simp only [Backend.resume, List.length_append, List.length_singleton, Pc.pending]
      simp only [Cont.pending] at hbalance
      omega
    · simp only [Backend.resume, List.length_append, List.length_singleton]
      omega
    · simp [Backend.resume]
  | xact => exact ⟨hbalance, le_of_lt hroom, False.elim, trivial⟩
  | shutdown => exact ⟨hbalance, le_of_lt hroom, fun _ => hexit rfl, trivial⟩

/-- `PschLocalBatchFlush` on a batch of any size. -/
theorem Ok.flush {k : Cont} (hbalance : be.calls =
      t.enqueued + t.dropped + be.localBatch.length + k.pending + be.discarded) :
    (be.flush t k).Ok t := by
  unfold Backend.flush
  split
  · next hempty =>
    exact Ok.resume hbalance (by rw [hempty]; decide) fun _ => hempty
  · next e rest hbatch =>
    rw [hbatch, List.length_cons] at hbalance
    split
    · refine ⟨?_, Nat.zero_le _, fun _ => rfl, ?_⟩
      · simp only [List.length_nil, Pc.pending, Caller.count, Caller.rest, Caller.pending]
        omega
      · exact ⟨Nat.le_of_eq (Nat.zero_add _), rfl, by simp [Caller.before]⟩
    · refine ⟨?_, Nat.zero_le _, fun _ => rfl, rfl, Nat.zero_le _, by simp⟩
      simp only [List.length_nil, Pc.pending]
      omega

/-- `PschEnqueueEvent`'s guard. -/
theorem Ok.call (h : be.Ok t) (hidle : be.pc = .idle) (e : PschEvent) : (be.call t e).Ok t := by
  unfold Backend.call
  split
  · refine ⟨?_, h.bound, False.elim, ?_⟩
    · have hbalance := h.balance
      simp only [hidle, Pc.pending] at hbalance
      simp only [Pc.pending, Caller.count, Caller.rest, Caller.pending, List.length_nil]
      omega
    · exact ⟨Nat.le_of_eq (Nat.zero_add _), rfl, by simp [Caller.before]⟩
  · exact h

/-- The call returns, with all its events accounted for. -/
theorem Ok.ret {c : Caller} {n : ℕ} (hbalance : be.calls =
      t.enqueued + t.dropped + be.localBatch.length + c.pending + be.discarded)
    (hbound : be.localBatch.length ≤ pschLocalBatchCapacity)
    (hflush : c.Flushing → be.localBatch = []) (hdone : c.Done t n 0) :
    Ok t { be with pc := c.ret n } := by
  obtain ⟨hle, henq, hdrop⟩ := hdone
  cases c with
  | event e before =>
    simp only [Caller.count, Caller.rest, List.length_nil, Caller.before] at hle henq hdrop
    refine ⟨hbalance, hbound, False.elim, ?_⟩
    rcases Nat.eq_zero_or_pos n with rfl | hpos
    · exact Or.inr ⟨rfl, henq, hdrop⟩
    · obtain rfl : n = 1 := by omega
      exact Or.inl ⟨rfl, henq, hdrop⟩
  | batch e rest k before =>
    exact ⟨hbalance, hbound, fun _ => hflush trivial, henq, hle, fun _ => hdrop⟩

/-- On to the next event, or out. -/
theorem Ok.next {c : Caller} {n : ℕ} {rest : List PschEvent} (hbalance : be.calls =
      t.enqueued + t.dropped + be.localBatch.length + (rest.length + c.pending) + be.discarded)
    (hbound : be.localBatch.length ≤ pschLocalBatchCapacity)
    (hflush : c.Flushing → be.localBatch = []) (hdone : c.Done t n rest.length) :
    Ok t { be with pc := c.next n rest } := by
  cases rest with
  | nil =>
    refine ⟨?_, hbound, hflush, hdone⟩
    simpa [Caller.next, Pc.pending] using hbalance
  | cons e rest =>
    refine ⟨?_, hbound, hflush, hdone⟩
    simpa [Caller.next, Pc.pending, add_assoc] using hbalance

/-- A call goes on with its events still to do. -/
theorem Ok.setPc {pc : Pc} (h : be.Ok t) (hpending : pc.pending = be.pc.pending)
    (hflush : pc.Flushed → be.localBatch = []) (hpc : pc.Ok t be.localBatch) :
    Ok t { be with pc := pc } :=
  ⟨by rw [h.balance, ← hpending], h.bound, hflush, hpc⟩

variable {cfg : Config} {b : cfg.Proc} {sh sh' : Shmem cfg} {be' : Backend}

/-- A step that changes nothing but the place in the code. -/
theorem Ok.goOn {pc : Pc} (h : be.Ok (sh.tally b)) (htally : sh'.tally = sh.tally)
    (hpending : pc.pending = be.pc.pending) (hflush : pc.Flushed → be.localBatch = [])
    (hpc : pc.Ok (sh.tally b) be.localBatch) :
    Ok (sh'.tally b) { be with pc := pc } ∧ ∀ b', b' ≠ b → sh'.tally b' = sh.tally b' := by
  rw [htally]
  exact ⟨h.setPc hpending hflush hpc, fun _ _ => rfl⟩

/-- `TryEnqueueLocked` counts for this backend only. -/
theorem tryStep_tally_of {a : Answer} {ret : Option Bool}
    (h : sh.tryStep b a be.forceLockedOverflow = some (sh', ret)) :
    sh'.tally b = (sh.tally b).after ret ∧ ∀ b', b' ≠ b → sh'.tally b' = sh.tally b' := by
  rw [Shmem.tryStep_tally h, Function.update_self]
  exact ⟨rfl, fun b' hne => Function.update_of_ne hne _ _⟩

theorem Step.ok {a : Answer} (h : Step b a sh be sh' be') (hok : be.Ok (sh.tally b)) :
    be'.Ok (sh'.tally b) ∧ ∀ b', b' ≠ b → sh'.tally b' = sh.tally b' := by
  have hbalance := hok.balance
  have hflush := hok.flushed
  have hpc := hok.pc
  -- a step either moves on (`Ok.goOn`), or takes one event from pending to the tally
  cases h with
  | fastHead c hb | fastFull c head hb hfull | fastRoom c head hb hroom =>
    rw [hb] at hflush hpc
    exact hok.goOn rfl (by rw [hb]; rfl) hflush hpc
  | fastDone c hb =>
    rw [hb] at hbalance hflush hpc
    refine ⟨Ok.ret ?_ hok.bound hflush hpc, fun _ _ => rfl⟩
    simpa [Pc.pending] using hbalance
  | fastDrop c left hb =>
    rw [hb] at hbalance hflush hpc
    have htally : (sh.handleOverflow b).tally = Function.update sh.tally b (sh.tally b).drop := rfl
    rw [htally, Function.update_self]
    refine ⟨⟨?_, hok.bound, hflush, hpc.drop⟩, fun b' hne => Function.update_of_ne hne _ _⟩
    simp only [Pc.pending, Tally.drop] at hbalance ⊢
    omega
  | acquired c sh' hb hacquire =>
    rw [hb] at hflush hpc
    exact hok.goOn (Shmem.acquire_tally hacquire) (by rw [hb]; rfl) hflush hpc
  | contended e before hb => exact hok.goOn rfl (by rw [hb]; rfl) False.elim trivial
  | enqueue c e rest n sh' hb hbegin =>
    rw [hb] at hflush hpc
    exact hok.goOn (Shmem.beginEnqueue_tally hbegin) (by rw [hb]; rfl) hflush hpc
  | inside c rest n sh' hb htry =>
    obtain ⟨hown, hothers⟩ := tryStep_tally_of htry
    exact ⟨hown ▸ hok, hothers⟩
  | enqueued c rest n sh' hb htry =>
    obtain ⟨hown, hothers⟩ := tryStep_tally_of htry
    rw [hb] at hbalance hflush hpc
    refine ⟨hown ▸ Ok.next ?_ hok.bound hflush hpc.enqueue, hothers⟩
    simp only [Pc.pending, Tally.after, Tally.enqueue] at hbalance ⊢
    omega
  | dropped c rest n sh' hb htry =>
    obtain ⟨hown, hothers⟩ := tryStep_tally_of htry
    rw [hb] at hbalance hflush hpc
    refine ⟨hown ▸ Ok.next ?_ hok.bound hflush hpc.drop, hothers⟩
    simp only [Pc.pending, Tally.after, Tally.drop] at hbalance ⊢
    omega
  | unlock c n sh' hb hrelease =>
    rw [hb] at hbalance hflush hpc
    rw [Shmem.release_tally hrelease]
    exact ⟨Ok.ret hbalance hok.bound hflush hpc, fun _ _ => rfl⟩
  | addFull e hb =>
    -- the buffered events become the pending ones of the flush
    rw [hb] at hbalance
    exact ⟨Ok.flush hbalance, fun _ _ => rfl⟩
  | addRoom e hb hroom =>
    rw [hb] at hbalance
    exact ⟨Ok.resume hbalance hroom (by simp), fun _ _ => rfl⟩
  | returnEvent e ret before hb => exact hok.goOn rfl (by rw [hb]; rfl) False.elim trivial
  | returnBatch k count ret enabled before hb =>
    rw [hb] at hbalance hflush
    have hempty := hflush trivial
    exact ⟨Ok.resume hbalance (by rw [hempty]; decide) fun _ => hempty, fun _ _ => rfl⟩

/-! With `psch_enabled` on nothing is thrown away. -/

theorem resume_discarded (be : Backend) (k : Cont) : (be.resume k).discarded = be.discarded := by
  cases k <;> rfl

theorem flush_discarded (h : be.pschEnabled = true) (k : Cont) :
    (be.flush t k).discarded = be.discarded := by
  unfold Backend.flush
  split
  · exact resume_discarded be k
  · rw [if_pos h]

theorem Step.discarded {a : Answer} (h : Step b a sh be sh' be')
    (henabled : be.pschEnabled = true) : be'.discarded = be.discarded := by
  cases h with
  | addFull e hb => exact flush_discarded henabled _
  | returnBatch k count ret enabled before hb => exact resume_discarded be k
  | _ => rfl

end Backend

/-! ## The shared counters -/

namespace Shmem

variable {cfg : Config} {s s' : Shmem cfg}

/-- `enqueued` and `dropped` are the increments of all processes, modulo `2^64`. -/
structure Counted (s : Shmem cfg) : Prop where
  enqueued : s.enqueued = UInt64.ofNat (∑ b, (s.tally b).enqueued)
  dropped : s.dropped = UInt64.ofNat (∑ b, (s.tally b).dropped)

theorem sum_enqueue (tally : cfg.Proc → Tally) (b : cfg.Proc) :
    ∑ b', (Function.update tally b (tally b).enqueue b').enqueued =
      ∑ b', (tally b').enqueued + 1 ∧
    ∑ b', (Function.update tally b (tally b).enqueue b').dropped = ∑ b', (tally b').dropped := by
  rw [sum_update_eq tally Tally.enqueued, sum_update_eq tally Tally.dropped,
    sum_eq_restSum tally Tally.enqueued b, sum_eq_restSum tally Tally.dropped b]
  exact ⟨(add_assoc _ _ _).symm, rfl⟩

theorem sum_drop (tally : cfg.Proc → Tally) (b : cfg.Proc) :
    ∑ b', (Function.update tally b (tally b).drop b').enqueued = ∑ b', (tally b').enqueued ∧
    ∑ b', (Function.update tally b (tally b).drop b').dropped = ∑ b', (tally b').dropped + 1 := by
  rw [sum_update_eq tally Tally.enqueued, sum_update_eq tally Tally.dropped,
    sum_eq_restSum tally Tally.enqueued b, sum_eq_restSum tally Tally.dropped b]
  exact ⟨rfl, (add_assoc _ _ _).symm⟩

theorem Counted.handleOverflow (h : Counted s) (b : cfg.Proc) : Counted (s.handleOverflow b) := by
  obtain ⟨henq, hdrop⟩ := sum_drop s.tally b
  constructor
  · exact h.enqueued.trans (congrArg UInt64.ofNat henq.symm)
  · change s.dropped + 1 =
      UInt64.ofNat (∑ b', (Function.update s.tally b (s.tally b).drop b').dropped)
    rw [hdrop, h.dropped, UInt64.ofNat_add]
    rfl

theorem Counted.step (h : Counted s) (hstep : Step s s') : Counted s' := by
  cases hstep with
  | overflow b hb => exact ⟨(h.handleOverflow b).enqueued, (h.handleOverflow b).dropped⟩
  | fastOverflow b => exact h.handleOverflow b
  | bump b hb =>
    obtain ⟨henq, hdrop⟩ := sum_enqueue s.tally b
    constructor
    · change s.enqueued + 1 =
        UInt64.ofNat (∑ b', (Function.update s.tally b (s.tally b).enqueue b').enqueued)
      rw [henq, h.enqueued, UInt64.ofNat_add]
      rfl
    · exact h.dropped.trans (congrArg UInt64.ofNat hdrop.symm)
  | _ => exact ⟨h.enqueued, h.dropped⟩

theorem counted_reachable (hs : (machine cfg).toSpec.Reachable s) : Counted s := by
  refine Spec.Reachable.invariant ?_ ?_ hs
  · rintro s ⟨start, slots, rfl⟩
    exact ⟨by simp, by simp⟩
  · rintro s s' h ⟨l, hstep⟩
    exact h.step (step_cases hstep)

/-- The consumer increments nothing. -/
theorem dequeueStep_tally (h : s.dequeueStep = some s') : s'.tally = s.tally := by
  unfold dequeueStep at h
  split at h
  · cases h
  · split at h <;> cases h <;> rfl
  · cases h
    rfl
  · simp only [Option.map_eq_some_iff, Prod.exists] at h
    obtain ⟨m', out', pc', -, rfl⟩ := h
    rfl

end Shmem

/-! ## All backends together -/

namespace Queue

variable {cfg : Config} {s s' : Queue cfg}

/-- Every backend's account is in order. -/
def Balanced (s : Queue cfg) : Prop := ∀ b, (s.backends b).Ok (s.shmem.tally b)

theorem Balanced.setBackend (h : Balanced s) {b : cfg.Proc} {be : Backend}
    (hbe : be.Ok (s.shmem.tally b)) : Balanced (s.setBackend b be) := by
  intro b'
  rcases eq_or_ne b' b with rfl | hne
  · simpa [Queue.setBackend] using hbe
  · simpa [Queue.setBackend, hne] using h b'

theorem Balanced.flush (h : Balanced s) {b : cfg.Proc} (hidle : (s.backends b).pc = .idle)
    {k : Cont} (hk : k.pending = 0) :
    Balanced (s.setBackend b ((s.backends b).flush (s.shmem.tally b) k)) := by
  apply h.setBackend
  apply Backend.Ok.flush
  have hbalance := (h b).balance
  rw [hidle] at hbalance
  rwa [hk]

/-- The other users of the lock and the consumer count for nobody. -/
theorem shared_tally {l : Label cfg} {l' : Shmem.Label cfg} {sh sh' : Shmem cfg}
    (hl : l.shared = some l') (h : Shmem.step l' sh = some sh') : sh'.tally = sh.tally := by
  cases l with
  | acquireOther | releaseOther | beginDequeue buf =>
    cases hl
    simp only [Shmem.step, Shmem.beginDequeue] at h
    split at h <;> cases h
    rfl
  | dequeueStep =>
    cases hl
    exact Shmem.dequeueStep_tally h
  | _ => cases hl

theorem Balanced.step (h : Balanced s) {l : Label cfg} (hstep : Step s l s') : Balanced s' := by
  cases hstep with
  | call b e hidle => exact h.setBackend ((h b).call hidle e)
  | xactEnd b hidle | exit b hidle => exact h.flush hidle rfl
  | start b enabled force hexited =>
    have hempty := (h b).flushed (by rw [hexited]; trivial)
    have hbalance := (h b).balance
    rw [hexited, hempty] at hbalance
    exact h.setBackend ⟨hbalance, Nat.zero_le _, False.elim, trivial⟩
  | setEnabled b value | setForce b value =>
    exact h.setBackend ⟨(h b).balance, (h b).bound, (h b).flushed, (h b).pc⟩
  | step b a sh' be' hbe =>
    obtain ⟨hok, hothers⟩ := hbe.ok (h b)
    intro b'
    rcases eq_or_ne b' b with rfl | hne
    · simpa [Queue.setBackend] using hok
    · simpa [Queue.setBackend, hne, hothers b' hne] using h b'
  | shared l l' sh' hl hsh =>
    intro b
    simpa only [shared_tally hl hsh] using h b

theorem balanced_reachable (hs : (machine cfg).toSpec.Reachable s) : Balanced s := by
  refine Spec.Reachable.invariant ?_ ?_ hs
  · rintro s ⟨⟨start, slots, hsh⟩, hidle⟩ b
    obtain ⟨enabled, force, hb⟩ := hidle b
    rw [hb, hsh]
    exact ⟨rfl, Nat.zero_le _, False.elim, trivial⟩
  · rintro s s' h ⟨l, hstep⟩
    exact h.step (step_cases hstep)

theorem setBackend_discarded {b b' : cfg.Proc} {be : Backend}
    (h : be.discarded = (s.backends b').discarded) :
    ((s.setBackend b' be).backends b).discarded = (s.backends b).discarded := by
  rcases eq_or_ne b b' with rfl | hne
  · simpa [setBackend] using h
  · simp [setBackend, hne]

theorem Step.discarded {l : Label cfg} (hstep : Step s l s')
    (h : ∀ b, (s.backends b).pschEnabled = true) (b : cfg.Proc) :
    (s'.backends b).discarded = (s.backends b).discarded := by
  cases hstep with
  | call b' e hidle => exact setBackend_discarded (by simp [Backend.call, h b'])
  | xactEnd b' hidle | exit b' hidle =>
    exact setBackend_discarded (Backend.flush_discarded (h b') _)
  | start b' enabled force hexited => exact setBackend_discarded rfl
  | setEnabled b' value | setForce b' value => exact setBackend_discarded rfl
  | step b' a sh' be' hbe => exact setBackend_discarded (s := s) (hbe.discarded (h b'))
  | shared => rfl

theorem discarded_eq_zero (e : Behavior (machine cfg).toSpec) {n : ℕ}
    (h : ∀ m < n, ∀ b, ((e.st m).backends b).pschEnabled = true) (b : cfg.Proc) :
    ((e.st n).backends b).discarded = 0 := by
  induction n with
  | zero =>
    obtain ⟨-, hidle⟩ := e.init
    obtain ⟨enabled, force, hb⟩ := hidle b
    rw [hb]
  | succ n ih =>
    have hn := ih fun m hm => h m (Nat.lt_succ_of_lt hm)
    rcases e.next n with ⟨l, hstep⟩ | hstut
    · rw [(step_cases hstep).discarded (h n n.lt_succ_self) b, hn]
    · rw [hstut, hn]

/-! ## The balance -/

/-- Calls of `PschEnqueueEvent` that passed its guard. -/
def calls (s : Queue cfg) : ℕ := ∑ b, (s.backends b).calls

/-- The sum of all `local_batch_count`. -/
def buffered (s : Queue cfg) : ℕ := ∑ b, (s.backends b).localBatch.length

/-- Events thrown away by a flush with `psch_enabled` off. -/
def discarded (s : Queue cfg) : ℕ := ∑ b, (s.backends b).discarded

/-- Events of calls that have not accounted for them yet. -/
def inFlight (s : Queue cfg) : ℕ := ∑ b, (s.backends b).pc.pending

theorem Balanced.sum (h : Balanced s) :
    s.calls = ∑ b, (s.shmem.tally b).enqueued + ∑ b, (s.shmem.tally b).dropped + s.buffered +
      s.inFlight + s.discarded := by
  unfold calls buffered inFlight discarded
  simp only [← Finset.sum_add_distrib]
  exact Finset.sum_congr rfl fun b _ => (h b).balance

/-- With all of them between two calls, nothing is in flight. -/
theorem inFlight_eq_zero (h : ∀ b, (s.backends b).pc = .idle ∨ (s.backends b).pc = .exited) :
    s.inFlight = 0 := by
  refine Finset.sum_eq_zero fun b _ => ?_
  rcases h b with hb | hb <;> rw [hb] <;> rfl

/-- The shared counters add up to the calls, as far as 64 bits go. -/
theorem calls_modEq (hs : (machine cfg).toSpec.Reachable s) :
    s.calls ≡ s.shmem.enqueued.toNat + s.shmem.dropped.toNat + s.buffered + s.discarded +
      s.inFlight [MOD 2 ^ 64] := by
  have hcount := Shmem.counted_reachable (shmem_reachable hs)
  rw [(balanced_reachable hs).sum, hcount.enqueued, hcount.dropped, UInt64.toNat_ofNat',
    UInt64.toNat_ofNat', add_right_comm _ s.inFlight]
  exact ((((Nat.mod_modEq _ _).symm.add (Nat.mod_modEq _ _).symm).add_right _).add_right
    _).add_right _

/-- With fewer than `2^64` calls they are exact. -/
theorem calls_eq (hs : (machine cfg).toSpec.Reachable s) (hlt : s.calls < 2 ^ 64) :
    s.calls = s.shmem.enqueued.toNat + s.shmem.dropped.toNat + s.buffered + s.discarded +
      s.inFlight := by
  have hcount := Shmem.counted_reachable (shmem_reachable hs)
  have hsum := (balanced_reachable hs).sum
  rw [hcount.enqueued, hcount.dropped, UInt64.toNat_ofNat', UInt64.toNat_ofNat',
    Nat.mod_eq_of_lt (by omega), Nat.mod_eq_of_lt (by omega), hsum, add_right_comm _ s.inFlight]

/-- Every call that passes the guard is accounted for, in every state of every
behavior. The return values say what became of the events: `PschEnqueueEvent`
returns true exactly if it enqueued or buffered its event, `PschEnqueueBatch` the
number it enqueued, with the others dropped. With `psch_enabled` on and all
backends gone, each event was enqueued or dropped. -/
theorem producer_conservation (e : Behavior (machine cfg).toSpec) (n : ℕ) :
    (e.st n).calls ≡ (e.st n).shmem.enqueued.toNat + (e.st n).shmem.dropped.toNat +
      (e.st n).buffered + (e.st n).discarded + (e.st n).inFlight [MOD 2 ^ 64] ∧
    ((e.st n).calls < 2 ^ 64 →
      (e.st n).calls = (e.st n).shmem.enqueued.toNat + (e.st n).shmem.dropped.toNat +
        (e.st n).buffered + (e.st n).discarded + (e.st n).inFlight) ∧
    ((∀ b, ((e.st n).backends b).pc = .idle ∨ ((e.st n).backends b).pc = .exited) →
      (e.st n).inFlight = 0) ∧
    (∀ b, ((e.st n).backends b).localBatch.length ≤ 8) ∧
    (∀ b ev ret before, ((e.st n).backends b).pc = .returnEvent ev ret before →
      (ret = true ↔
        (∃ t, before = some t ∧ ((e.st n).shmem.tally b).enqueued = t.enqueued + 1) ∨
        (before = none ∧ ((e.st n).backends b).localBatch.getLast? = some ev)) ∧
      (ret = false → ∃ t, before = some t ∧ ((e.st n).shmem.tally b).enqueued = t.enqueued ∧
        ((e.st n).shmem.tally b).dropped = t.dropped + 1)) ∧
    (∀ b k count ret enabled before,
      ((e.st n).backends b).pc = .returnBatch k count ret enabled before →
      ((e.st n).shmem.tally b).enqueued = before.enqueued + ret ∧ ret ≤ count ∧
      (enabled = true → ((e.st n).shmem.tally b).dropped = before.dropped + (count - ret))) ∧
    ((∀ m < n, ∀ b, ((e.st m).backends b).pschEnabled = true) →
      (∀ b, ((e.st n).backends b).pc = .exited) → (e.st n).calls < 2 ^ 64 →
      (e.st n).calls = (e.st n).shmem.enqueued.toNat + (e.st n).shmem.dropped.toNat) := by
  have hreach := e.reachable n
  have hok := balanced_reachable hreach
  refine ⟨calls_modEq hreach, calls_eq hreach, inFlight_eq_zero, fun b => (hok b).bound, ?_, ?_, ?_⟩
  · intro b ev ret before hb
    have hpc := (hok b).pc
    rw [hb] at hpc
    cases before with
    | none =>
      -- the lock was contended, and the event was buffered
      obtain ⟨rfl, hlast⟩ := hpc
      simpa using hlast
    | some t =>
      rcases hpc with ⟨rfl, henq, hdrop⟩ | ⟨rfl, henq, hdrop⟩
      · simpa using henq
      · simpa [henq] using hdrop
  · intro b k count ret enabled before hb
    have hpc := (hok b).pc
    rw [hb] at hpc
    exact hpc
  · intro henabled hexited hlt
    -- an exited backend has flushed its buffer and, with `psch_enabled` on, discarded nothing
    have hflight : (e.st n).inFlight = 0 := inFlight_eq_zero fun b => Or.inr (hexited b)
    have hdisc : (e.st n).discarded = 0 :=
      Finset.sum_eq_zero fun b _ => discarded_eq_zero e henabled b
    have hbuf : (e.st n).buffered = 0 := by
      refine Finset.sum_eq_zero fun b _ => ?_
      rw [(hok b).flushed (by rw [hexited b]; trivial), List.length_nil]
    simpa [hbuf, hdisc, hflight] using calls_eq hreach hlt

instance (pc : Pc) : Decidable (pc = .exited) :=
  match pc with
  | .exited => isTrue rfl
  | .idle => isFalse nofun
  | .fastHead _ => isFalse nofun
  | .fastTail _ _ => isFalse nofun
  | .fastOverflow _ _ => isFalse nofun
  | .acquire _ => isFalse nofun
  | .enqueue _ _ _ _ => isFalse nofun
  | .trying _ _ _ => isFalse nofun
  | .unlock _ _ => isFalse nofun
  | .add _ => isFalse nofun
  | .returnEvent _ _ _ => isFalse nofun
  | .returnBatch _ _ _ _ _ => isFalse nofun

/-- One event in, then everyone leaves. -/
def oneInAllOut : Behavior (machine sampleConfig).toSpec :=
  (machine sampleConfig).behavior sample sample_init
    (enqueueOne proc₀ 8 { queryLen := 1 } ++
      [.exit proc₀, .exit proc₁, .exit proc₂])

theorem producer_conservation_exit :
    (oneInAllOut.st 21).calls = 1 ∧
    (oneInAllOut.st 21).calls =
      (oneInAllOut.st 21).shmem.enqueued.toNat + (oneInAllOut.st 21).shmem.dropped.toNat := by
  have hone : (oneInAllOut.st 21).calls = 1 := by decide +kernel
  obtain ⟨-, -, -, -, -, -, hexit⟩ := producer_conservation oneInAllOut 21
  exact ⟨hone, hexit (by decide +kernel) (by decide +kernel) (by rw [hone]; decide)⟩

end Queue

end PgStatCh
