import PgStatCh.Queue.Shmem
import PgStatCh.Tla.Rules

/-!
# Queue.ShmemInv — positions, lock and slots of the ring

`Step` says once what a step of the ring can do. `Inv` is the inductive invariant
of every interleaving: `head` and `tail` count the published and the returned
events, at most one producer is inside, a producer's copy of `head` is current
while it is inside, the consumer's copy of `head` may be old but never lies
behind `tail`, and every waiting slot still holds what was published in it.

From it: a producer never writes the slot that the consumer reads
(`write_apart`), and the wrapped difference of the positions is the number of
waiting events (`head_sub_tail`).
-/

namespace PgStatCh

open Lib Tla

namespace Shmem

variable {cfg : Config} {s s' : Shmem cfg}

/-! ## What a step can do -/

inductive Step (s : Shmem cfg) : Shmem cfg → Prop where
  | acquire (b : cfg.Proc) : s.phase b = .out → s.lock = none →
    Step s { s.setPhase b .locked with lock := some (.producer b) }
  | release (b : cfg.Proc) : s.phase b = .locked →
    Step s { s.setPhase b .out with lock := none }
  | acquireOther : s.lock = none → Step s { s with lock := some .other }
  | releaseOther : s.lock = some .other → Step s { s with lock := none }
  | beginEnqueue (b : cfg.Proc) (e : PschEvent) : s.phase b = .locked →
    Step s (s.setPhase b (.readHead e))
  | readHead (b : cfg.Proc) (e : PschEvent) : s.phase b = .readHead e →
    Step s (s.setPhase b (.readTail e s.head))
  | full (b : cfg.Proc) (e : PschEvent) (head : UInt64) : s.phase b = .readTail e head →
    Step s (s.setPhase b .overflow)
  | room (b : cfg.Proc) (e : PschEvent) (head : UInt64) : s.phase b = .readTail e head →
    ¬ cfg.capacity.toUInt64 ≤ head - s.tail →
    Step s (s.setPhase b (.build e head .copyPrefix))
  | overflow (b : cfg.Proc) : s.phase b = .overflow →
    Step s ((s.handleOverflow b).setPhase b .locked)
  | build (b : cfg.Proc) (a : Answer) (e : PschEvent) (head : UInt64) (pc : BuildPc) (m' : Mem)
      (slot' : PschRingEntry) (pc' : BuildPc) : s.phase b = .build e head pc →
    buildStep cfg e a s.mem (s.slotAt head) pc = some (m', slot', pc') →
    Step s { s.setPhase b (.build e head pc') with
      mem := m'
      slots := Function.update s.slots (slotIndex cfg.capacity head) slot' }
  | publish (b : cfg.Proc) (e : PschEvent) (head : UInt64) (errBlock : Option DsaPointer)
      (met : List Met) :
    s.phase b = .build e head (.ready errBlock met) →
    Step s { s.setPhase b .bump with
      head := head + 1
      published := s.published ++ [⟨e, s.slotAt head, errBlock, met⟩] }
  | bump (b : cfg.Proc) : s.phase b = .bump →
    Step s { s.setPhase b .locked with
      enqueued := s.enqueued + 1
      tally := Function.update s.tally b
        { s.tally b with enqueued := (s.tally b).enqueued + 1 } }
  | fastOverflow (b : cfg.Proc) : Step s (s.handleOverflow b)
  | beginDequeue (buf : PschEvent) : s.worker = .idle →
    Step s { s with worker := .readTail buf s.head }
  | empty (buf : PschEvent) (head : UInt64) : s.worker = .readTail buf head → head = s.tail →
    Step s { s with worker := .idle }
  | take (buf : PschEvent) (head : UInt64) : s.worker = .readTail buf head → head ≠ s.tail →
    Step s { s with worker := .reading s.tail buf .copyPrefix }
  | consume (tail : UInt64) (out : PschEvent) (pc : ConsumePc) (m' : Mem) (out' : PschEvent)
      (pc' : ConsumePc) : s.worker = .reading tail out pc →
    consumeStep s.mem (s.slotAt tail) out pc = some (m', out', pc') →
    Step s { s with mem := m', worker := .reading tail out' pc' }
  | deliver (tail : UInt64) (out : PschEvent) : s.worker = .reading tail out (.release .done) →
    Step s { s with tail := tail + 1, worker := .idle, returned := s.returned ++ [out] }

theorem tryStep_cases {b : cfg.Proc} {a : Answer} {force : Bool} {ret : Option Bool}
    (h : s.tryStep b a force = some (s', ret)) : Step s s' := by
  unfold tryStep at h
  split at h
  · cases h
  · cases h
  · next e hb =>
    cases h
    exact .readHead b e hb
  · next e head hb =>
    split at h
    · cases h
      exact .full b e head hb
    · next hroom =>
      cases h
      exact .room b e head hb fun hle => hroom (Or.inl hle)
  · next hb =>
    cases h
    exact .overflow b hb
  · next e head errBlock met hb =>
    cases h
    exact .publish b e head errBlock met hb
  · next e head pc _ hb =>
    simp only [Option.map_eq_some_iff, Prod.exists, Prod.mk.injEq] at h
    obtain ⟨m', slot', pc', hbuild, rfl, -⟩ := h
    exact .build b a e head pc m' slot' pc' hb hbuild
  · next hb =>
    cases h
    exact .bump b hb

theorem dequeueStep_cases (h : s.dequeueStep = some s') : Step s s' := by
  unfold dequeueStep at h
  split at h
  · cases h
  · next buf head hw =>
    split at h
    · next heq =>
      cases h
      exact .empty buf head hw heq
    · next hne =>
      cases h
      exact .take buf head hw hne
  · next tail out hw =>
    cases h
    exact .deliver tail out hw
  · next tail out pc _ hw =>
    simp only [Option.map_eq_some_iff, Prod.exists] at h
    obtain ⟨m', out', pc', hcons, rfl⟩ := h
    exact .consume tail out pc m' out' pc' hw hcons

theorem step_cases {l : Label cfg} (h : step l s = some s') : Step s s' := by
  cases l with
  | acquire b =>
    simp only [step, Shmem.acquire] at h
    split at h
    · next hb hlock =>
      cases h
      exact .acquire b hb hlock
    · cases h
  | release b =>
    simp only [step, Shmem.release] at h
    split at h
    · next hb =>
      cases h
      exact .release b hb
    · cases h
  | acquireOther =>
    simp only [step] at h
    split at h
    · next hlock =>
      cases h
      exact .acquireOther hlock
    · cases h
  | releaseOther =>
    simp only [step] at h
    split at h
    · next hlock =>
      cases h
      exact .releaseOther hlock
    · cases h
  | beginEnqueue b e =>
    simp only [step, Shmem.beginEnqueue] at h
    split at h
    · next hb =>
      cases h
      exact .beginEnqueue b e hb
    · cases h
  | tryStep b a force =>
    simp only [step, Option.map_eq_some_iff, Prod.exists] at h
    obtain ⟨s₁, ret, htry, rfl⟩ := h
    exact tryStep_cases htry
  | handleOverflow b =>
    cases h
    exact .fastOverflow b
  | beginDequeue buf =>
    simp only [step, Shmem.beginDequeue] at h
    split at h
    · next hw =>
      cases h
      exact .beginDequeue buf hw
    · cases h
  | dequeueStep => exact dequeueStep_cases h

/-- What a step does to the work of a producer on its slot: nothing, start it, go
on with it, or end it. -/
theorem Step.build_cases (h : Step s s') (b : cfg.Proc) :
    s'.phase b = s.phase b ∨
    (∃ e head, s'.phase b = .build e head .copyPrefix) ∨
    (∃ a e head pc m' slot' pc', s.phase b = .build e head pc ∧
      buildStep cfg e a s.mem (s.slotAt head) pc = some (m', slot', pc') ∧
      s'.phase b = .build e head pc') ∨
    ∀ e head pc, s'.phase b ≠ .build e head pc := by
  cases h with
  | acquire b' | release b' | beginEnqueue b' | readHead b' | full b' | overflow b' | publish b'
  | bump b' =>
    rcases eq_or_ne b b' with rfl | hne
    · exact Or.inr (Or.inr (Or.inr (by simp [setPhase])))
    · exact Or.inl (by simp [setPhase, handleOverflow, hne])
  | room b' e head hb =>
    rcases eq_or_ne b b' with rfl | hne
    · exact Or.inr (Or.inl ⟨e, head, by simp [setPhase]⟩)
    · exact Or.inl (by simp [setPhase, hne])
  | build b' a e head pc m' slot' pc' hb hbuild =>
    rcases eq_or_ne b b' with rfl | hne
    · exact Or.inr (Or.inr (Or.inl ⟨a, e, head, pc, m', slot', pc', hb, hbuild,
        by simp [setPhase]⟩))
    · exact Or.inl (by simp [setPhase, hne])
  | _ => exact Or.inl rfl

/-! ## The invariant -/

/-- A producer's copy of `head` is current, and while it fills the slot there is
room for it. -/
def PhaseOk (s : Shmem cfg) : Phase → Prop
  | .out => True
  | .locked => True
  | .readHead _ => True
  | .readTail _ head => head = s.head
  | .overflow => True
  | .build _ head _ => head = s.head ∧
    s.published.length < s.returned.length + cfg.capacity.toNat
  | .bump => True

/-- The consumer's copy of `head` is one that `head` had since `tail` moved last;
its copy of `tail` is current. -/
def WorkerOk (s : Shmem cfg) : Worker → Prop
  | .idle => True
  | .readTail _ head => ∃ k, s.returned.length ≤ k ∧ k ≤ s.published.length ∧
    head = pos s.start k
  | .reading tail _ _ => tail = s.tail ∧ s.returned.length < s.published.length

theorem PhaseOk.mono {ph : Phase} (h : s.PhaseOk ph) (hhead : s'.head = s.head)
    (hpub : s'.published.length = s.published.length)
    (hret : s.returned.length ≤ s'.returned.length) : s'.PhaseOk ph := by
  cases ph with
  | readTail e head => exact h.trans hhead.symm
  | build e head pc =>
    refine ⟨h.1.trans hhead.symm, ?_⟩
    have hroom := h.2
    omega
  | _ => trivial

theorem WorkerOk.mono {w : Worker} (h : s.WorkerOk w) (hstart : s'.start = s.start)
    (htail : s'.tail = s.tail) (hret : s'.returned.length = s.returned.length)
    (hpub : s.published.length ≤ s'.published.length) : s'.WorkerOk w := by
  cases w with
  | idle => trivial
  | readTail buf head =>
    obtain ⟨k, hle, hge, hk⟩ := h
    exact ⟨k, by omega, by omega, by rw [hstart]; exact hk⟩
  | reading tail out pc =>
    have hlt := h.2
    exact ⟨h.1.trans htail.symm, by omega⟩

structure Inv (s : Shmem cfg) : Prop where
  head_eq : s.head = pos s.start s.published.length
  tail_eq : s.tail = pos s.start s.returned.length
  le : s.returned.length ≤ s.published.length
  bound : s.published.length ≤ s.returned.length + cfg.capacity.toNat
  lock : ∀ b, s.phase b ≠ .out ↔ s.lock = some (.producer b)
  phase : ∀ b, s.PhaseOk (s.phase b)
  worker : s.WorkerOk s.worker
  slots : ∀ i pub, s.published[i]? = some pub → s.returned.length ≤ i →
    s.slotAt (pos s.start i) = pub.slot

namespace Inv

/-- Two producers are never inside together. -/
theorem only_one (hi : Inv s) {b b' : cfg.Proc} (hb : s.phase b ≠ .out)
    (hb' : s.phase b' ≠ .out) : b = b' := by
  have hlock := (hi.lock b).mp hb
  rw [(hi.lock b').mp hb'] at hlock
  injection hlock with hlock
  injection hlock with hlock
  exact hlock.symm

/-- The number of waiting events is the wrapped difference of the positions. -/
theorem head_sub_tail (hi : Inv s) :
    (s.head - s.tail).toNat = s.published.length - s.returned.length := by
  have hbound := hi.bound
  have hcap := cfg.capacity.toNat_lt
  rw [hi.head_eq, hi.tail_eq]
  exact pos_sub_toNat hi.le (by omega)

/-- A producer that finds room has room. -/
theorem room_of_check (hi : Inv s) {head : UInt64} (hhead : head = s.head)
    (hroom : ¬ cfg.capacity.toUInt64 ≤ head - s.tail) :
    s.published.length < s.returned.length + cfg.capacity.toNat := by
  have hbound := hi.bound
  have hle := hi.le
  have hcap := cfg.capacity.toNat_lt
  rw [hhead, hi.head_eq, hi.tail_eq, le_pos_sub_iff hi.le (by omega)] at hroom
  omega

/-- A producer that is filling a slot has a slot that no waiting event is in. -/
theorem build_slot_ne (hi : Inv s) {b : cfg.Proc} {e : PschEvent} {head : UInt64} {pc : BuildPc}
    (hb : s.phase b = .build e head pc) {i : ℕ} (hret : s.returned.length ≤ i)
    (hpub : i < s.published.length) :
    slotIndex cfg.capacity (pos s.start i) ≠ slotIndex cfg.capacity head := by
  have hok := hi.phase b
  rw [hb] at hok
  obtain ⟨rfl, hroom⟩ := hok
  rw [hi.head_eq]
  exact (slotIndex_ne cfg.capacity_pow hpub (by omega)).symm

/-- A producer never writes the slot that the consumer is reading. -/
theorem write_apart (hi : Inv s) {b : cfg.Proc} {e : PschEvent} {head tail : UInt64}
    {pc : BuildPc} {out : PschEvent} {cpc : ConsumePc} (hb : s.phase b = .build e head pc)
    (hw : s.worker = .reading tail out cpc) :
    slotIndex cfg.capacity head ≠ slotIndex cfg.capacity tail := by
  have hwork := hi.worker
  rw [hw] at hwork
  obtain ⟨rfl, hlt⟩ := hwork
  rw [hi.tail_eq]
  exact (hi.build_slot_ne hb le_rfl hlt).symm

/-! ### Every step preserves it -/

theorem init : ∀ s : Shmem cfg, Init s → Inv s := by
  rintro s ⟨start, slots, rfl⟩
  exact
    { head_eq := by simp
      tail_eq := by simp
      le := le_rfl
      bound := Nat.zero_le _
      lock := by simp
      phase := fun _ => trivial
      worker := trivial
      slots := by simp }

/-- A producer that is inside goes on; the lock stays with it. -/
theorem setPhase (hi : Inv s) {b : cfg.Proc} {ph : Phase} (hb : s.phase b ≠ .out)
    (hph : ph ≠ .out) (hok : s.PhaseOk ph) : Inv (s.setPhase b ph) := by
  refine { hi with lock := ?_, phase := ?_, worker := hi.worker.mono rfl rfl rfl le_rfl }
  · intro b'
    rcases eq_or_ne b' b with rfl | hne
    · simpa [Shmem.setPhase, hph] using (hi.lock b').mp hb
    · simpa [Shmem.setPhase, hne] using hi.lock b'
  · intro b'
    apply PhaseOk.mono (s := s) _ rfl rfl le_rfl
    rcases eq_or_ne b' b with rfl | hne
    · simpa [Shmem.setPhase] using hok
    · simpa [Shmem.setPhase, hne] using hi.phase b'

/-- The counters are no part of the protocol. -/
theorem counters (hi : Inv s) (enqueued dropped : UInt64) (logged : Bool)
    (tally : cfg.Proc → Tally) :
    Inv { s with enqueued := enqueued, dropped := dropped, overflowLogged := logged,
                 tally := tally } :=
  { hi with
    phase := fun b => (hi.phase b).mono rfl rfl le_rfl
    worker := hi.worker.mono rfl rfl rfl le_rfl }

/-- The consumer moves and leaves `tail` alone. -/
theorem setWorker (hi : Inv s) {w : Worker} {m' : Mem} (hok : s.WorkerOk w) :
    Inv { s with mem := m', worker := w } :=
  { hi with
    phase := fun b => (hi.phase b).mono rfl rfl le_rfl
    worker := hok.mono rfl rfl rfl le_rfl }

theorem acquire (hi : Inv s) {b : cfg.Proc} (hb : s.phase b = .out) (hlock : s.lock = none) :
    Inv { s.setPhase b .locked with lock := some (.producer b) } := by
  have hfree : ∀ b', s.phase b' = .out := by
    intro b'
    by_contra hne
    have h := (hi.lock b').mp hne
    rw [hlock] at h
    cases h
  refine { hi with lock := ?_, phase := ?_, worker := hi.worker.mono rfl rfl rfl le_rfl }
  · intro b'
    rcases eq_or_ne b' b with rfl | hne
    · simp [Shmem.setPhase]
    · simp [Shmem.setPhase, hne, hfree b', Ne.symm hne]
  · intro b'
    rcases eq_or_ne b' b with rfl | hne
    · simp [Shmem.setPhase, PhaseOk]
    · simp [Shmem.setPhase, hne, hfree b', PhaseOk]

theorem release (hi : Inv s) {b : cfg.Proc} (hb : s.phase b = .locked) :
    Inv { s.setPhase b .out with lock := none } := by
  have hin : s.phase b ≠ .out := by simp [hb]
  have hout : ∀ b', b' ≠ b → s.phase b' = .out := by
    intro b' hne
    by_contra hb'
    exact hne (hi.only_one hb' hin)
  refine { hi with lock := ?_, phase := ?_, worker := hi.worker.mono rfl rfl rfl le_rfl }
  · intro b'
    rcases eq_or_ne b' b with rfl | hne
    · simp [Shmem.setPhase]
    · simp [Shmem.setPhase, hne, hout b' hne]
  · intro b'
    rcases eq_or_ne b' b with rfl | hne
    · simp [Shmem.setPhase, PhaseOk]
    · simp [Shmem.setPhase, hne, hout b' hne, PhaseOk]

/-- Somebody who is not a producer takes or gives back the lock. -/
theorem setLock (hi : Inv s) {lock : Option (Holder cfg)} (hold : ∀ b, s.lock ≠ some (.producer b))
    (hnew : ∀ b, lock ≠ some (.producer b)) : Inv { s with lock := lock } := by
  have hout : ∀ b, s.phase b = .out := by
    intro b
    by_contra hne
    exact hold b ((hi.lock b).mp hne)
  exact
    { hi with
      lock := fun b => by simp [hnew b, hout b]
      phase := fun b => (hi.phase b).mono rfl rfl le_rfl
      worker := hi.worker.mono rfl rfl rfl le_rfl }

/-- Filling a slot disturbs no waiting slot. -/
theorem build (hi : Inv s) {b : cfg.Proc} {e : PschEvent} {head : UInt64} {pc pc' : BuildPc}
    (hb : s.phase b = .build e head pc) (m' : Mem) (slot' : PschRingEntry) :
    Inv { s.setPhase b (.build e head pc') with
      mem := m'
      slots := Function.update s.slots (slotIndex cfg.capacity head) slot' } := by
  have hok := hi.phase b
  rw [hb] at hok
  have hnext : Inv (s.setPhase b (.build e head pc')) :=
    hi.setPhase (by simp [hb]) (by simp) hok
  refine { hnext with
    phase := fun b' => (hnext.phase b').mono rfl rfl le_rfl
    worker := hnext.worker.mono rfl rfl rfl le_rfl
    slots := ?_ }
  intro i pub hpub hret
  have hlt : i < s.published.length := (List.getElem?_eq_some_iff.mp hpub).1
  have hne := hi.build_slot_ne hb hret hlt
  simpa [slotAt, Shmem.setPhase, hne] using hi.slots i pub hpub hret

/-- Storing `head + 1` publishes the slot as it is. -/
theorem publish (hi : Inv s) {b : cfg.Proc} {e : PschEvent} {head : UInt64}
    {errBlock : Option DsaPointer} {met : List Met}
    (hb : s.phase b = .build e head (.ready errBlock met)) :
    Inv { s.setPhase b .bump with
      head := head + 1
      published := s.published ++ [⟨e, s.slotAt head, errBlock, met⟩] } := by
  have hok := hi.phase b
  rw [hb] at hok
  obtain ⟨rfl, hroom⟩ := hok
  have hin : s.phase b ≠ .out := by simp [hb]
  have hle := hi.le
  refine
    { head_eq := ?_, tail_eq := hi.tail_eq, le := ?_, bound := ?_, lock := ?_, phase := ?_,
      worker := hi.worker.mono rfl rfl rfl (by simp), slots := ?_ }
  · simp only [List.length_append, List.length_singleton]
    rw [hi.head_eq, pos_succ]
    rfl
  · simp only [List.length_append, List.length_singleton, Shmem.setPhase]
    omega
  · simp only [List.length_append, List.length_singleton, Shmem.setPhase]
    omega
  · intro b'
    rcases eq_or_ne b' b with rfl | hne
    · simpa [Shmem.setPhase] using (hi.lock b').mp hin
    · simpa [Shmem.setPhase, hne] using hi.lock b'
  · -- the other producers are outside and have no copy of `head`
    intro b'
    rcases eq_or_ne b' b with rfl | hne
    · simp [Shmem.setPhase, PhaseOk]
    · have hout : s.phase b' = .out := by
        by_contra hb'
        exact hne (hi.only_one hb' hin)
      simp [Shmem.setPhase, hne, hout, PhaseOk]
  · intro i pub hpub hret
    rcases Nat.lt_or_ge i s.published.length with hlt | hge
    · rw [List.getElem?_append_left hlt] at hpub
      exact hi.slots i pub hpub hret
    · obtain rfl : i = s.published.length := by
        have hlen := (List.getElem?_eq_some_iff.mp hpub).1
        simp only [List.length_append, List.length_singleton] at hlen
        omega
      simp only [List.getElem?_concat_length, Option.some.injEq] at hpub
      subst hpub
      simp only [Shmem.setPhase, slotAt, hi.head_eq]

/-- Storing `tail + 1` gives the slot back. -/
theorem deliver (hi : Inv s) {tail : UInt64} {out : PschEvent} {pc : ConsumePc}
    (hw : s.worker = .reading tail out pc) :
    Inv { s with tail := tail + 1, worker := .idle, returned := s.returned ++ [out] } := by
  have hwork := hi.worker
  rw [hw] at hwork
  obtain ⟨rfl, hlt⟩ := hwork
  have hbound := hi.bound
  refine
    { head_eq := hi.head_eq, tail_eq := ?_, le := ?_, bound := ?_, lock := hi.lock,
      phase := fun b => (hi.phase b).mono rfl rfl (by simp), worker := trivial, slots := ?_ }
  · simp only [List.length_append, List.length_singleton]
    rw [hi.tail_eq, pos_succ]
  · simp only [List.length_append, List.length_singleton]
    omega
  · simp only [List.length_append, List.length_singleton]
    omega
  · intro i pub hpub hret
    simp only [List.length_append, List.length_singleton] at hret
    exact hi.slots i pub hpub (by omega)

theorem step (hi : Inv s) (hstep : Step s s') : Inv s' := by
  cases hstep with
  | acquire b hb hlock => exact hi.acquire hb hlock
  | release b hb => exact hi.release hb
  | acquireOther hlock => exact hi.setLock (by simp [hlock]) (by simp)
  | releaseOther hlock => exact hi.setLock (by simp [hlock]) (by simp)
  | beginEnqueue b e hb => exact hi.setPhase (by simp [hb]) (by simp) trivial
  | readHead b e hb => exact hi.setPhase (by simp [hb]) (by simp) rfl
  | full b e head hb => exact hi.setPhase (by simp [hb]) (by simp) trivial
  | room b e head hb hroom =>
    have hok := hi.phase b
    rw [hb] at hok
    exact hi.setPhase (by simp [hb]) (by simp) ⟨hok, hi.room_of_check hok hroom⟩
  | overflow b hb =>
    exact (hi.counters _ _ _ _).setPhase (by simp [hb]) (by simp) trivial
  | build b a e head pc m' slot' pc' hb _ => exact hi.build hb m' slot'
  | publish b e head errBlock met hb => exact hi.publish hb
  | bump b hb =>
    have hlocked : Inv (s.setPhase b .locked) := hi.setPhase (by simp [hb]) (by simp) trivial
    exact hlocked.counters _ _ _ _
  | fastOverflow b => exact hi.counters _ _ _ _
  | beginDequeue buf hw =>
    exact hi.setWorker ⟨s.published.length, hi.le, le_rfl, hi.head_eq⟩
  | empty buf head hw _ => exact hi.setWorker trivial
  | take buf head hw hne =>
    have hwork := hi.worker
    rw [hw] at hwork
    obtain ⟨k, hge, hle, rfl⟩ := hwork
    -- the old `head` is not `tail`, so something was published after `tail`
    have hlt : s.returned.length < s.published.length := by
      by_contra hnot
      apply hne
      rw [hi.tail_eq]
      congr 1
      omega
    exact hi.setWorker ⟨rfl, hlt⟩
  | consume tail out pc m' out' pc' hw _ =>
    have hwork := hi.worker
    rw [hw] at hwork
    exact hi.setWorker hwork
  | deliver tail out hw => exact hi.deliver hw

end Inv

theorem inv_reachable (hs : (machine cfg).toSpec.Reachable s) : Inv s := by
  refine Spec.Reachable.invariant Inv.init ?_ hs
  rintro s s' hi ⟨l, hstep⟩
  exact hi.step (step_cases hstep)

end Shmem

end PgStatCh
