import PgStatCh.Lib.Fifo
import PgStatCh.Queue.StringQueue
import PgStatCh.Queue.ShmemInv

/-!
# Queue.ShmemRefines — what the ring implements

Two refinement mappings from the ring of `Shmem`:

* `refines_fifo` — it is a bounded FIFO queue: the store of `head + 1` enqueues,
  the store of `tail + 1` dequeues, every other step leaves the queue alone;
* `refines_stringQueue` — it is a `StringQueue`, so the interner's accounting and
  the round trip of events hold of it as well.

The lock keeps all but one producer out, so references are scarce: together with
the waiting slots they never exceed the capacity (`refs_le_capacity`).
-/

namespace PgStatCh

open Lib Tla

namespace Shmem

variable {cfg : Config} {s s' : Shmem cfg}

/-- The published events that have not come out yet. -/
def waiting (s : Shmem cfg) : List Published := s.published.drop s.returned.length

/-! ## A bounded FIFO queue -/

def toFifo (s : Shmem cfg) : Fifo Published where
  queue := s.waiting
  entered := s.published
  left := s.published.take s.returned.length

theorem fifo_step (hi : Inv s) (hstep : Step s s') :
    (Fifo.spec Published cfg.capacity.toNat).StutNext s.toFifo s'.toFifo := by
  cases hstep with
  | publish b e head errBlock met hb =>
    -- the store of `head + 1`
    have hok := hi.phase b
    rw [hb] at hok
    have hroom := hok.2
    have hle := hi.le
    refine Or.inl (Or.inl ⟨⟨e, s.slotAt head, errBlock, met⟩, ?_, ?_⟩)
    · simp only [toFifo, waiting, List.length_drop]
      omega
    · simp [toFifo, waiting, Shmem.setPhase, List.drop_append_of_le_length hi.le,
        List.take_append_of_le_length hi.le]
  | deliver tail out hw =>
    -- the store of `tail + 1`
    have hwork := hi.worker
    rw [hw] at hwork
    have hlt := hwork.2
    refine Or.inl (Or.inr ⟨s.published[s.returned.length], s.published.drop (s.returned.length + 1),
      List.drop_eq_getElem_cons hlt, ?_⟩)
    simp only [toFifo, waiting, List.length_append, List.length_singleton]
    rw [List.take_succ_eq_append_getElem hlt]
  | _ => exact Or.inr rfl

/-- The ring refines the bounded FIFO queue. -/
theorem refines_fifo (cfg : Config) :
    Refinement (machine cfg).toSpec (Fifo.spec Published cfg.capacity.toNat) toFifo where
  init := by
    rintro s ⟨start, slots, rfl⟩
    exact ⟨rfl, rfl, rfl⟩
  next := by
    rintro s s' hs ⟨l, hstep⟩
    exact fifo_step (inv_reachable hs) (step_cases hstep)

/-! ## A string queue -/

/-- A producer that is filling a slot. -/
def producerOf (s : Shmem cfg) : Phase → Producer
  | .build e head pc => .building e (s.slotAt head) pc
  | _ => .idle

/-- The consumer with the front event once it reads its slot, and the rest. -/
def consumerView : Worker → List Published → Consumer × List Published
  | .reading _ out pc, pub :: rest => (.reading pub out pc, rest)
  | _, waiting => (.idle, waiting)

def toStringQueue (s : Shmem cfg) : StringQueue cfg where
  mem := s.mem
  producers := fun b => s.producerOf (s.phase b)
  ring := (consumerView s.worker s.waiting).2
  consumer := (consumerView s.worker s.waiting).1
  delivered := (s.published.take s.returned.length).zip s.returned

theorem toStringQueue_setPhase (s : Shmem cfg) (b : cfg.Proc) (ph : Phase) :
    (s.setPhase b ph).toStringQueue = s.toStringQueue.setProducer b (s.producerOf ph) := by
  have hproducers : (fun b' => s.producerOf (Function.update s.phase b ph b')) =
      Function.update (fun b' => s.producerOf (s.phase b')) b (s.producerOf ph) := by
    funext b'
    rcases eq_or_ne b' b with rfl | hne
    · simp
    · simp [hne]
  exact congrArg (fun p => { s.toStringQueue with producers := p }) hproducers

/-- A producer that is not filling a slot before or after makes no difference. -/
theorem toStringQueue_quiet {b : cfg.Proc} {ph : Phase}
    (hold : s.producerOf (s.phase b) = .idle) (hnew : s.producerOf ph = .idle) :
    (s.setPhase b ph).toStringQueue = s.toStringQueue := by
  rw [toStringQueue_setPhase, hnew, ← hold]
  exact congrArg (fun p => { s.toStringQueue with producers := p })
    (Function.update_eq_self b fun b' => s.producerOf (s.phase b'))

theorem waiting_length (s : Shmem cfg) :
    s.waiting.length = s.published.length - s.returned.length := by
  simp [waiting]

@[simp] theorem consumerView_idle (waiting : List Published) :
    consumerView .idle waiting = (.idle, waiting) := rfl

@[simp] theorem consumerView_readTail (buf : PschEvent) (head : UInt64)
    (waiting : List Published) : consumerView (.readTail buf head) waiting = (.idle, waiting) :=
  rfl

@[simp] theorem consumerView_reading (tail : UInt64) (out : PschEvent) (pc : ConsumePc)
    (pub : Published) (rest : List Published) :
    consumerView (.reading tail out pc) (pub :: rest) = (.reading pub out pc, rest) := rfl

/-- The events that wait and the one that is being read are all there are. -/
theorem consumerView_length (w : Worker) (waiting : List Published) :
    (consumerView w waiting).2.length + (consumerView w waiting).1.taken = waiting.length := by
  cases w <;> cases waiting <;> simp [consumerView, Consumer.taken]

/-- The front event, whose slot the consumer reads. -/
theorem Inv.front (hi : Inv s) (hlt : s.returned.length < s.published.length) :
    ∃ pub rest, s.waiting = pub :: rest ∧ s.slotAt s.tail = pub.slot ∧
      s.published.take (s.returned.length + 1) = s.published.take s.returned.length ++ [pub] ∧
      s.published.drop (s.returned.length + 1) = rest := by
  refine ⟨s.published[s.returned.length], s.published.drop (s.returned.length + 1),
    List.drop_eq_getElem_cons hlt, ?_, List.take_succ_eq_append_getElem hlt, rfl⟩
  rw [hi.tail_eq]
  exact hi.slots _ _ (List.getElem?_eq_getElem hlt) le_rfl

/-- What is published joins the events that wait. -/
theorem Inv.consumerView_publish (hi : Inv s) (pub : Published) :
    consumerView s.worker ((s.published ++ [pub]).drop s.returned.length) =
      ((consumerView s.worker s.waiting).1, (consumerView s.worker s.waiting).2 ++ [pub]) := by
  rw [List.drop_append_of_le_length hi.le]
  change consumerView s.worker (s.waiting ++ [pub]) = _
  cases hw : s.worker with
  | idle => rfl
  | readTail buf head => rfl
  | reading tail out pc =>
    have hwork := hi.worker
    rw [hw] at hwork
    obtain ⟨front, rest, hwait, -⟩ := hi.front hwork.2
    simp [hwait]

theorem Inv.toStringQueue_build (hi : Inv s) {b : cfg.Proc} {e : PschEvent} {head : UInt64}
    {pc pc' : BuildPc} (hb : s.phase b = .build e head pc) (m' : Mem) (slot' : PschRingEntry) :
    toStringQueue { s.setPhase b (.build e head pc') with
      mem := m'
      slots := Function.update s.slots (slotIndex cfg.capacity head) slot' } =
    { s.toStringQueue.setProducer b (.building e slot' pc') with mem := m' } := by
  have hproducers : (fun b' => producerOf
      { s.setPhase b (.build e head pc') with
        mem := m'
        slots := Function.update s.slots (slotIndex cfg.capacity head) slot' }
      (Function.update s.phase b (.build e head pc') b')) =
      Function.update (fun b' => s.producerOf (s.phase b')) b (.building e slot' pc') := by
    funext b'
    rcases eq_or_ne b' b with rfl | hne
    · simp [producerOf, slotAt]
    · -- the slot may be written under the others: none of them is inside
      have hout : s.phase b' = .out := by
        by_contra hb'
        exact hne (hi.only_one hb' (by simp [hb]))
      simp [hne, hout, producerOf]
  exact congrArg (fun p => { s.toStringQueue with mem := m', producers := p }) hproducers

theorem Inv.toStringQueue_publish (hi : Inv s) (b : cfg.Proc) (head : UInt64) (pub : Published) :
    toStringQueue { s.setPhase b .bump with head := head, published := s.published ++ [pub] } =
    { s.toStringQueue.setProducer b .idle with ring := s.toStringQueue.ring ++ [pub] } := by
  have hproducers : (fun b' => s.producerOf (Function.update s.phase b .bump b')) =
      Function.update (fun b' => s.producerOf (s.phase b')) b .idle :=
    congrArg StringQueue.producers (toStringQueue_setPhase s b .bump)
  have htake : (s.published ++ [pub]).take s.returned.length = s.published.take s.returned.length :=
    List.take_append_of_le_length hi.le
  calc toStringQueue { s.setPhase b .bump with head := head, published := s.published ++ [pub] }
      = { mem := s.mem
          producers := fun b' => s.producerOf (Function.update s.phase b .bump b')
          ring := (consumerView s.worker ((s.published ++ [pub]).drop s.returned.length)).2
          consumer := (consumerView s.worker ((s.published ++ [pub]).drop s.returned.length)).1
          delivered := ((s.published ++ [pub]).take s.returned.length).zip s.returned } := rfl
    _ = { s.toStringQueue.setProducer b .idle with ring := s.toStringQueue.ring ++ [pub] } := by
        rw [hproducers, hi.consumerView_publish, htake]
        rfl

/-- The consumer moves within the slot it reads. -/
theorem toStringQueue_worker (s : Shmem cfg) (m' : Mem) (w : Worker) :
    toStringQueue { s with mem := m', worker := w } =
    { s.toStringQueue with
      mem := m'
      ring := (consumerView w s.waiting).2
      consumer := (consumerView w s.waiting).1 } := rfl

/-- What the string queue has of a consumer that reads a slot: the front event. -/
theorem Inv.reading (hi : Inv s) {tail : UInt64} {out : PschEvent} {pc : ConsumePc}
    (hw : s.worker = .reading tail out pc) :
    tail = s.tail ∧ s.returned.length < s.published.length ∧
      ∀ pub rest, s.waiting = pub :: rest →
        s.toStringQueue.consumer = .reading pub out pc ∧ s.toStringQueue.ring = rest := by
  have hwork := hi.worker
  rw [hw] at hwork
  refine ⟨hwork.1, hwork.2, ?_⟩
  intro pub rest hwait
  simp [toStringQueue, hw, hwait]

/-! ### Step by step -/

theorem step_start {b : cfg.Proc} {e : PschEvent} {head : UInt64}
    (hb : s.producerOf (s.phase b) = .idle) :
    StringQueue.step (.start b e (s.slotAt head)) s.toStringQueue =
      some (s.setPhase b (.build e head .copyPrefix)).toStringQueue := by
  have hprod : s.toStringQueue.producers b = .idle := hb
  rw [toStringQueue_setPhase]
  simp only [StringQueue.step, hprod, producerOf]

theorem Inv.step_build (hi : Inv s) {b : cfg.Proc} {a : Answer} {e : PschEvent} {head : UInt64}
    {pc pc' : BuildPc} {m' : Mem} {slot' : PschRingEntry} (hb : s.phase b = .build e head pc)
    (hbuild : buildStep cfg e a s.mem (s.slotAt head) pc = some (m', slot', pc')) :
    StringQueue.step (.build b a) s.toStringQueue =
      some (toStringQueue { s.setPhase b (.build e head pc') with
        mem := m'
        slots := Function.update s.slots (slotIndex cfg.capacity head) slot' }) := by
  have hprod : s.toStringQueue.producers b = .building e (s.slotAt head) pc := by
    simp [toStringQueue, hb, producerOf]
  have hmem : s.toStringQueue.mem = s.mem := rfl
  rw [hi.toStringQueue_build hb]
  simp [StringQueue.step, hprod, hmem, hbuild]

theorem Inv.step_publish (hi : Inv s) {b : cfg.Proc} {e : PschEvent} {head : UInt64}
    {errBlock : Option DsaPointer} {met : List Met}
    (hb : s.phase b = .build e head (.ready errBlock met)) :
    StringQueue.step (.publish b) s.toStringQueue =
      some (toStringQueue { s.setPhase b .bump with
        head := head + 1
        published := s.published ++ [⟨e, s.slotAt head, errBlock, met⟩] }) := by
  have hok := hi.phase b
  rw [hb] at hok
  have hroom := hok.2
  have hprod : s.toStringQueue.producers b =
      .building e (s.slotAt head) (.ready errBlock met) := by
    simp [toStringQueue, hb, producerOf]
  have hlt : s.toStringQueue.ring.length + s.toStringQueue.consumer.taken <
      cfg.capacity.toNat := by
    have hle := hi.le
    have hcap := capacity_pos cfg.capacity_pow
    simp only [toStringQueue, consumerView_length, waiting_length]
    omega
  rw [hi.toStringQueue_publish]
  simp only [StringQueue.step, hprod, hlt, if_true]

theorem Inv.step_take (hi : Inv s) {buf : PschEvent} {head : UInt64}
    (hw : s.worker = .readTail buf head) (hlt : s.returned.length < s.published.length) :
    StringQueue.step (.take buf) s.toStringQueue =
      some (toStringQueue { s with worker := .reading s.tail buf .copyPrefix }) := by
  obtain ⟨pub, rest, hwait, -⟩ := hi.front hlt
  have hcons : s.toStringQueue.consumer = .idle := by simp [toStringQueue, hw]
  have hring : s.toStringQueue.ring = pub :: rest := by simp [toStringQueue, hw, hwait]
  have hview := toStringQueue_worker s s.mem (.reading s.tail buf .copyPrefix)
  rw [hwait] at hview
  simp only [StringQueue.step, hcons, hring]
  exact congrArg some hview.symm

theorem Inv.step_consume (hi : Inv s) {tail : UInt64} {out out' : PschEvent} {pc pc' : ConsumePc}
    {m' : Mem} (hw : s.worker = .reading tail out pc)
    (hconsume : consumeStep s.mem (s.slotAt tail) out pc = some (m', out', pc')) :
    StringQueue.step .consume s.toStringQueue =
      some (toStringQueue { s with mem := m', worker := .reading tail out' pc' }) := by
  obtain ⟨rfl, hlt, hfront⟩ := hi.reading hw
  obtain ⟨pub, rest, hwait, hslot, -⟩ := hi.front hlt
  obtain ⟨hcons, hring⟩ := hfront pub rest hwait
  have hmem : s.toStringQueue.mem = s.mem := rfl
  rw [hslot] at hconsume
  have hview := toStringQueue_worker s m' (.reading s.tail out' pc')
  rw [hwait, consumerView_reading, ← hring] at hview
  simp only [StringQueue.step, hcons, hmem, hconsume, Option.map_some]
  exact congrArg some hview.symm

theorem Inv.step_deliver (hi : Inv s) {tail : UInt64} {out : PschEvent}
    (hw : s.worker = .reading tail out (.release .done)) :
    StringQueue.step .deliver s.toStringQueue =
      some (toStringQueue
        { s with tail := tail + 1, worker := .idle, returned := s.returned ++ [out] }) := by
  obtain ⟨rfl, hlt, hfront⟩ := hi.reading hw
  obtain ⟨pub, rest, hwait, -, htake, hdrop⟩ := hi.front hlt
  obtain ⟨hcons, hring⟩ := hfront pub rest hwait
  have hlen : (s.published.take s.returned.length).length = s.returned.length := by
    simp [Nat.min_eq_left hi.le]
  have hout : toStringQueue
      { s with tail := s.tail + 1, worker := .idle, returned := s.returned ++ [out] } =
      { s.toStringQueue with
        ring := rest
        consumer := .idle
        delivered := s.toStringQueue.delivered ++ [(pub, out)] } := by
    simp only [toStringQueue, waiting, List.length_append, List.length_singleton, htake, hdrop,
      List.zip_append hlen, consumerView_idle]
    rfl
  rw [← hring] at hout
  simp only [StringQueue.step, hcons]
  exact congrArg some hout.symm

theorem stringQueue_step (hi : Inv s) (hstep : Step s s') :
    (StringQueue.machine cfg).toSpec.StutNext s.toStringQueue s'.toStringQueue := by
  cases hstep with
  | acquire b hb hlock =>
    exact Or.inr (toStringQueue_quiet (s := s) (b := b) (by simp [hb, producerOf]) rfl)
  | release b hb =>
    exact Or.inr (toStringQueue_quiet (s := s) (b := b) (by simp [hb, producerOf]) rfl)
  | acquireOther hlock => exact Or.inr rfl
  | releaseOther hlock => exact Or.inr rfl
  | beginEnqueue b e hb =>
    exact Or.inr (toStringQueue_quiet (by simp [hb, producerOf]) rfl)
  | readHead b e hb =>
    exact Or.inr (toStringQueue_quiet (by simp [hb, producerOf]) rfl)
  | full b e head hb =>
    exact Or.inr (toStringQueue_quiet (by simp [hb, producerOf]) rfl)
  | room b e head hb hroom =>
    exact Or.inl ⟨.start b e (s.slotAt head), step_start (by simp [hb, producerOf])⟩
  | overflow b hb =>
    exact Or.inr (toStringQueue_quiet (s := s.handleOverflow b)
      (by simp [handleOverflow, hb, producerOf]) rfl)
  | build b a e head pc m' slot' pc' hb hbuild =>
    exact Or.inl ⟨.build b a, hi.step_build hb hbuild⟩
  | publish b e head errBlock met hb => exact Or.inl ⟨.publish b, hi.step_publish hb⟩
  | bump b hb =>
    exact Or.inr (toStringQueue_quiet (s := s) (b := b) (by simp [hb, producerOf]) rfl)
  | fastOverflow b => exact Or.inr rfl
  | beginDequeue buf hw =>
    right
    simp [toStringQueue, hw, waiting, producerOf, slotAt]
  | empty buf head hw heq =>
    right
    simp [toStringQueue, hw, waiting, producerOf, slotAt]
  | take buf head hw hne =>
    have hi' := hi.step (.take buf head hw hne)
    exact Or.inl ⟨.take buf, hi.step_take hw hi'.worker.2⟩
  | consume tail out pc m' out' pc' hw hconsume =>
    exact Or.inl ⟨.consume, hi.step_consume hw hconsume⟩
  | deliver tail out hw => exact Or.inl ⟨.deliver, hi.step_deliver hw⟩

/-- The ring refines the string queue. -/
theorem refines_stringQueue (cfg : Config) :
    Refinement (machine cfg).toSpec (StringQueue.machine cfg).toSpec toStringQueue where
  init := by
    rintro s ⟨start, slots, rfl⟩
    rfl
  next := by
    rintro s s' hs ⟨l, hstep⟩
    exact stringQueue_step (inv_reachable hs) (step_cases hstep)

theorem stringQueue_inv (hs : (machine cfg).toSpec.Reachable s) : StringQueue.Inv s.toStringQueue :=
  (refines_stringQueue cfg).invariant (fun _ => StringQueue.inv_reachable) hs

/-! ## What follows -/

/-- Every event came out as it went in, in the order of publication. -/
theorem returned_roundTrip (hs : (machine cfg).toSpec.Reachable s) :
    List.Forall₂ (RoundTrip cfg.hash) (s.published.take s.returned.length) s.returned := by
  have hlen : (s.published.take s.returned.length).length = s.returned.length := by
    simp [Nat.min_eq_left (inv_reachable hs).le]
  refine List.forall₂_iff_zip.mpr ⟨hlen, ?_⟩
  intro pub out hmem
  exact (stringQueue_inv hs).delivered (pub, out) hmem

/-- Besides the one producer that fills a slot, only waiting events hold references. -/
theorem refs_of_build (hi : Inv s) {b : cfg.Proc} {e : PschEvent} {head : UInt64} {pc : BuildPc}
    (hb : s.phase b = .build e head pc) :
    refs s.toStringQueue.holdings ≤
      refs (pc.res cfg.hash e (s.slotAt head)) + s.waiting.length := by
  have hrefs := s.toStringQueue.refs_holdings_le
  have hlen : s.toStringQueue.ring.length + s.toStringQueue.consumer.taken = s.waiting.length :=
    consumerView_length _ _
  have hsum : ∑ b', refs ((s.toStringQueue.producers b').res cfg.hash) =
      refs (pc.res cfg.hash e (s.slotAt head)) := by
    rw [Finset.sum_eq_single b]
    · simp [toStringQueue, hb, producerOf, Producer.res]
    · intro b' _ hne
      have hout : s.phase b' = .out := by
        by_contra hb'
        exact hne (hi.only_one hb' (by simp [hb]))
      simp [toStringQueue, hout, producerOf]
    · simp
  omega

/-- The references that the interner counts never exceed the capacity. -/
theorem refs_le_capacity (hi : Inv s) : refs s.toStringQueue.holdings ≤ cfg.capacity.toNat := by
  have hle := hi.le
  have hbound := hi.bound
  have hwait := s.waiting_length
  by_cases hbuild : ∃ b e head pc, s.phase b = .build e head pc
  · obtain ⟨b, e, head, pc, hb⟩ := hbuild
    have hok := hi.phase b
    rw [hb] at hok
    have hroom := hok.2
    have hrefs := refs_of_build hi hb
    have hone := pc.refs_res_le cfg.hash e (s.slotAt head)
    omega
  · have hsum : ∑ b', refs ((s.toStringQueue.producers b').res cfg.hash) = 0 := by
      apply Finset.sum_eq_zero
      intro b' _
      cases hb' : s.phase b' with
      | build e head pc => exact absurd ⟨b', e, head, pc, hb'⟩ hbuild
      | _ => simp [toStringQueue, hb', producerOf]
    have hrefs := s.toStringQueue.refs_holdings_le
    have hlen : s.toStringQueue.ring.length + s.toStringQueue.consumer.taken = s.waiting.length :=
      consumerView_length _ _
    omega

end Shmem

end PgStatCh
