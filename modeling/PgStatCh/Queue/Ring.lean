import PgStatCh.Queue.Backends
import PgStatCh.Queue.ShmemRefines

/-!
# Queue.Ring — what the queue guarantees

The backends of `Backends` use the shared memory through the operations of
`Shmem` only (`refines_shmem`), so everything that holds of the ring holds of the
whole queue, with any number of backends, the consumer and the other users of the
queue lock interleaved in any way:

* `ring_refines_fifo` — a bounded FIFO queue that loses, doubles and tears nothing;
* `dequeue_roundTrip` — what comes out of it is what went in, up to truncation and
  the documented loss of texts;
* `refcounts_le_capacity` — the interner never outgrows its table.
-/

namespace PgStatCh

open Lib Tla

/-- A backend's step is a step of the shared memory, or does not touch it. -/
theorem Backend.Step.shmem {cfg : Config} {b : cfg.Proc} {a : Answer} {sh sh' : Shmem cfg}
    {be be' : Backend} (h : Backend.Step b a sh be sh' be') :
    sh' = sh ∨ ∃ l : Shmem.Label cfg, l.isDequeue = false ∧ Shmem.step l sh = some sh' := by
  cases h with
  | fastDrop => exact Or.inr ⟨.handleOverflow b, rfl, rfl⟩
  | acquired c sh' hb hacquire => exact Or.inr ⟨.acquire b, rfl, hacquire⟩
  | enqueue c e rest n sh' hb hbegin => exact Or.inr ⟨.beginEnqueue b e, rfl, hbegin⟩
  | inside c rest n sh' hb htry | enqueued c rest n sh' hb htry | dropped c rest n sh' hb htry =>
    exact Or.inr ⟨.tryStep b a be.forceLockedOverflow, rfl, by simp [Shmem.step, htry]⟩
  | unlock c n sh' hb hrelease => exact Or.inr ⟨.release b, rfl, hrelease⟩
  | _ => exact Or.inl rfl

/-! ## The capacity -/

/-- `check_psch_queue_capacity`, the GUC check hook. -/
def checkPschQueueCapacity (newval : Int32) : Bool :=
  if newval ≤ 0 then false
  else if newval &&& (newval - 1) ≠ 0 then false
  else true

/-- The capacities the hook lets through are the powers of two that `Config` asks for. -/
theorem checkPschQueueCapacity_pow {newval : Int32} (h : checkPschQueueCapacity newval = true) :
    ∃ j, newval.toUInt32.toNat = 2 ^ j := by
  unfold checkPschQueueCapacity at h
  split at h
  · cases h
  · next hpos =>
    split at h
    · cases h
    · next hand =>
      have hbits : newval.toUInt32 &&& (newval.toUInt32 - 1) = 0 := by
        have hzero := congrArg Int32.toUInt32 (not_not.mp hand)
        rw [Int32.toUInt32_and, Int32.toUInt32_sub] at hzero
        exact hzero
      have hne : newval.toUInt32.toNat ≠ 0 := by
        intro hzero
        have hbits : newval.toUInt32 = 0 := UInt32.toNat_inj.mp hzero
        have hval : newval = 0 := by
          change Int32.ofUInt32 newval.toUInt32 = 0
          rw [hbits]
          rfl
        exact hpos (by rw [hval]; decide)
      have hle : (1 : UInt32) ≤ newval.toUInt32 := by
        rw [UInt32.le_iff_toNat_le]
        exact Nat.pos_of_ne_zero hne
      apply (Nat.and_sub_one_eq_zero_iff_isPowerOfTwo hne).mp
      have hnat := congrArg UInt32.toNat hbits
      rw [UInt32.toNat_and, UInt32.toNat_sub_of_le _ _ hle] at hnat
      exact hnat

/-! ## The table-full exit -/

/-- That the table is full is met only where it may be full. -/
theorem acquireStep_tableFull {cfg : Config} {key : PschQueryInternKey} {text : List UInt8}
    {m m' : Mem} {a : Answer} {pc pc' : AcquirePc}
    (h : acquireStep cfg key text m a pc = some (m', pc'))
    (hmet : .enter none true ∈ pc.meets m key a) :
    (∃ p, pc = .enter p) ∧ cfg.mayBeFull m.table.size = true := by
  cases pc with
  | enter newDp =>
    obtain ⟨hlive, hfull⟩ := Met.enter.inj (List.mem_singleton.mp hmet)
    refine ⟨⟨newDp, rfl⟩, ?_⟩
    simp only [acquireStep, Mem.liveText_eq_none.mp hlive.symm, ← hfull, if_true] at h
    split at h
    · next hmay => exact hmay
    · cases h
  | _ => simp [AcquirePc.meets] at hmet

/-- A producer in `PschQueryInternAcquire` that has met a full table. -/
def BuildPc.TableFull : BuildPc → Prop
  | .acquire _ met _ => .enter none true ∈ met
  | _ => False

theorem buildStep_tableFull {cfg : Config} {e : PschEvent} {a : Answer} {m m' : Mem}
    {slot slot' : PschRingEntry} {pc pc' : BuildPc}
    (h : buildStep cfg e a m slot pc = some (m', slot', pc')) (hfull : pc'.TableFull) :
    pc.TableFull ∨
      (∃ errBlock met p, pc = .acquire errBlock met (.enter p)) ∧
        cfg.mayBeFull m.table.size = true := by
  cases pc with
  | copyPrefix =>
    cases h
    exact hfull.elim
  | allocErr =>
    simp only [buildStep, Option.map_eq_some_iff, Prod.exists] at h
    obtain ⟨m₁, dp, -, h⟩ := h
    split at h <;> cases h <;> exact hfull.elim
  | query errBlock =>
    simp only [buildStep] at h
    split at h
    · cases h
      simp [BuildPc.TableFull] at hfull
    · cases h
      exact hfull.elim
  | acquire errBlock met pc =>
    cases pc with
    | done dp =>
      simp only [buildStep] at h
      split at h <;> cases h <;> exact hfull.elim
    | _ =>
      simp only [buildStep, Option.map_eq_some_iff, Prod.exists, Prod.mk.injEq] at h
      obtain ⟨m₁, pc₁, hacq, rfl, -, rfl⟩ := h
      rcases List.mem_append.mp hfull with hbefore | hnow
      · exact Or.inl hbefore
      · obtain ⟨⟨p, hp⟩, hmay⟩ := acquireStep_tableFull hacq hnow
        exact Or.inr ⟨⟨errBlock, met, p, by rw [hp]⟩, hmay⟩
  | ready errBlock met => cases h

/-- A producer that has met a full table. -/
def Phase.TableFull : Phase → Prop
  | .build _ _ pc => pc.TableFull
  | _ => False

namespace Shmem

variable {cfg : Config} {s s' : Shmem cfg}

/-- With a table that has room for as many entries as the ring has slots, a
producer always finds room in it. -/
theorem not_mayBeFull (hcfg : ∀ n, cfg.mayBeFull n = true → cfg.capacity.toNat ≤ n)
    (hi : Inv s) (hmem : MemInv cfg.hash s.mem s.toStringQueue.holdings)
    {b : cfg.Proc} {e : PschEvent} {head : UInt64} {errBlock : Option DsaPointer}
    {met : List Met} {p : DsaPointer}
    (hb : s.phase b = .build e head (.acquire errBlock met (.enter p))) :
    cfg.mayBeFull s.mem.table.size = false := by
  have hok := hi.phase b
  rw [hb] at hok
  have hroom := hok.2
  have hle := hi.le
  -- the producer has no reference yet, so the waiting events have them all
  have hrefs := refs_of_build hi hb
  have hzero :
      refs (BuildPc.res cfg.hash e (s.slotAt head) (.acquire errBlock met (.enter p))) = 0 := by
    simp [-Multiset.singleton_add, BuildPc.res, AcquirePc.res]
  have hwait := s.waiting_length
  have htotal := hmem.total_refcount_le
  have hsize := hmem.size_le_total
  rw [Bool.eq_false_iff]
  intro hfull
  have hcap := hcfg _ hfull
  omega

/-- No producer has met a full table. -/
def NoTableFull (s : Shmem cfg) : Prop := ∀ b, ¬ (s.phase b).TableFull

theorem tableFull_step (hcfg : ∀ n, cfg.mayBeFull n = true → cfg.capacity.toNat ≤ n)
    (hi : Inv s) (hmem : MemInv cfg.hash s.mem s.toStringQueue.holdings)
    (hno : NoTableFull s) (hstep : Step s s') : NoTableFull s' := by
  intro b
  rcases hstep.build_cases b with hsame | ⟨e, head, hstart⟩ |
    ⟨a, e, head, pc, m', slot', pc', hb, hbuild, hb'⟩ | hend
  · rw [hsame]
    exact hno b
  · rw [hstart]
    exact id
  · rw [hb']
    intro hfull
    have hbefore := hno b
    rw [hb] at hbefore
    rcases buildStep_tableFull hbuild hfull with hthen | ⟨⟨errBlock, met, p, rfl⟩, hmay⟩
    · exact hbefore hthen
    · rw [not_mayBeFull hcfg hi hmem hb] at hmay
      cases hmay
  · intro hfull
    unfold Phase.TableFull at hfull
    split at hfull
    · next heq => exact hend _ _ _ heq
    · exact hfull

theorem not_tableFull (hcfg : ∀ n, cfg.mayBeFull n = true → cfg.capacity.toNat ≤ n)
    (hs : (machine cfg).toSpec.Reachable s) : NoTableFull s := by
  have hknown : ∀ s, (machine cfg).toSpec.Reachable s →
      Inv s ∧ MemInv cfg.hash s.mem s.toStringQueue.holdings :=
    fun s hs => ⟨inv_reachable hs, (stringQueue_inv hs).mem⟩
  refine Spec.Reachable.invariant_of hknown ?_ ?_ hs
  · rintro s ⟨start, slots, rfl⟩ b
    exact id
  · rintro s s' ⟨hi, hmem⟩ hno ⟨l, hstep⟩
    exact tableFull_step hcfg hi hmem hno (step_cases hstep)

end Shmem

namespace Queue

variable {cfg : Config} {s s' : Queue cfg}

theorem step_shmem {l : Label cfg} (h : step l s = some s') :
    s'.shmem = s.shmem ∨ ∃ l' : Shmem.Label cfg, l'.isDequeue = l.isDequeue ∧
      Shmem.step l' s.shmem = some s'.shmem := by
  cases step_cases h with
  | step b a sh' be' hbe => exact hbe.shmem
  | shared l l' sh' hl hsh =>
    refine Or.inr ⟨l', ?_, hsh⟩
    cases l <;> cases hl <;> rfl
  | _ => exact Or.inl rfl

/-- The whole queue refines the ring. -/
theorem refines_shmem (cfg : Config) :
    Refinement (machine cfg).toSpec (Shmem.machine cfg).toSpec Queue.shmem where
  init := fun s hs => hs.1
  next := by
    rintro s s' - ⟨l, hstep⟩
    rcases step_shmem hstep with hsame | ⟨l', -, hl'⟩
    · exact Or.inr hsame
    · exact Or.inl ⟨l', hl'⟩

theorem shmem_reachable (hs : (machine cfg).toSpec.Reachable s) :
    (Shmem.machine cfg).toSpec.Reachable s.shmem :=
  (refines_shmem cfg).reachable hs

/-! ## Results -/

/-- A queue whose positions are about to wrap, to try things on. -/
def sample : Queue sampleConfig where
  shmem :=
    { head := 0xFFFFFFFFFFFFFFFF, tail := 0xFFFFFFFFFFFFFFFF, start := 0xFFFFFFFFFFFFFFFF,
      slots := fun _ => {} }

theorem sample_init : (machine sampleConfig).Init sample :=
  ⟨⟨_, _, rfl⟩, fun _ => ⟨true, false, rfl⟩⟩

/-- Backend `b` enqueues an event with a new query text, which gets the block at `p`. -/
def enqueueOne (b : sampleConfig.Proc) (p : DsaPointer) (e : PschEvent) :
    List (Label sampleConfig) :=
  .call b e :: List.replicate 17 (.step b { block := some p })

/-- The consumer dequeues an event and frees its query text. -/
def dequeueOne : List (Label sampleConfig) := .beginDequeue {} :: List.replicate 8 .dequeueStep

/-- Two events in, one out. -/
def twoInOneOut : List (Label sampleConfig) :=
  enqueueOne proc₀ 8 { queryLen := 1 } ++
    enqueueOne proc₁ 16 { queryLen := 3 } ++ dequeueOne

theorem twoInOneOut_reachable :
    (machine sampleConfig).toSpec.Reachable ((machine sampleConfig).run sample twoInOneOut) :=
  (machine sampleConfig).run_reachable sample (.init sample_init) twoInOneOut

/-- The ring is a bounded FIFO queue. In every reachable state the events returned
are those published first, in that order and as they were stored, the positions
are at most the capacity apart, and no producer writes the slot that the consumer
reads. -/
theorem ring_refines_fifo (cfg : Config) :
    Refinement (machine cfg).toSpec (Fifo.spec Published cfg.capacity.toNat)
      (fun s => s.shmem.toFifo) ∧
    ∀ s, (machine cfg).toSpec.Reachable s →
      s.shmem.published = s.shmem.toFifo.left ++ s.shmem.toFifo.queue ∧
      List.Forall₂ (RoundTrip cfg.hash) s.shmem.toFifo.left s.shmem.returned ∧
      (s.shmem.head - s.shmem.tail).toNat ≤ cfg.capacity.toNat ∧
      ∀ b e head pc tail out cpc, s.shmem.phase b = .build e head pc →
        s.shmem.worker = .reading tail out cpc →
        slotIndex cfg.capacity head ≠ slotIndex cfg.capacity tail := by
  refine ⟨(refines_shmem cfg).comp (Shmem.refines_fifo cfg), fun s hs => ?_⟩
  have hring := shmem_reachable hs
  have hi := Shmem.inv_reachable hring
  refine ⟨?_, Shmem.returned_roundTrip hring, ?_, ?_⟩
  · exact (Fifo.inv_reachable ((Shmem.refines_fifo cfg).reachable hring)).1
  · have hbound := hi.bound
    rw [hi.head_sub_tail]
    omega
  · intro b e head pc tail out cpc hb hw
    exact hi.write_apart hb hw

theorem ring_refines_fifo_wrap :
    let s := (machine sampleConfig).run sample twoInOneOut
    s.shmem.head = 1 ∧ s.shmem.tail = 0 ∧ s.shmem.returned.length = 1 ∧
    List.Forall₂ (RoundTrip sampleConfig.hash) s.shmem.toFifo.left s.shmem.returned :=
  ⟨by decide +kernel, by decide +kernel, by decide +kernel,
    ((ring_refines_fifo sampleConfig).2 _ twoInOneOut_reachable).2.1⟩

/-- Event `i` of those that came out, and event `i` of those that went in. -/
theorem roundTrip_of_getElem? (hs : (machine cfg).toSpec.Reachable s) {i : ℕ} {pub : Published}
    {out : PschEvent} (hpub : s.shmem.published[i]? = some pub)
    (hout : s.shmem.returned[i]? = some out) : RoundTrip cfg.hash pub out := by
  have hlt : i < s.shmem.returned.length := (List.getElem?_eq_some_iff.mp hout).1
  have htake : (s.shmem.published.take s.shmem.returned.length)[i]? = some pub := by
    rw [List.getElem?_take_of_lt hlt, hpub]
  have hzip : ((s.shmem.published.take s.shmem.returned.length).zip s.shmem.returned)[i]? =
      some (pub, out) := List.getElem?_zip_eq_some.mpr ⟨htake, hout⟩
  exact (Shmem.stringQueue_inv (shmem_reachable hs)).delivered (pub, out)
    (List.mem_of_getElem? hzip)

/-- What costs an event its query text, cause by cause. -/
theorem queryLost_iff {hash : List UInt8 → UInt64} {pub : Published} {out : PschEvent}
    (h : RoundTrip hash pub out) :
    pub.QueryLost ↔ pub.event.queryLen = 0 ∨ .alloc none ∈ pub.met ∨ .enter none true ∈ pub.met ∨
      ∃ other, other ≠ pub.event.queryText ∧ KeyFits hash (pub.event.internKey hash) other ∧
        (.lookup (some other) ∈ pub.met ∨ ∃ full, .enter (some other) full ∈ pub.met) := by
  refine or_congr_right ⟨?_, ?_⟩
  · rintro ⟨x, hx, hloses⟩
    cases x with
    | alloc block =>
      obtain rfl : block = none := hloses
      exact Or.inl hx
    | lookup live =>
      cases live with
      | none => exact hloses.elim
      | some other => exact Or.inr (Or.inr ⟨other, hloses, h.sameKey _ hx _ rfl, Or.inl hx⟩)
    | enter live full =>
      cases live with
      | none =>
        obtain rfl : full = true := by simpa [Met.Loses, Collides] using hloses
        exact Or.inr (Or.inl hx)
      | some other =>
        have hne : other ≠ pub.event.queryText := by simpa [Met.Loses, Collides] using hloses
        exact Or.inr (Or.inr ⟨other, hne, h.sameKey _ hx _ rfl, Or.inr ⟨full, hx⟩⟩)
  · rintro (hx | hx | ⟨other, hne, -, hx | ⟨full, hx⟩⟩)
    · exact ⟨_, hx, rfl⟩
    · exact ⟨_, hx, Or.inr ⟨rfl, rfl⟩⟩
    · exact ⟨_, hx, hne⟩
    · exact ⟨_, hx, Or.inl hne⟩

/-- An event that comes out of a slot is the event that was put in, up to truncation and
the loss of texts. The error text is lost exactly if there is none, or its allocation was
answered with no block. The query text is lost exactly if there is none, its allocation
was answered with no block, the table was full for its key, or a different text was live
under its key. -/
theorem dequeue_roundTrip (hs : (machine cfg).toSpec.Reachable s) {i : ℕ} {pub : Published}
    {out : PschEvent} (hpub : s.shmem.published[i]? = some pub)
    (hout : s.shmem.returned[i]? = some out) :
    out.fixed = pub.event.fixed ∧
    TextOut pub.event.errText pub.ErrLost out.errMessageLen out.errMessage ∧
    TextOut pub.event.queryText pub.QueryLost out.queryLen out.query ∧
    (pub.ErrLost ↔ pub.event.errMessageLen = 0 ∨ pub.errBlock = none) ∧
    (pub.QueryLost ↔ pub.event.queryLen = 0 ∨ .alloc none ∈ pub.met ∨ .enter none true ∈ pub.met ∨
      ∃ other, other ≠ pub.event.queryText ∧
        KeyFits cfg.hash (pub.event.internKey cfg.hash) other ∧
        (.lookup (some other) ∈ pub.met ∨ ∃ full, .enter (some other) full ∈ pub.met)) := by
  have htrip := roundTrip_of_getElem? hs hpub hout
  exact ⟨htrip.fixed, htrip.err, htrip.query, Iff.rfl, queryLost_iff htrip⟩

/-- An event with an error text and a query text. -/
def failedStatement : PschEvent where
  fixed := { queryid := 7 }
  errMessageLen := 3
  errMessage := (CharBuf.zero _).write [66, 65, 68]
  queryLen := 2
  query := (CharBuf.zero _).write [81, 49]

/-- The same with another query text, for which the poor hash gives the same key. -/
def collidingStatement : PschEvent :=
  { failedStatement with query := (CharBuf.zero _).write [81, 50] }

/-- Both texts of the first event get a block. The second one's error text does not, and
its query text finds the first one's under its key. Then both are dequeued. -/
def twoFailedStatements : List (Label sampleConfig) :=
  .call proc₀ failedStatement :: List.replicate 8 (.step proc₀ { block := some 8 }) ++
    List.replicate 12 (.step proc₀ { block := some 16 }) ++
    .call proc₁ collidingStatement :: List.replicate 17 (.step proc₁ {}) ++
    .beginDequeue {} :: List.replicate 10 .dequeueStep ++
    .beginDequeue {} :: List.replicate 10 .dequeueStep

/-- Of the first event both texts arrive, of the second one neither does. -/
theorem dequeue_roundTrip_texts :
    let s := (machine sampleConfig).run sample twoFailedStatements
    (∃ pub out, s.shmem.published[0]? = some pub ∧ s.shmem.returned[0]? = some out ∧
      (out.errMessageLen.toNat = 3 ∧ out.errMessage.bytes 3 = [66, 65, 68]) ∧
      out.queryLen.toNat = 2 ∧ out.query.bytes 2 = [81, 49]) ∧
    ∃ pub out, s.shmem.published[1]? = some pub ∧ s.shmem.returned[1]? = some out ∧
      (pub.errBlock = none ∧ out.errMessageLen = 0) ∧
      .lookup (some [81, 49]) ∈ pub.met ∧ out.queryLen = 0 := by
  intro s
  have hs : (machine sampleConfig).toSpec.Reachable s :=
    (machine sampleConfig).run_reachable sample (.init sample_init) twoFailedStatements
  constructor
  · obtain ⟨out, hout⟩ : ∃ out, s.shmem.returned[0]? = some out :=
      Option.isSome_iff_exists.mp (by decide +kernel)
    have hmap : (s.shmem.published[0]?).map (fun pub =>
        (pub.event.errText, pub.event.queryText, decide pub.ErrLost, decide pub.QueryLost)) =
        some ([66, 65, 68], [81, 49], false, false) := by decide +kernel
    obtain ⟨pub, hpub, hevent⟩ := Option.map_eq_some_iff.mp hmap
    simp only [Prod.mk.injEq, decide_eq_false_iff_not] at hevent
    obtain ⟨herrText, hqueryText, herrKept, hqueryKept⟩ := hevent
    obtain ⟨-, herr, hquery, -, -⟩ := dequeue_roundTrip hs hpub hout
    have herrOut := herr.whole herrKept
    have hqueryOut := hquery.whole hqueryKept
    rw [herrText] at herrOut
    rw [hqueryText] at hqueryOut
    exact ⟨pub, out, hpub, hout, herrOut, hqueryOut⟩
  · obtain ⟨out, hout⟩ : ∃ out, s.shmem.returned[1]? = some out :=
      Option.isSome_iff_exists.mp (by decide +kernel)
    have hmap : (s.shmem.published[1]?).map (fun pub =>
        (pub.errBlock, pub.met, decide pub.ErrLost, decide pub.QueryLost)) =
        some (none, [.lookup (some [81, 49])], true, true) := by decide +kernel
    obtain ⟨pub, hpub, hevent⟩ := Option.map_eq_some_iff.mp hmap
    simp only [Prod.mk.injEq, decide_eq_true_eq] at hevent
    obtain ⟨hblock, hmet, herrLost, hqueryLost⟩ := hevent
    obtain ⟨-, herr, hquery, -, -⟩ := dequeue_roundTrip hs hpub hout
    refine ⟨pub, out, hpub, hout, ⟨hblock, herr.empty herrLost⟩, ?_, hquery.empty hqueryLost⟩
    rw [hmet]
    exact List.mem_singleton_self _

/-- All reference counts together never exceed the capacity. So the table never
holds more entries than the ring has slots, no count wraps, and with a table that
takes that many entries no producer ever meets a full one. -/
theorem refcounts_le_capacity (hs : (machine cfg).toSpec.Reachable s) :
    s.shmem.mem.table.total (fun e => e.refcount.toNat) ≤ cfg.capacity.toNat ∧
    s.shmem.mem.table.size ≤ cfg.capacity.toNat ∧
    (∀ k e, s.shmem.mem.table.get k = some e →
      0 < e.refcount.toNat ∧ (e.refcount + 1).toNat = e.refcount.toNat + 1) ∧
    ((∀ n, cfg.mayBeFull n = true → cfg.capacity.toNat ≤ n) →
      ∀ b e head errBlock met pc,
        s.shmem.phase b = .build e head (.acquire errBlock met pc) →
          .enter none true ∉ met) := by
  have hring := shmem_reachable hs
  have hi := Shmem.inv_reachable hring
  have hmem : MemInv cfg.hash s.shmem.mem s.shmem.toStringQueue.holdings :=
    (Shmem.stringQueue_inv hring).mem
  have hrefs := Shmem.refs_le_capacity hi
  have htotal := le_trans hmem.total_refcount_le hrefs
  refine ⟨htotal, le_trans hmem.size_le_total htotal, ?_, ?_⟩
  · intro k e hk
    obtain ⟨_, -, -, -, hpos⟩ := hmem.entry k e hk
    have hle := hmem.refcount_le hk
    have hcap := capacity_le cfg.capacity_pow
    refine ⟨hpos, ?_⟩
    rw [UInt32.toNat_add]
    exact Nat.mod_eq_of_lt (by simp; omega)
  · intro hcfg b e head errBlock met pc hb
    have hno := Shmem.not_tableFull hcfg hring b
    rw [hb] at hno
    exact hno

theorem refcounts_le_capacity_sample :
    let s := (machine sampleConfig).run sample twoInOneOut
    s.shmem.mem.table.size = 1 ∧
    s.shmem.mem.table.total (fun e => e.refcount.toNat) ≤ 1024 ∧
    ∀ b e head errBlock met pc,
      s.shmem.phase b = .build e head (.acquire errBlock met pc) →
        .enter none true ∉ met := by
  have h := refcounts_le_capacity twoInOneOut_reachable
  exact ⟨by decide +kernel, h.1, h.2.2.2 fun n hn => of_decide_eq_true hn⟩

end Queue

end PgStatCh
