import Mathlib.Tactic.Abel
import PgStatCh.Lib.Ring
import PgStatCh.Tla.Rules
import PgStatCh.Queue.Holdings

/-!
# Queue.StringQueue — producers, a bounded queue and a consumer that share texts

The queue as far as the string area and the interner are concerned: any number
of producers fill slots, filled slots wait in a bounded list, one consumer reads
them back. Nothing keeps the producers apart, so their calls of
`PschQueryInternAcquire` interleave with each other and with the consumer at
every step. (The ring in `Shmem` lets one producer in at a time and refines
this; here the interner stands on its own.)

Results, for every reachable state:

* `inv_reachable` — `MemInv` for what producers, slots and consumer hold;
* `interner_accounting` — reference counts are exact, no object is shared
  between entries or used after it was freed, and nothing is left behind.
-/

namespace PgStatCh

open Lib Tla

/-! ## The system -/

/-- A producer: outside, or filling a slot. -/
inductive Producer where
  | idle
  | building (e : PschEvent) (slot : PschRingEntry) (pc : BuildPc)

/-- The consumer: outside, or reading the slot it took from the queue. -/
inductive Consumer where
  | idle
  | reading (pub : Published) (out : PschEvent) (pc : ConsumePc)

/-- How many slots the consumer has taken and not yet given back. -/
def Consumer.taken : Consumer → ℕ
  | .idle => 0
  | .reading .. => 1

structure StringQueue (cfg : Config) where
  mem : Mem := {}
  producers : cfg.Proc → Producer := fun _ => .idle
  ring : List Published := []
  consumer : Consumer := .idle
  /-- history: what came out, with what went in -/
  delivered : List (Published × PschEvent) := []

namespace StringQueue

variable {cfg : Config}

/-- The steps: a producer starts on a slot with whatever it held before, fills it
step by step, publishes it; the consumer takes the front slot into a buffer,
reads it step by step, gives the slot back. -/
inductive Label (cfg : Config) where
  | start (b : cfg.Proc) (e : PschEvent) (slot : PschRingEntry)
  | build (b : cfg.Proc) (a : Answer)
  | publish (b : cfg.Proc)
  | take (buf : PschEvent)
  | consume
  | deliver

/-- Producer `b` goes on. -/
def setProducer (s : StringQueue cfg) (b : cfg.Proc) (p : Producer) : StringQueue cfg :=
  { s with producers := Function.update s.producers b p }

def step : Label cfg → StringQueue cfg → Option (StringQueue cfg)
  | .start b e slot, s =>
    match s.producers b with
    | .idle => some (s.setProducer b (.building e slot .copyPrefix))
    | .building .. => none
  | .build b a, s =>
    match s.producers b with
    | .idle => none
    | .building e slot pc =>
      (buildStep cfg e a s.mem slot pc).map fun (m', slot', pc') =>
        { s.setProducer b (.building e slot' pc') with mem := m' }
  | .publish b, s =>
    match s.producers b with
    | .building e slot (.ready errBlock met) =>
      if s.ring.length + s.consumer.taken < cfg.capacity.toNat then
        some { s.setProducer b .idle with ring := s.ring ++ [⟨e, slot, errBlock, met⟩] }
      else none
    | _ => none
  | .take buf, s =>
    match s.consumer, s.ring with
    | .idle, pub :: ring => some { s with consumer := .reading pub buf .copyPrefix, ring := ring }
    | _, _ => none
  | .consume, s =>
    match s.consumer with
    | .idle => none
    | .reading pub out pc =>
      (consumeStep s.mem pub.slot out pc).map fun (m', out', pc') =>
        { s with mem := m', consumer := .reading pub out' pc' }
  | .deliver, s =>
    match s.consumer with
    | .reading pub out (.release .done) =>
      some { s with consumer := .idle, delivered := s.delivered ++ [(pub, out)] }
    | _ => none

/-- Everything starts empty. -/
def machine (cfg : Config) : Machine (StringQueue cfg) (Label cfg) where
  Init := fun s => s = {}
  step := step

end StringQueue

/-! ## Who holds what -/

def Producer.res (hash : List UInt8 → UInt64) : Producer → Multiset Res
  | .idle => 0
  | .building e slot pc => pc.res hash e slot

@[simp] theorem Producer.res_idle (hash : List UInt8 → UInt64) : Producer.idle.res hash = 0 := rfl

def Producer.Ok (hash : List UInt8 → UInt64) : Producer → Prop
  | .idle => True
  | .building e slot pc => pc.Ok hash e slot

def Consumer.res (hash : List UInt8 → UInt64) : Consumer → Multiset Res
  | .idle => 0
  | .reading pub _ pc => pc.res hash pub

def Consumer.Ok (hash : List UInt8 → UInt64) : Consumer → Prop
  | .idle => True
  | .reading pub out pc => Stored hash pub ∧ pc.Ok hash pub out

namespace StringQueue

variable {cfg : Config} {s s' : StringQueue cfg}

/-- What the waiting slots hold. -/
def ringRes (s : StringQueue cfg) : Multiset Res := (s.ring.map (Published.res cfg.hash)).sum

/-- Everything that anybody holds. -/
def holdings (s : StringQueue cfg) : Multiset Res :=
  ∑ b, (s.producers b).res cfg.hash + (s.ringRes + s.consumer.res cfg.hash)

/-- What everybody but producer `b` holds. -/
def others (s : StringQueue cfg) (b : cfg.Proc) : Multiset Res :=
  restSum s.producers (Producer.res cfg.hash) b + (s.ringRes + s.consumer.res cfg.hash)

theorem holdings_eq_others (s : StringQueue cfg) (b : cfg.Proc) :
    s.holdings = (s.producers b).res cfg.hash + s.others b := by
  rw [holdings, sum_eq_restSum _ _ b, add_comm (restSum _ _ _), add_assoc, others]

theorem holdings_setProducer (s : StringQueue cfg) (b : cfg.Proc) (p : Producer) :
    (s.setProducer b p).holdings = p.res cfg.hash + s.others b := by
  have h := holdings_eq_others (s.setProducer b p) b
  simpa [setProducer, others, ringRes] using h

theorem holdings_eq_consumer (s : StringQueue cfg) :
    s.holdings = s.consumer.res cfg.hash +
      (∑ b, (s.producers b).res cfg.hash + s.ringRes) := by
  rw [holdings, ← add_assoc, add_comm]

theorem holdings_publish (s : StringQueue cfg) (b : cfg.Proc) (pub : Published) :
    holdings { s.setProducer b .idle with ring := s.ring ++ [pub] } =
      pub.res cfg.hash + s.others b := by
  simp only [holdings, setProducer, sum_update_eq, ringRes, others, Producer.res_idle,
    List.map_append, List.map_cons, List.map_nil, List.sum_append, List.sum_cons, List.sum_nil]
  abel

/-- The references to the object at `p` that were handed out and not yet released. -/
def references (s : StringQueue cfg) (p : DsaPointer) : ℕ := s.holdings.countP (Res.RefTo p)

/-! ## The invariant -/

structure Inv (s : StringQueue cfg) : Prop where
  mem : MemInv cfg.hash s.mem s.holdings
  producers : ∀ b, (s.producers b).Ok cfg.hash
  ring : ∀ pub ∈ s.ring, Stored cfg.hash pub
  consumer : s.consumer.Ok cfg.hash
  bound : s.ring.length + s.consumer.taken ≤ cfg.capacity.toNat
  delivered : ∀ d ∈ s.delivered, RoundTrip cfg.hash d.1 d.2

/-! ### The number of references

Every producer, slot and the consumer holds at most one reference, so their
number bounds the references, and no count can wrap. -/

theorem refs_producer_le (p : Producer) : refs (p.res cfg.hash) ≤ 1 := by
  cases p with
  | idle => simp [Producer.res]
  | building e slot pc => exact pc.refs_res_le cfg.hash e slot

theorem refs_consumer_le (s : StringQueue cfg) :
    refs (s.consumer.res cfg.hash) ≤ s.consumer.taken := by
  cases s.consumer with
  | idle => simp [Consumer.res]
  | reading pub out pc => exact pc.refs_res_le pub

theorem refs_ringRes_le (s : StringQueue cfg) : refs s.ringRes ≤ s.ring.length := by
  rw [ringRes, refs_list_sum, List.map_map]
  have hle : ∀ n ∈ s.ring.map (refs ∘ Published.res cfg.hash), n ≤ 1 := by
    intro n hn
    obtain ⟨pub, -, rfl⟩ := List.mem_map.mp hn
    exact pub.refs_res_le
  simpa using List.sum_le_card_nsmul _ 1 hle

theorem refs_holdings_le (s : StringQueue cfg) :
    refs s.holdings ≤
      ∑ b, refs ((s.producers b).res cfg.hash) + (s.ring.length + s.consumer.taken) := by
  rw [holdings, refs_add, refs_add, refs_sum]
  have hring := s.refs_ringRes_le
  have hcons := s.refs_consumer_le
  omega

theorem refs_producers_le (s : StringQueue cfg) :
    ∑ b, refs ((s.producers b).res cfg.hash) ≤ cfg.maxBackends := by
  have hle : ∑ b, refs ((s.producers b).res cfg.hash) ≤ ∑ _b : cfg.Proc, 1 :=
    Finset.sum_le_sum fun b _ => refs_producer_le _
  simpa using hle

theorem Inv.room (hi : Inv s) : refs s.holdings + 1 < 2 ^ 32 := by
  have hrefs := s.refs_holdings_le
  have hprod := s.refs_producers_le
  have hbound := hi.bound
  have hcap := capacity_le cfg.capacity_pow
  have hproc := cfg.maxBackends_lt
  omega

/-! ### What the steps do to it -/

theorem inv_init : Inv ({} : StringQueue cfg) where
  mem := by simpa [holdings, Producer.res, Consumer.res, ringRes] using MemInv.init cfg.hash
  producers := fun _ => trivial
  ring := by simp
  consumer := trivial
  bound := by simp [Consumer.taken]
  delivered := by simp

/-- A step of producer `b` that leaves the queue and the consumer alone. -/
theorem Inv.setProducer (hi : Inv s) {b : cfg.Proc} {p : Producer} {m' : Mem}
    (hmem : MemInv cfg.hash m' (p.res cfg.hash + s.others b)) (hp : p.Ok cfg.hash) :
    Inv { s.setProducer b p with mem := m' } where
  mem := by
    have h := holdings_setProducer s b p
    rw [← h] at hmem
    exact hmem
  producers := by
    intro b'
    rcases eq_or_ne b' b with rfl | hne
    · simpa [StringQueue.setProducer] using hp
    · simpa [StringQueue.setProducer, hne] using hi.producers b'
  ring := hi.ring
  consumer := hi.consumer
  bound := hi.bound
  delivered := hi.delivered

/-- What producer `b` held, the slot holds now. -/
theorem Inv.publish (hi : Inv s) {b : cfg.Proc} {e : PschEvent} {slot : PschRingEntry}
    {errBlock : Option DsaPointer} {met : List Met}
    (hb : s.producers b = .building e slot (.ready errBlock met))
    (hroom : s.ring.length + s.consumer.taken < cfg.capacity.toNat) :
    Inv { s.setProducer b .idle with ring := s.ring ++ [⟨e, slot, errBlock, met⟩] } := by
  have hmem := hi.mem
  have hok := hi.producers b
  rw [holdings_eq_others s b, hb] at hmem
  rw [hb] at hok
  refine ⟨?_, ?_, ?_, hi.consumer, ?_, hi.delivered⟩
  · rw [holdings_publish]
    exact hmem
  · intro b'
    rcases eq_or_ne b' b with rfl | hne
    · simp [StringQueue.setProducer, Producer.Ok]
    · simpa [StringQueue.setProducer, hne] using hi.producers b'
  · intro pub hpub
    rcases List.mem_append.mp hpub with hpub | hpub
    · exact hi.ring pub hpub
    · rw [List.mem_singleton.mp hpub]
      exact hok
  · simp only [List.length_append, List.length_singleton, StringQueue.setProducer]
    omega

/-- What the slot held, the consumer holds now. -/
theorem Inv.take (hi : Inv s) {pub : Published} {ring : List Published} (hidle : s.consumer = .idle)
    (hring : s.ring = pub :: ring) (buf : PschEvent) :
    Inv { s with consumer := .reading pub buf .copyPrefix, ring := ring } := by
  have hmem := hi.mem
  have hslots := hi.ring
  have hbound := hi.bound
  rw [holdings_eq_consumer, ringRes, hring, hidle, Consumer.res, zero_add, List.map_cons,
    List.sum_cons, add_left_comm] at hmem
  rw [hring, List.forall_mem_cons] at hslots
  rw [hring, hidle] at hbound
  refine ⟨?_, hi.producers, hslots.2, ⟨hslots.1, trivial⟩, hbound, hi.delivered⟩
  rw [holdings_eq_consumer]
  exact hmem

/-- A step of the consumer inside a slot. -/
theorem Inv.consume (hi : Inv s) {pub : Published} {out out' : PschEvent} {pc pc' : ConsumePc}
    {m' : Mem} (hc : s.consumer = .reading pub out pc)
    (hstep : consumeStep s.mem pub.slot out pc = some (m', out', pc')) :
    Inv { s with mem := m', consumer := .reading pub out' pc' } := by
  have hmem := hi.mem
  have hok := hi.consumer
  have hbound := hi.bound
  rw [holdings_eq_consumer, hc] at hmem
  rw [hc] at hok hbound
  obtain ⟨hmem', hok'⟩ := consumeStep_inv hstep hok.1 hok.2 hmem
  refine ⟨?_, hi.producers, hi.ring, ⟨hok.1, hok'⟩, hbound, hi.delivered⟩
  rw [holdings_eq_consumer]
  exact hmem'

/-- The consumer gives the slot back, and holds nothing any more. -/
theorem Inv.deliver (hi : Inv s) {pub : Published} {out : PschEvent}
    (hc : s.consumer = .reading pub out (.release .done)) :
    Inv { s with consumer := .idle, delivered := s.delivered ++ [(pub, out)] } := by
  have hmem := hi.mem
  have hok := hi.consumer
  have hbound := hi.bound
  rw [holdings_eq_consumer, hc] at hmem
  rw [hc] at hok hbound
  refine ⟨?_, hi.producers, hi.ring, trivial, (Nat.le_add_right _ _).trans hbound, ?_⟩
  · rw [holdings_eq_consumer]
    exact hmem
  · intro d hd
    rcases List.mem_append.mp hd with hd | hd
    · exact hi.delivered d hd
    · rw [List.mem_singleton.mp hd]
      exact hok.2.1

/-! ### Every step preserves it -/

/-- What a step can do. -/
inductive Step (s : StringQueue cfg) : Label cfg → StringQueue cfg → Prop where
  | start (b : cfg.Proc) (e : PschEvent) (slot : PschRingEntry) : s.producers b = .idle →
    Step s (.start b e slot) (s.setProducer b (.building e slot .copyPrefix))
  | build (b : cfg.Proc) (a : Answer) (e : PschEvent) (slot slot' : PschRingEntry)
      (pc pc' : BuildPc) (m' : Mem) : s.producers b = .building e slot pc →
    buildStep cfg e a s.mem slot pc = some (m', slot', pc') →
    Step s (.build b a) { s.setProducer b (.building e slot' pc') with mem := m' }
  | publish (b : cfg.Proc) (e : PschEvent) (slot : PschRingEntry)
      (errBlock : Option DsaPointer) (met : List Met) :
    s.producers b = .building e slot (.ready errBlock met) →
    s.ring.length + s.consumer.taken < cfg.capacity.toNat →
    Step s (.publish b)
      { s.setProducer b .idle with ring := s.ring ++ [⟨e, slot, errBlock, met⟩] }
  | take (buf : PschEvent) (pub : Published) (ring : List Published) : s.consumer = .idle →
    s.ring = pub :: ring →
    Step s (.take buf) { s with consumer := .reading pub buf .copyPrefix, ring := ring }
  | consume (pub : Published) (out out' : PschEvent) (pc pc' : ConsumePc) (m' : Mem) :
    s.consumer = .reading pub out pc → consumeStep s.mem pub.slot out pc = some (m', out', pc') →
    Step s .consume { s with mem := m', consumer := .reading pub out' pc' }
  | deliver (pub : Published) (out : PschEvent) : s.consumer = .reading pub out (.release .done) →
    Step s .deliver { s with consumer := .idle, delivered := s.delivered ++ [(pub, out)] }

theorem step_cases {l : Label cfg} (h : step l s = some s') : Step s l s' := by
  cases l with
  | start b e slot =>
    simp only [step] at h
    split at h
    · next hidle =>
      cases h
      exact .start b e slot hidle
    · cases h
  | build b a =>
    simp only [step] at h
    split at h
    · cases h
    · next e slot pc hb =>
      simp only [Option.map_eq_some_iff, Prod.exists] at h
      obtain ⟨m', slot', pc', hbuild, rfl⟩ := h
      exact .build b a e slot slot' pc pc' m' hb hbuild
  | publish b =>
    simp only [step] at h
    split at h
    · next e slot errBlock met hb =>
      split at h
      · next hroom =>
        cases h
        exact .publish b e slot errBlock met hb hroom
      · cases h
    · cases h
  | take buf =>
    simp only [step] at h
    split at h
    · next pub ring hidle hring =>
      cases h
      exact .take buf pub ring hidle hring
    · cases h
  | consume =>
    simp only [step] at h
    split at h
    · cases h
    · next pub out pc hc =>
      simp only [Option.map_eq_some_iff, Prod.exists] at h
      obtain ⟨m', out', pc', hconsume, rfl⟩ := h
      exact .consume pub out out' pc pc' m' hc hconsume
  | deliver =>
    simp only [step] at h
    split at h
    · next pub out hc =>
      cases h
      exact .deliver pub out hc
    · cases h

theorem inv_step (hi : Inv s) {l : Label cfg} (hstep : Step s l s') : Inv s' := by
  cases hstep with
  | start b e slot hidle =>
    have hmem := hi.mem
    rw [holdings_eq_others s b, hidle] at hmem
    have hok : (Producer.building e slot .copyPrefix).Ok cfg.hash := trivial
    exact hi.setProducer hmem hok
  | build b a e slot slot' pc pc' m' hb hbuild =>
    have hmem := hi.mem
    have hroom := hi.room
    have hok := hi.producers b
    rw [holdings_eq_others s b, hb] at hmem hroom
    rw [hb] at hok
    obtain ⟨hmem', hok'⟩ := buildStep_inv hbuild hok hmem hroom
    exact hi.setProducer hmem' hok'
  | publish b e slot errBlock met hb hroom => exact hi.publish hb hroom
  | take buf pub ring hidle hring => exact hi.take hidle hring buf
  | consume pub out out' pc pc' m' hc hconsume => exact hi.consume hc hconsume
  | deliver pub out hc => exact hi.deliver hc

theorem inv_reachable (hs : (machine cfg).toSpec.Reachable s) : Inv s := by
  refine Spec.Reachable.invariant ?_ ?_ hs
  · rintro s rfl
    exact inv_init
  · rintro s s' hi ⟨l, hstep⟩
    exact inv_step hi (step_cases hstep)

/-! ## The accounting -/

/-- A step frees nothing, or a block that nobody refers to any more. -/
theorem step_frees (hi : Inv s) {l : Label cfg} (hstep : step l s = some s') :
    s'.mem.dsa.freed = s.mem.dsa.freed ∨
      ∃ p c, s.mem.dsa.live p = some c ∧ s'.mem.dsa.freed = c.serial :: s.mem.dsa.freed ∧
        s.references p = 0 ∧ ∀ k entry, s.mem.table.get k = some entry → entry.object ≠ p := by
  have hown : FreesOwn s.mem s'.mem s.holdings := by
    cases step_cases hstep with
    | build b a e slot slot' pc pc' m' hb hbuild =>
      rw [holdings_eq_others s b, hb]
      exact (buildStep_freesOwn hbuild).mono_left
    | consume pub out out' pc pc' m' hc hconsume =>
      have hok := hi.consumer
      rw [hc] at hok
      rw [holdings_eq_consumer, hc]
      exact (consumeStep_freesOwn hconsume hok.2).mono_left
    | start | publish | take | deliver => exact Or.inl rfl
  rcases hown with hsame | ⟨r, hr, hs, c, hlive, hfreed⟩
  · exact Or.inl hsame
  · exact Or.inr ⟨r.ptr, c, hlive, hfreed, hi.mem.no_refs_of_sole hr hs,
      fun k entry hk => hi.mem.sole_apart r hr hs k entry hk⟩

/-- The accounting of the interner and the string area is exact in every reachable
state: counts, ownership, frees, and what is left when nothing is going on. -/
theorem interner_accounting (hs : (machine cfg).toSpec.Reachable s) :
    (∀ k entry, s.mem.table.get k = some entry →
      0 < entry.refcount ∧ entry.refcount.toNat = s.references entry.object) ∧
    (∀ k entry, s.mem.table.get k = some entry →
      ∃ text, s.mem.dsa.body? entry.object = some (.obj (internObject k text))) ∧
    (∀ k k' entry entry', s.mem.table.get k = some entry → s.mem.table.get k' = some entry' →
      entry.object = entry'.object → k = k') ∧
    (∀ p, 0 < s.references p → ∃ o, s.mem.dsa.body? p = some (.obj o)) ∧
    (∀ l s', step l s = some s' → s'.mem.dsa.freed = s.mem.dsa.freed ∨
      ∃ p c, s.mem.dsa.live p = some c ∧ s'.mem.dsa.freed = c.serial :: s.mem.dsa.freed ∧
        s.references p = 0 ∧ ∀ k entry, s.mem.table.get k = some entry → entry.object ≠ p) ∧
    (∀ i, s.mem.dsa.freed.count i ≤ 1) ∧
    s.mem.fault = false ∧
    (s.ring = [] → s.consumer = .idle → (∀ b, s.producers b = .idle) →
      s.mem.table.keys = ∅ ∧ ∀ i < s.mem.dsa.next, s.mem.dsa.freed.count i = 1) := by
  have hi := inv_reachable hs
  refine ⟨?_, ?_, ?_, ?_, ?_, ?_, hi.mem.no_fault, ?_⟩
  · intro k entry hk
    have hcount := hi.mem.refcount_eq hk
    obtain ⟨t, -, -, -, hpos⟩ := hi.mem.entry k entry hk
    exact ⟨UInt32.lt_iff_toNat_lt.mpr hpos, hcount⟩
  · intro k entry hk
    obtain ⟨t, -, hb, -⟩ := hi.mem.entry k entry hk
    exact ⟨t, hb⟩
  · intro k k' entry entry' hk hk' hobj
    exact hi.mem.entry_inj hk hk' hobj
  · intro p hp
    obtain ⟨r, hr, href⟩ := Multiset.countP_pos.mp hp
    -- of what is held only the references count
    cases r with
    | str => exact href.elim
    | obj => exact href.elim
    | ref q k t =>
      obtain rfl : q = p := href
      exact ⟨internObject k t, hi.mem.held _ hr⟩
  · intro l s' hstep
    exact step_frees hi hstep
  · exact s.mem.dsa.freed_count_le_one
  · intro hring hcons hprod
    -- with nothing held the balance leaves no entry and no live block
    have hnone : s.holdings = 0 := by
      simp [holdings, ringRes, hring, hcons, hprod, Consumer.res]
    have hmem := hi.mem
    rw [hnone] at hmem
    obtain ⟨htable, hdsa⟩ := hmem.nothing_left
    exact ⟨FinTable.keys_eq_empty htable, fun i hlt => s.mem.dsa.freed_count_eq_one hdsa hlt⟩

/-- Two producers miss the same text at once and both allocate; the second loses
the insert race, shares the first one's object and frees its own. -/
def insertRace : List (Label sampleConfig) :=
  let missed (b : sampleConfig.Proc) : List (Label sampleConfig) :=
    [.start b { queryLen := 1 } {}, .build b {}, .build b {}, .build b {}, .build b {}]
  missed proc₀ ++ missed proc₁ ++
    [.build proc₀ { block := some 8 }, .build proc₁ { block := some 16 }, .build proc₀ {},
      .build proc₁ {}, .build proc₁ {}]

theorem interner_accounting_insertRace :
    let s := (machine sampleConfig).run {} insertRace
    s.references 8 = 2 ∧ s.mem.dsa.freed = [1] ∧ s.mem.fault = false := by
  have h := interner_accounting
    ((machine sampleConfig).run_reachable {} (.init rfl) insertRace)
  have hcount := (h.1 (makeKey sampleConfig.hash 0 0 [0]) ⟨8, 2⟩ rfl).2
  exact ⟨hcount.symm, rfl, h.2.2.2.2.2.2.1⟩

end StringQueue

end PgStatCh
