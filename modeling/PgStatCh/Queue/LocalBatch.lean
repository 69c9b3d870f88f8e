import PgStatCh.Queue.Attach
import PgStatCh.Queue.Conservation

/-!
# Queue.LocalBatch — one backend with its exit callbacks

What one backend's steps mean for the variables beside it. The batch callback is pending from
the first buffered event until it runs (`BatchOk`), through every way a flush can begin and end.
And only a step that has called `PschDsaGetArea` goes on with the area in hand, inside
`TryEnqueueLocked` (`Backend.Step.phase`) or `PschDequeueEvent` (`Shmem.dequeueStep_area`).
-/

namespace PgStatCh

open Lib Tla

/-! ## What the steps of the queue do to a process -/

def Caller.cont : Caller → Option Cont
  | .event _ _ => none
  | .batch _ _ k _ => some k

/-- The flush that is going on. -/
def Pc.cont : Pc → Option Cont
  | .fastHead c => c.cont
  | .fastTail c _ => c.cont
  | .fastOverflow c _ => c.cont
  | .acquire c => c.cont
  | .enqueue c _ _ _ => c.cont
  | .trying c _ _ => c.cont
  | .unlock c _ => c.cont
  | .returnBatch k _ _ _ _ => some k
  | _ => none

/-- `PschLocalBatchShutdown` has been called. -/
def Pc.shut : Pc → Bool
  | .exited => true
  | pc =>
    match pc.cont with
    | some .shutdown => true
    | _ => false

theorem Caller.cont_ret (c : Caller) (n : ℕ) : (c.ret n).cont = c.cont := by
  cases c <;> rfl

theorem Caller.cont_next (c : Caller) (n : ℕ) (rest : List PschEvent) :
    (c.next n rest).cont = c.cont := by
  cases rest <;> rfl

/-- While `PschLocalBatchShutdown` runs, and after it, nothing is buffered. -/
theorem Pc.flushed_of_shut {pc : Pc} (h : pc.shut = true) : pc.Flushed := by
  cases pc with
  | exited => trivial
  | returnBatch k count ret enabled before => trivial
  | fastHead c | fastTail c _ | fastOverflow c _ | acquire c | enqueue c _ _ _ | trying c _ _
  | unlock c _ =>
    cases c with
    | event e before => cases h
    | batch e rest k before => trivial
  | idle | add e | returnEvent e ret before => cases h

/-- The process has exited. -/
def Pc.gone : Pc → Bool
  | .exited => true
  | _ => false

/-- `PschLocalBatchAdd` is next. -/
def Pc.adds : Pc → Bool
  | .add _ => true
  | _ => false

theorem Pc.shut_eq {pc : Pc} (h : pc.gone = false) : pc.shut =
    match pc.cont with
    | some .shutdown => true
    | _ => false := by
  cases pc with
  | exited => cases h
  | _ => rfl

theorem Pc.gone_ret (c : Caller) (n : ℕ) : (c.ret n).gone = false := by
  cases c <;> rfl

theorem Pc.gone_next (c : Caller) (n : ℕ) (rest : List PschEvent) :
    (c.next n rest).gone = false := by
  cases rest <;> rfl

namespace Backend

variable {cfg : Config} {b : cfg.Proc} {a : Answer} {sh sh' : Shmem cfg} {be be' : Backend}

/-- A step that leaves the local batch and the flush that is going on as they are. -/
structure Keeps (be be' : Backend) : Prop where
  batch : be'.localBatch = be.localBatch
  cont : be'.pc.cont = be.pc.cont
  gone : be.pc.gone = false
  gone' : be'.pc.gone = false
  adds : be.pc.adds = false

theorem Keeps.of {pc : Pc} (hcont : pc.cont = be.pc.cont) (hgone : be.pc.gone = false)
    (hgone' : pc.gone = false) (hadds : be.pc.adds = false) : Keeps be { be with pc := pc } :=
  ⟨rfl, hcont, hgone, hgone', hadds⟩

/-- What a step does to the local batch and to the flush that is going on. -/
theorem Step.cont_cases (h : Step b a sh be sh' be') :
    (∃ e, be.pc = .add e ∧
      (be' = be.flush (sh.tally b) (.add e) ∨ be' = be.resume (.add e))) ∨
    (∃ k count ret enabled before, be.pc = .returnBatch k count ret enabled before ∧
      be' = be.resume k) ∨
    Keeps be be' := by
  cases h with
  | addFull e hb => exact Or.inl ⟨e, hb, Or.inl rfl⟩
  | addRoom e hb _ => exact Or.inl ⟨e, hb, Or.inr rfl⟩
  | returnBatch k count ret enabled before hb =>
    exact Or.inr (Or.inl ⟨k, count, ret, enabled, before, hb, rfl⟩)
  | inside c rest n _ hb _ =>
    refine Or.inr (Or.inr ⟨rfl, rfl, ?_, ?_, ?_⟩) <;> rw [hb] <;> rfl
  | fastDone c hb | unlock c n _ hb _ =>
    refine Or.inr (Or.inr (.of ?_ ?_ (Pc.gone_ret _ _) ?_)) <;> rw [hb]
    · exact c.cont_ret _
    · rfl
    · rfl
  | enqueued c rest n _ hb _ | dropped c rest n _ hb _ =>
    refine Or.inr (Or.inr (.of ?_ ?_ (Pc.gone_next _ _ _) ?_)) <;> rw [hb]
    · exact c.cont_next _ _
    · rfl
    · rfl
  | fastHead c hb | fastFull c head hb _ | fastRoom c head hb _ | fastDrop c left hb
  | acquired c _ hb _ | enqueue c e rest n _ hb _ | contended e before hb
  | returnEvent e ret before hb =>
    refine Or.inr (Or.inr (.of ?_ ?_ rfl ?_)) <;> rw [hb] <;> rfl

theorem Step.gone (h : Step b a sh be sh' be') : be.pc.gone = false := by
  rcases h.cont_cases with ⟨e, hb, -⟩ | ⟨k, count, ret, enabled, before, hb, -⟩ | hkeeps
  · rw [hb]
    rfl
  · rw [hb]
    rfl
  · exact hkeeps.gone

/-- `PschLocalBatchFlush` takes the whole batch with it, or there is none. -/
theorem flush_cases (be : Backend) (t : Tally) (k : Cont) :
    (be.localBatch = [] ∧ be.flush t k = be.resume k) ∨
      ((be.flush t k).localBatch = [] ∧ (be.flush t k).pc.cont = some k ∧
        (be.flush t k).pc.gone = false) := by
  unfold flush
  split
  · next hempty => exact Or.inl ⟨hempty, rfl⟩
  · split
    · exact Or.inr ⟨rfl, rfl, rfl⟩
    · exact Or.inr ⟨rfl, rfl, rfl⟩

end Backend

/-- What the variables of local_batch.c say about a backend. -/
structure BatchOk (p : Process) (be : Backend) : Prop where
  initialized : be.localBatch ≠ [] ∨ (∃ e, be.pc.cont = some (.add e)) →
    p.localBatchInitialized = true
  pending : p.onShmemExit.count .pschLocalBatchShutdown =
    if p.localBatchInitialized && !be.pc.shut then 1 else 0
  ended : p.ended = true → be.pc = .exited

namespace BatchOk

variable {p p' : Process} {be be' : Backend}

/-- The detach callback has no part in it. -/
theorem attach (h : BatchOk p be) : BatchOk p.attach be := by
  refine ⟨h.initialized, ?_, h.ended⟩
  have hpending := h.pending
  unfold Process.attach
  split <;> simpa using hpending

theorem detach (h : BatchOk p be) {rest : List ExitCallback}
    (hlist : p.onShmemExit = .pschDsaDetachOnExit :: rest) :
    BatchOk { p with onShmemExit := rest }.pschDsaDetachOnExit be := by
  refine ⟨h.initialized, ?_, h.ended⟩
  have hpending := h.pending
  rw [hlist, List.count_cons_of_ne (by decide)] at hpending
  exact hpending

/-- A step that leaves the batch alone. -/
theorem keeps (h : BatchOk p be) (hkeeps : be.Keeps be') : BatchOk p be' := by
  refine ⟨?_, ?_, fun hended => ?_⟩
  · rw [hkeeps.batch, hkeeps.cont]
    exact h.initialized
  · rw [Pc.shut_eq hkeeps.gone', hkeeps.cont, ← Pc.shut_eq hkeeps.gone]
    exact h.pending
  · have hgone := hkeeps.gone
    rw [h.ended hended] at hgone
    cases hgone

/-- `PschLocalBatchAdd` initializes first. -/
theorem init (h : BatchOk p be) (hshut : be.pc.shut = false) :
    BatchOk p.pschLocalBatchInit be ∧ p.pschLocalBatchInit.localBatchInitialized = true := by
  unfold Process.pschLocalBatchInit
  split
  · next hinit => exact ⟨h, hinit⟩
  · next hinit =>
    have hpending := h.pending
    rw [Bool.eq_false_iff.mpr hinit] at hpending
    refine ⟨⟨fun _ => rfl, ?_, h.ended⟩, rfl⟩
    simpa [hshut] using hpending

theorem resume_add (h : BatchOk p be) (hinit : p.localBatchInitialized = true)
    (hshut : be.pc.shut = false) (hgone : be.pc.gone = false) (e : PschEvent) :
    BatchOk p (be.resume (.add e)) := by
  refine ⟨fun _ => hinit, ?_, fun hended => ?_⟩
  · have hpending := h.pending
    rw [hinit, hshut] at hpending
    rw [hinit]
    exact hpending
  · rw [h.ended hended] at hgone
    cases hgone

theorem flush_add (h : BatchOk p be) (hinit : p.localBatchInitialized = true)
    (hshut : be.pc.shut = false) (hgone : be.pc.gone = false) (t : Tally) (e : PschEvent) :
    BatchOk p (be.flush t (.add e)) := by
  rcases be.flush_cases t (.add e) with ⟨-, heq⟩ | ⟨hbatch, hcont, hgone'⟩
  · rw [heq]
    exact h.resume_add hinit hshut hgone e
  · refine ⟨fun _ => hinit, ?_, fun hended => ?_⟩
    · have hpending := h.pending
      rw [hinit, hshut] at hpending
      rw [hinit, Pc.shut_eq hgone', hcont]
      exact hpending
    · rw [h.ended hended] at hgone
      cases hgone

/-- A transaction ends. -/
theorem flush_xact (h : BatchOk p be) (hidle : be.pc = .idle) (t : Tally) :
    BatchOk p (be.flush t .xact) := by
  have hended : p.ended ≠ true := by
    intro hended
    rw [h.ended hended] at hidle
    cases hidle
  have hpending := h.pending
  rw [hidle] at hpending
  rcases be.flush_cases t .xact with ⟨hempty, heq⟩ | ⟨hbatch, hcont, hgone'⟩
  · rw [heq]
    refine ⟨?_, hpending, fun h => absurd h hended⟩
    rintro (hne | ⟨e, he⟩)
    · exact absurd hempty hne
    · cases he
  · refine ⟨?_, ?_, fun h => absurd h hended⟩
    · rintro (hne | ⟨e, he⟩)
      · exact absurd hbatch hne
      · rw [hcont] at he
        cases he
    · rw [Pc.shut_eq hgone', hcont]
      exact hpending

/-- `PschLocalBatchShutdown` runs. -/
theorem flush_shutdown (h : BatchOk p be) (hidle : be.pc = .idle) {rest : List ExitCallback}
    (hlist : p.onShmemExit = .pschLocalBatchShutdown :: rest) (t : Tally) :
    BatchOk { p with onShmemExit := rest } (be.flush t .shutdown) := by
  have hended : p.ended ≠ true := by
    intro hended
    rw [h.ended hended] at hidle
    cases hidle
  -- it was pending once, and is not any more
  have hrest : rest.count .pschLocalBatchShutdown = 0 := by
    have hpending := h.pending
    rw [hlist, List.count_cons_self] at hpending
    split at hpending <;> omega
  rcases be.flush_cases t .shutdown with ⟨hempty, heq⟩ | ⟨hbatch, hcont, hgone'⟩
  · rw [heq]
    refine ⟨?_, ?_, fun h => absurd h hended⟩
    · rintro (hne | ⟨e, he⟩)
      · exact absurd hempty hne
      · cases he
    · simpa [Backend.resume, Pc.shut] using hrest
  · refine ⟨?_, ?_, fun h => absurd h hended⟩
    · rintro (hne | ⟨e, he⟩)
      · exact absurd hbatch hne
      · rw [hcont] at he
        cases he
    · rw [Pc.shut_eq hgone', hcont]
      simpa using hrest

/-- `PschEnqueueBatch` returns to whoever asked for the flush. -/
theorem returnBatch (h : BatchOk p be) {k : Cont} {count ret : ℕ} {enabled : Bool}
    {before : Tally} (hb : be.pc = .returnBatch k count ret enabled before) :
    BatchOk p (be.resume k) := by
  have hgone : be.pc.gone = false := by rw [hb]; rfl
  cases k with
  | add e =>
    refine h.resume_add (h.initialized (Or.inr ⟨e, ?_⟩)) ?_ hgone e
    · rw [hb]
      rfl
    · rw [hb]
      rfl
  | xact =>
    have hpending := h.pending
    rw [hb] at hpending
    refine ⟨?_, hpending, fun hended => ?_⟩
    · rintro (hne | ⟨e, he⟩)
      · exact h.initialized (Or.inl hne)
      · cases he
    · rw [h.ended hended] at hgone
      cases hgone
  | shutdown =>
    have hpending := h.pending
    rw [hb] at hpending
    refine ⟨?_, hpending, fun _ => rfl⟩
    rintro (hne | ⟨e, he⟩)
    · exact h.initialized (Or.inl hne)
    · cases he

/-- A call of `PschEnqueueEvent`. -/
theorem call (h : BatchOk p be) (hidle : be.pc = .idle) (t : Tally) (e : PschEvent) :
    BatchOk p (be.call t e) := by
  unfold Backend.call
  split
  · refine h.keeps ⟨rfl, ?_, ?_, rfl, ?_⟩ <;> rw [hidle] <;> rfl
  · exact h

/-- Once the batch callback has run, and whenever it is still to run, no buffered event is left
behind. -/
theorem mem_of_buffered {t : Tally} (h : BatchOk p be) (hok : be.Ok t) (hne : be.localBatch ≠ []) :
    .pschLocalBatchShutdown ∈ p.onShmemExit := by
  have hinit := h.initialized (Or.inl hne)
  have hshut : be.pc.shut = false := by
    rw [Bool.eq_false_iff]
    intro hshut
    exact hne (hok.flushed (Pc.flushed_of_shut hshut))
  rw [← List.count_pos_iff, h.pending, hinit, hshut]
  exact Nat.one_pos

end BatchOk

/-! ## Who has the area in hand -/

/-- Only a step that has called `PschDsaGetArea` goes on with the area in hand. -/
theorem buildStep_area {cfg : Config} {e : PschEvent} {a : Answer} {m m' : Mem}
    {slot slot' : PschRingEntry} {pc pc' : BuildPc} {head : UInt64}
    (h : buildStep cfg e a m slot pc = some (m', slot', pc'))
    (harea : (Phase.build e head pc').hasArea = true) :
    (Phase.build e head pc).getsArea = true ∨ (Phase.build e head pc).hasArea = true := by
  cases pc with
  | acquire errBlock met apc =>
    cases apc with
    | lookup => exact Or.inl rfl
    | _ => exact Or.inr rfl
  | copyPrefix =>
    cases h
    cases harea
  | allocErr =>
    simp only [buildStep, Option.map_eq_some_iff, Prod.exists] at h
    obtain ⟨m₁, dp, -, heq⟩ := h
    split at heq <;> cases heq <;> cases harea
  | query errBlock =>
    simp only [buildStep] at h
    split at h <;> cases h <;> cases harea
  | ready errBlock met => cases h

/-- Where a producer is in the ring, after a step of `TryEnqueueLocked`. -/
theorem Shmem.tryStep_phase {cfg : Config} {sh sh' : Shmem cfg} {b : cfg.Proc} {a : Answer}
    {force : Bool} {ret : Option Bool} (h : sh.tryStep b a force = some (sh', ret)) :
    (∃ ph, sh'.phase = Function.update sh.phase b ph ∧ (ret ≠ none → ph = .locked) ∧
      (ph.hasArea = true → (sh.phase b).getsArea = true ∨ (sh.phase b).hasArea = true)) ∧
    sh'.worker = sh.worker := by
  unfold Shmem.tryStep at h
  split at h
  · cases h
  · cases h
  · cases h
    exact ⟨⟨_, rfl, fun hno => absurd rfl hno, fun harea => by cases harea⟩, rfl⟩
  · split at h <;> cases h
    · exact ⟨⟨_, rfl, fun hno => absurd rfl hno, fun harea => by cases harea⟩, rfl⟩
    · exact ⟨⟨_, rfl, fun hno => absurd rfl hno, fun harea => by cases harea⟩, rfl⟩
  · cases h
    exact ⟨⟨_, rfl, fun _ => rfl, fun harea => by cases harea⟩, rfl⟩
  · cases h
    exact ⟨⟨_, rfl, fun hno => absurd rfl hno, fun harea => by cases harea⟩, rfl⟩
  · next e head pc _ hb =>
    simp only [Option.map_eq_some_iff, Prod.exists, Prod.mk.injEq] at h
    obtain ⟨m', slot', pc', hbuild, rfl, rfl⟩ := h
    refine ⟨⟨_, rfl, fun hno => absurd rfl hno, ?_⟩, rfl⟩
    rw [hb]
    exact buildStep_area hbuild
  · cases h
    exact ⟨⟨_, rfl, fun _ => rfl, fun harea => by cases harea⟩, rfl⟩

/-- Inside `TryEnqueueLocked`. -/
def Pc.inside : Pc → Bool
  | .trying _ _ _ => true
  | _ => false

/-- Only inside `TryEnqueueLocked` is a producer past the lock. -/
def Phase.At (ph : Phase) (pc : Pc) : Prop := ph = .out ∨ ph = .locked ∨ pc.inside = true

theorem Phase.At.move {ph : Phase} {pc : Pc} (h : ph.At pc) (hin : pc.inside = false) (pc' : Pc) :
    ph.At pc' := by
  rcases h with h | h | h
  · exact Or.inl h
  · exact Or.inr (Or.inl h)
  · rw [hin] at h
    cases h

/-- Whoever uses the area is inside `TryEnqueueLocked`. -/
theorem Phase.At.inside {ph : Phase} {pc : Pc} (h : ph.At pc)
    (harea : ph.getsArea = true ∨ ph.hasArea = true) : pc.inside = true := by
  rcases h with rfl | rfl | h
  · rcases harea with harea | harea <;> cases harea
  · rcases harea with harea | harea <;> cases harea
  · exact h

theorem Pc.not_adds_of_inside {pc : Pc} (h : pc.inside = true) : pc.adds = false := by
  cases pc with
  | trying c rest n => rfl
  | _ => cases h

theorem Pc.not_inside_of_quiet {pc : Pc} (h : pc.quiet = true) : pc.inside = false := by
  cases pc with
  | trying c rest n => cases h
  | _ => rfl

theorem Backend.Step.phase {cfg : Config} {b : cfg.Proc} {a : Answer} {sh sh' : Shmem cfg}
    {be be' : Backend} (h : Step b a sh be sh' be') (hat : (sh.phase b).At be.pc) :
    (∃ ph, sh'.phase = Function.update sh.phase b ph ∧ ph.At be'.pc ∧
      (ph.hasArea = true → (sh.phase b).getsArea = true ∨ (sh.phase b).hasArea = true)) ∧
    sh'.worker = sh.worker := by
  -- a step that does not touch the ring
  have hstay (hsame : sh'.phase = sh.phase) (hworker : sh'.worker = sh.worker)
      (hin : be.pc.inside = false) : (∃ ph, sh'.phase = Function.update sh.phase b ph ∧
        ph.At be'.pc ∧
        (ph.hasArea = true → (sh.phase b).getsArea = true ∨ (sh.phase b).hasArea = true)) ∧
      sh'.worker = sh.worker :=
    ⟨⟨sh.phase b, by rw [hsame, Function.update_eq_self], hat.move hin _, Or.inr⟩, hworker⟩
  cases h with
  | fastHead c hb | fastFull c head hb _ | fastRoom c head hb _ | fastDrop c left hb
  | contended e before hb | fastDone c hb | addFull e hb | addRoom e hb _
  | returnEvent e ret before hb | returnBatch k count ret enabled before hb =>
    refine hstay rfl rfl ?_
    rw [hb]
    rfl
  | acquired c _ hb hacquire =>
    unfold Shmem.acquire at hacquire
    split at hacquire <;> cases hacquire
    exact ⟨⟨_, rfl, Or.inr (Or.inl rfl), fun harea => by cases harea⟩, rfl⟩
  | unlock c n _ hb hrelease =>
    unfold Shmem.release at hrelease
    split at hrelease <;> cases hrelease
    exact ⟨⟨_, rfl, Or.inl rfl, fun harea => by cases harea⟩, rfl⟩
  | enqueue c e rest n _ hb hbegin =>
    unfold Shmem.beginEnqueue at hbegin
    split at hbegin <;> cases hbegin
    exact ⟨⟨_, rfl, Or.inr (Or.inr rfl), fun harea => by cases harea⟩, rfl⟩
  | inside c rest n _ hb htry =>
    obtain ⟨⟨ph, hphase, -, harea⟩, hworker⟩ := Shmem.tryStep_phase htry
    refine ⟨⟨ph, hphase, Or.inr (Or.inr ?_), harea⟩, hworker⟩
    rw [hb]
    rfl
  | enqueued c rest n _ hb htry | dropped c rest n _ hb htry =>
    obtain ⟨⟨ph, hphase, hlocked, harea⟩, hworker⟩ := Shmem.tryStep_phase htry
    exact ⟨⟨ph, hphase, Or.inr (Or.inl (hlocked nofun)), harea⟩, hworker⟩

/-- The same of the consumer. -/
theorem consumeStep_area {m m' : Mem} {slot : PschRingEntry} {event event' : PschEvent}
    {pc pc' : ConsumePc} {tail : UInt64} (h : consumeStep m slot event pc = some (m', event', pc'))
    (harea : (Worker.reading tail event' pc').hasArea = true) :
    (Worker.reading tail event pc).getsArea slot = true ∨
      (Worker.reading tail event pc).hasArea = true := by
  cases pc with
  | copyPrefix =>
    cases h
    cases harea
  | resolveErr =>
    left
    by_contra hinvalid
    simp only [Worker.getsArea, decide_eq_true_eq, not_not] at hinvalid
    simp only [consumeStep, resolveErr, if_pos hinvalid] at h
    cases h
    cases harea
  | freeErr => exact Or.inr rfl
  | resolveQuery =>
    simp only [consumeStep] at h
    cases h
    cases harea
  | release rpc =>
    cases rpc with
    | read =>
      left
      by_contra hinvalid
      simp only [Worker.getsArea, decide_eq_true_eq, not_not] at hinvalid
      simp only [consumeStep, releaseStep, if_pos hinvalid] at h
      cases h
      cases harea
    | drop key => exact Or.inr rfl
    | free freedDp => exact Or.inr rfl
    | done => cases h

theorem Shmem.dequeueStep_area {cfg : Config} {sh sh' : Shmem cfg}
    (h : sh.dequeueStep = some sh') :
    sh'.phase = sh.phase ∧ sh.worker ≠ .idle ∧ (sh'.worker.hasArea = true →
      sh.worker.getsArea sh.readSlot = true ∨ sh.worker.hasArea = true) := by
  unfold Shmem.dequeueStep at h
  split at h
  · cases h
  · next buf head hw =>
    split at h <;> cases h
    · exact ⟨rfl, by rw [hw]; exact nofun, fun harea => by cases harea⟩
    · exact ⟨rfl, by rw [hw]; exact nofun, fun harea => by cases harea⟩
  · next tail out hw =>
    cases h
    exact ⟨rfl, by rw [hw]; exact nofun, fun harea => by cases harea⟩
  · next tail out pc _ hw =>
    simp only [Option.map_eq_some_iff, Prod.exists] at h
    obtain ⟨m', out', pc', hconsume, rfl⟩ := h
    refine ⟨rfl, by rw [hw]; exact nofun, fun harea => ?_⟩
    have hslot : sh.readSlot = sh.slotAt tail := by rw [Shmem.readSlot, hw]
    rw [hw, hslot]
    exact consumeStep_area hconsume harea

end PgStatCh
