import PgStatCh.Hooks.SessionBuilt

/-!
# Hooks.SessionEvents — what the events of a backend say about its session

One lemma for each kind of step says what it leaves (`Stepped`), and the results follow for every
reachable state.

* `executor_reachable`: the executor hooks do among the others what they do alone.
* `events_wellFormed`: the texts of every event end inside of their buffers.
* `session_names`: an event that is built in a transaction has the names of its session. Outside of
  a transaction the catalogue cannot be asked; after `SET ROLE` the name is then that of the role
  before.
-/

namespace PgStatCh

open Lib Tla Prog

namespace BackendHooks

variable {s : BackendHooks} {isParallelWorker : Bool} {core : PgCore}

/-! ## The executor hooks among the others -/

section Executors

variable {e e' : Executor}

/-- The static variables of the executor hooks can come about by their steps alone. -/
abbrev ExecutorReaches (isParallelWorker : Bool) (e : Executor) : Prop :=
  (Executor.machine isParallelWorker).toSpec.Reachable e

/-- An ERROR is raised outside of the hooks. -/
theorem ExecutorReaches.raise (h : ExecutorReaches isParallelWorker e) (hr : e.raising = false) :
    ExecutorReaches isParallelWorker { e with raising := !e.stack.isEmpty } := by
  cases hstack : e.stack with
  | nil =>
    -- no hook is running: the ERROR is none of theirs
    have hsame : { e with raising := !([] : List HookFrame).isEmpty, stack := [] } = e := by
      obtain ⟨level, usage, top, ts, stack, raising, events, starts⟩ := e
      cases hstack
      cases hr
      rfl
    rw [hsame]
    exact h
  | cons f below =>
    refine h.step ⟨.raise, ?_⟩
    simp only [Executor.machine, Executor.step, hr, hstack]
    rfl

/-- An ERROR is raised, and leaves the running hook. -/
theorem ExecutorReaches.leave {f : HookFrame} {below : List HookFrame}
    (h : ExecutorReaches isParallelWorker e) (hr : e.raising = false)
    (hstack : e.stack = f :: below) :
    ExecutorReaches isParallelWorker
      { e.leave isParallelWorker f below with raising := !below.isEmpty } := by
  have hraised := h.raise hr
  refine hraised.step ⟨.unwind, ?_⟩
  simp only [Executor.machine, Executor.step, hstack]
  rfl

/-- What `PschExecutorEnd` does here is a step there, -/
theorem ExecutorReaches.executorEnd {started : ℕ} {desc : QueryDesc}
    (h : ExecutorReaches isParallelWorker e) (hr : e.raising = false)
    (hstarted : started < e.starts.length) (hended : EndedAs isParallelWorker desc e e') :
    ExecutorReaches isParallelWorker { e' with stack := .executorEnd :: e'.stack } := by
  obtain ⟨a, ha⟩ := hended
  refine h.step ⟨.executorEnd started desc a, ?_⟩
  simp only [Executor.machine, Executor.step, hr, ha]
  exact if_pos hstarted

/-- and so is a return to a hook. -/
theorem ExecutorReaches.returnTo {f : HookFrame} {below : List HookFrame}
    (h : ExecutorReaches isParallelWorker e) (hr : e.raising = false)
    (hstack : e.stack = f :: below) (hreturned : ReturnedAs isParallelWorker f below e e') :
    ExecutorReaches isParallelWorker e' := by
  obtain ⟨a, rfl⟩ := hreturned
  refine h.step ⟨.returned a, ?_⟩
  simp only [Executor.machine, Executor.step, hr, hstack]
  rfl

/-- An `ERROR` is raised by what the hooks call, not by themselves. -/
theorem raising_pschExecutorEnd (desc : QueryDesc) (a : Measured) :
    (e.pschExecutorEnd isParallelWorker desc a).raising = e.raising := by
  unfold Executor.pschExecutorEnd
  split
  · rfl
  · split <;> rfl

/-- None is on its way after the event of a query. -/
theorem EndedAs.raising {desc : QueryDesc} (h : EndedAs isParallelWorker desc e e') :
    e'.raising = e.raising := by
  obtain ⟨a, ha⟩ := h
  have hraising := congrArg Executor.raising ha
  rw [raising_pschExecutorEnd] at hraising
  exact hraising

/-- A return to a hook raises none. -/
theorem raising_returnTo (a : Measured) (f : HookFrame) (below : List HookFrame) :
    (e.returnTo isParallelWorker a f below).raising = e.raising := by
  unfold Executor.returnTo
  split
  · split <;> rfl
  · rfl

/-- None is on its way after the return to a hook. -/
theorem ReturnedAs.raising {f : HookFrame} {below : List HookFrame}
    (h : ReturnedAs isParallelWorker f below e e') : e'.raising = e.raising := by
  obtain ⟨a, rfl⟩ := h
  exact raising_returnTo a f below

end Executors

/-! ## Whole runs -/

section Runs

variable {l : Label} {s' : BackendHooks}

/-- When a label is enabled, and what it runs. -/
inductive Enabled (isParallelWorker : Bool) (core : PgCore) (s : BackendHooks) :
    Label → M Unit → Prop where
  | parse (p : Parse) : s.executor.raising = false →
    Enabled isParallelWorker core s (.parse p) (postParseAnalyze isParallelWorker core p)
  | executor (l : Executor.Label) (e : Executor) :
    Executor.step isParallelWorker l s.executor = some e →
    Enabled isParallelWorker core s (.executor l) (modify fun s => { s with executor := e })
  | executorEnd (started : ℕ) (desc : QueryDesc) (a : Measured) (x : Ending) :
    s.executor.raising = false → started < s.executor.starts.length →
    Enabled isParallelWorker core s (.executorEnd started desc a x)
      (pschExecutorEnd isParallelWorker desc a x)
  | returned (a : Measured) (x : Ending) (f : HookFrame) (below : List HookFrame) :
    s.executor.raising = false → s.executor.stack = f :: below →
    Enabled isParallelWorker core s (.returned a x) (returnTo isParallelWorker a x f below)
  | callOut (c : CallOut) : s.executor.raising = false →
    Enabled isParallelWorker core s (.callOut c) (run c)

/-- A label that has a program is enabled. -/
theorem enabled_of_program {x : M Unit} (hx : program isParallelWorker core l s = some x) :
    Enabled isParallelWorker core s l x := by
  cases l with
  | parse p =>
    simp only [program] at hx
    split at hx
    · cases hx
    · next hr =>
      cases hx
      exact .parse p (Bool.eq_false_of_not_eq_true hr)
  | executor l =>
    simp only [program] at hx
    split at hx
    · obtain ⟨e, he, rfl⟩ := Option.map_eq_some_iff.mp hx
      exact .executor l e he
    · cases hx
  | executorEnd started desc a y =>
    simp only [program] at hx
    split at hx
    · next henabled =>
      cases hx
      exact .executorEnd started desc a y henabled.1 henabled.2
    · cases hx
  | returned a y =>
    simp only [program] at hx
    split at hx
    · next f below hr hstack =>
      cases hx
      exact .returned a y f below hr hstack
    · cases hx
  | callOut c =>
    simp only [program] at hx
    split at hx
    · cases hx
    · next hr =>
      cases hx
      exact .callOut c (Bool.eq_false_of_not_eq_true hr)

/-- What a step does is what its program does. -/
theorem conclude_cases {x : M Unit} {Q : Unit → BackendHooks → Prop}
    {E : Raised → BackendHooks → Prop} (h : wp x Q E s) (hconclude : conclude x s = some s') :
    Q () s' ∨
      ∃ s₁, E .error s₁ ∧ s' = { s₁ with executor.raising := !s₁.executor.stack.isEmpty } := by
  unfold conclude at hconclude
  split at hconclude
  · next s₁ hok =>
    cases hconclude
    exact Or.inl (wp_of_ok hok h)
  · next s₁ herror =>
    cases hconclude
    exact Or.inr ⟨s₁, wp_of_error herror h, rfl⟩
  · cases hconclude

/-- The static variables of the executor hooks are no part of the invariant. -/
theorem Inv.withExecutor (h : Inv s) (e : Executor) : Inv { s with executor := e } :=
  ⟨h.datname, h.username, h.clientAddr, h.database, h.address, h.user, h.built⟩

/-- What the parse hook leaves: the cache as its call leaves it, and the call in the history if it
went through. -/
def Parsed (isParallelWorker : Bool) (core : PgCore) (p : Parse) (s s' : BackendHooks) : Prop :=
  s'.built = s.built ∧
  ((∃ c, pschPostParseAnalyze core (p.settings isParallelWorker) p.alloc p.query p.jstate
        s.backendState.normalizeCache = .ok () c ∧ s'.backendState.normalizeCache = c ∧
      s'.calls = s.calls ++ (p.remembers isParallelWorker core).toList) ∨
    ∃ e c, pschPostParseAnalyze core (p.settings isParallelWorker) p.alloc p.query p.jstate
        s.backendState.normalizeCache = .error e c ∧ e ≠ .undefined ∧
      s'.backendState.normalizeCache = c ∧ s'.calls = s.calls)

/-- What is known of every step. -/
structure Stepped (isParallelWorker : Bool) (core : PgCore) (l : Label) (s s' : BackendHooks) :
    Prop where
  inv : Inv s'
  executor : ExecutorReaches isParallelWorker s.executor →
    ExecutorReaches isParallelWorker s'.executor
  texts : Quiet s s' ∨ LookedUp s s' ∨ ∃ p, l = .parse p ∧ Parsed isParallelWorker core p s s'

/-- The parse hook does to the cache what it does alone, and builds nothing. -/
theorem wp_postParseAnalyze (p : Parse) (h : Inv s) :
    wp (postParseAnalyze isParallelWorker core p)
      (fun _ s' => Inv s' ∧ s'.executor = s.executor ∧ Parsed isParallelWorker core p s s')
      (fun e s' => e = .error → Inv s' ∧ s'.executor = s.executor ∧
        Parsed isParallelWorker core p s s') s := by
  rw [postParseAnalyze, wp_bind, wp_onCache]
  cases hparse : pschPostParseAnalyze core (p.settings isParallelWorker) p.alloc p.query p.jstate
      s.backendState.normalizeCache with
  | ok a c =>
    rw [wp_iff_of_ok hparse, wp_modify]
    exact ⟨⟨h.datname, h.username, h.clientAddr, h.database, h.address, h.user, h.built⟩, rfl, rfl,
      Or.inl ⟨c, hparse, rfl, rfl⟩⟩
  | error e c =>
    rw [wp, hparse]
    intro he
    refine ⟨⟨h.datname, h.username, h.clientAddr, h.database, h.address, h.user, h.built⟩, rfl, rfl,
      Or.inr ⟨e, c, hparse, ?_, rfl, rfl⟩⟩
    -- what is undefined is no `ERROR`
    rintro rfl
    cases he

/-- An ERROR outside of the executor hooks. -/
theorem Stepped.raise (h : Stepped isParallelWorker core l s s')
    (he : s'.executor = s.executor) (hr : s.executor.raising = false) :
    Stepped isParallelWorker core l s
      { s' with executor.raising := !s'.executor.stack.isEmpty } where
  inv := h.inv.withExecutor _
  executor := by
    intro hreach
    rw [← he] at hr hreach
    exact hreach.raise hr
  texts := by
    rcases h.texts with hquiet | hlooked | ⟨p, hp, hparsed⟩
    · exact Or.inl ⟨hquiet.cache, hquiet.calls, hquiet.built⟩
    · exact Or.inr (Or.inl hlooked)
    · exact Or.inr (Or.inr ⟨p, hp, hparsed⟩)

/-- A statement is parsed. -/
theorem stepped_parse {p : Parse} (h : Inv s) (hr : s.executor.raising = false)
    (hs' : conclude (postParseAnalyze isParallelWorker core p) s = some s') :
    Stepped isParallelWorker core (.parse p) s s' := by
  have hparsed : ∀ s₁, Inv s₁ ∧ s₁.executor = s.executor ∧ Parsed isParallelWorker core p s s₁ →
      Stepped isParallelWorker core (.parse p) s s₁ := by
    rintro s₁ ⟨h₁, he, hparsed⟩
    exact ⟨h₁, fun hreach => he ▸ hreach, Or.inr (Or.inr ⟨p, rfl, hparsed⟩)⟩
  rcases conclude_cases (wp_postParseAnalyze p h) hs' with hok | ⟨s₁, hs₁, rfl⟩
  · exact hparsed s' hok
  · exact (hparsed s₁ (hs₁ rfl)).raise (hs₁ rfl).2.1 hr

/-- PostgreSQL runs outside of the hooks, and emits messages. -/
theorem stepped_callOut {c : CallOut} (h : Inv s) (hr : s.executor.raising = false)
    (hs' : conclude (run c) s = some s') :
    Stepped isParallelWorker core (.callOut c) s s' := by
  have hframed : ∀ s₁, Inv s₁ ∧ Frame s s₁ → Stepped isParallelWorker core (.callOut c) s s₁ := by
    rintro s₁ ⟨h₁, hframe⟩
    exact ⟨h₁, fun hreach => hframe.executor ▸ hreach, Or.inl hframe.quiet⟩
  rcases conclude_cases (keeps_run c s h) hs' with hok | ⟨s₁, ⟨-, hs₁⟩, rfl⟩
  · exact hframed s' hok
  · exact (hframed s₁ hs₁).raise hs₁.2.executor hr

/-- A step of the executor hooks that builds nothing. -/
theorem stepped_executor {l : Executor.Label} {e : Executor} (h : Inv s)
    (he : Executor.step isParallelWorker l s.executor = some e) :
    Stepped isParallelWorker core (.executor l) s { s with executor := e } :=
  ⟨h.withExecutor e, fun hreach => hreach.step ⟨l, he⟩, Or.inl (Quiet.of_executor s e)⟩

/-- The texts of a step do not depend on the static variables of the executor hooks. -/
theorem texts_withExecutor {s₁ : BackendHooks} (h : Quiet s s₁ ∨ LookedUp s s₁) (e : Executor) :
    Quiet s { s₁ with executor := e } ∨ LookedUp s { s₁ with executor := e } := by
  rcases h with hquiet | hlooked
  · exact Or.inl ⟨hquiet.cache, hquiet.calls, hquiet.built⟩
  · exact Or.inr hlooked

/-- A query ends. An `ERROR` can come before the event, and then the hook was not entered for the
executor hooks; or behind it, and then the hook was entered and is left. -/
theorem stepped_executorEnd {started : ℕ} {desc : QueryDesc} {a : Measured} {x : Ending}
    (h : Inv s) (hr : s.executor.raising = false) (hstarted : started < s.executor.starts.length)
    (hs' : conclude (pschExecutorEnd isParallelWorker desc a x) s = some s') :
    Stepped isParallelWorker core (.executorEnd started desc a x) s s' := by
  rcases conclude_cases (wp_pschExecutorEnd h) hs' with
    ⟨s₁, ⟨h₁, htexts, hended⟩, rfl⟩ | ⟨s₁, hbreaks, rfl⟩
  · refine ⟨h₁.withExecutor _, fun hreach => hreach.executorEnd hr hstarted hended, ?_⟩
    exact or_assoc.mp (Or.inl (texts_withExecutor htexts _))
  · rcases hbreaks with ⟨-, h₁, htexts, hbefore⟩ | ⟨hundefined, -⟩
    · refine ⟨h₁.withExecutor _, fun hreach => ?_,
        or_assoc.mp (Or.inl (texts_withExecutor htexts _))⟩
      rcases hbefore with hsame | hended
      · rw [← hsame] at hr hreach
        exact hreach.raise hr
      · -- the hook is entered, and left again with the ERROR
        have hentered := hreach.executorEnd hr hstarted hended
        have hleft := hentered.leave (hended.raising.trans hr) rfl
        simpa [Executor.leave, HookFrame.nests] using hleft
    · cases hundefined

/-- The running hook is returned to, which takes it off the stack before anything else. -/
theorem stepped_returned {a : Measured} {x : Ending} {f : HookFrame} {below : List HookFrame}
    (h : Inv s) (hr : s.executor.raising = false) (hstack : s.executor.stack = f :: below)
    (hs' : conclude (returnTo isParallelWorker a x f below) s = some s') :
    Stepped isParallelWorker core (.returned a x) s s' := by
  have hleft : Inv { s with executor := s.executor.leave isParallelWorker f below } :=
    h.withExecutor _
  -- the state in which the event is built
  generalize hs₀ : ({ s with executor := s.executor.leave isParallelWorker f below } :
    BackendHooks) = s₀ at hleft
  have hexecutor : s₀.executor = s.executor.leave isParallelWorker f below := by
    subst hs₀
    rfl
  have htexts₀ : ∀ s₁, Quiet s₀ s₁ ∨ LookedUp s₀ s₁ → Quiet s s₁ ∨ LookedUp s s₁ := by
    subst hs₀
    rintro s₁ (hquiet | hlooked)
    · exact Or.inl ⟨hquiet.cache, hquiet.calls, hquiet.built⟩
    · exact Or.inr hlooked
  have hwp : wp (returnTo isParallelWorker a x f below)
      (fun _ => Ends s₀ (ReturnedAs isParallelWorker f below s.executor))
      (Breaks s₀ (ReturnedAs isParallelWorker f below s.executor)) s := by
    rw [returnTo, wp_bind, wp_modify, hs₀]
    exact wp_utilityEvent hleft hexecutor
  rcases conclude_cases hwp hs' with ⟨h₁, htexts, hreturned⟩ | ⟨s₁, hbreaks, rfl⟩
  · exact ⟨h₁, fun hreach => hreach.returnTo hr hstack hreturned,
      or_assoc.mp (Or.inl (htexts₀ _ htexts))⟩
  · rcases hbreaks with ⟨-, h₁, htexts, hbefore⟩ | ⟨hundefined, -⟩
    · refine ⟨h₁.withExecutor _, fun hreach => ?_,
        or_assoc.mp (Or.inl (texts_withExecutor (htexts₀ _ htexts) _))⟩
      rcases hbefore with hsame | hreturned
      · -- the ERROR leaves the hook before it has an event
        rw [hsame, hexecutor]
        exact hreach.leave hr hstack
      · exact (hreach.returnTo hr hstack hreturned).raise (hreturned.raising.trans hr)
    · cases hundefined

/-- What every step leaves: one lemma for each label. -/
theorem stepped (h : Inv s) (hl : (machine isParallelWorker core).step l s = some s') :
    Stepped isParallelWorker core l s s' := by
  obtain ⟨x, hx, hs'⟩ := Option.bind_eq_some_iff.mp hl
  cases enabled_of_program hx with
  | parse p hr => exact stepped_parse h hr hs'
  | executor l e he =>
    cases hs'
    exact stepped_executor h he
  | executorEnd started desc a y hr hstarted => exact stepped_executorEnd h hr hstarted hs'
  | returned a y f below hr hstack => exact stepped_returned h hr hstack hs'
  | callOut c hr => exact stepped_callOut h hr hs'

/-- Nothing is cached at first, and nothing built. -/
theorem inv_init : Inv ({} : BackendHooks) := by
  have hname : Terminated (CharBuf.zero 64) 0 := terminated_zero (by decide)
  refine ⟨hname, hname, terminated_zero (by decide), fun hinit => ?_, fun hinit => ?_,
    fun hinit => ?_, fun b hb => ?_⟩
  · cases hinit
  · cases hinit
  · cases hinit
  · cases hb

/-- The invariant holds in every run. -/
theorem inv_reachable (hs : (machine isParallelWorker core).toSpec.Reachable s) : Inv s := by
  refine Spec.Reachable.invariant ?_ ?_ hs
  · rintro s rfl
    exact inv_init
  · rintro s s' h ⟨l, hl⟩
    exact (stepped h hl).inv

/-- The static variables of the executor hooks are as `Executor` has them, whatever the other
hooks do. -/
theorem executor_reachable (hs : (machine isParallelWorker core).toSpec.Reachable s) :
    ExecutorReaches isParallelWorker s.executor := by
  induction hs with
  | init h =>
    cases h
    exact .init rfl
  | step hr hnext ih =>
    obtain ⟨l, hl⟩ := hnext
    exact (stepped (inv_reachable hr) hl).executor ih

/-- The texts of every event end inside of their buffers, also when log messages are captured, and
ERRORs raised, while the event or the cached names are put together. -/
theorem events_wellFormed (hs : (machine isParallelWorker core).toSpec.Reachable s) :
    ∀ b ∈ s.built, b.event.WellFormed :=
  fun b hb => ((inv_reachable hs).built b hb).wellFormed

/-- What does not change in a session whose role is not renamed: the database, its name, the
names of the roles, and the client. -/
structure Stable (σ env : Env) : Prop where
  database : env.datnameText = σ.datnameText
  userName : env.userName = σ.userName
  address : env.addressText = σ.addressText

/-- Every event that is built in a transaction has the names of its session: of its database, of
the role that it reports, as far as the role has one, and of its client. -/
theorem session_names {σ : Env} (hs : (machine isParallelWorker core).toSpec.Reachable s)
    (hstable : ∀ env ∈ s.asked, Stable σ env) :
    ∀ b ∈ s.built, b.env.inTransaction = true →
      b.event.fixed.datname.bytes b.event.fixed.datnameLen.toNat = σ.datnameText ∧
      b.event.fixed.clientAddr.bytes b.event.fixed.clientAddrLen.toNat = σ.addressText ∧
      ∀ name, σ.userName b.event.fixed.userid = some name →
        b.event.fixed.username.bytes b.event.fixed.usernameLen.toNat = name.take 63 := by
  intro b hb htx
  -- the event carries a description of its session
  obtain ⟨c, hdescribes, hcarries⟩ := ((inv_reachable hs).built b hb).client
  rw [hcarries.datname, hcarries.datnameLen, hcarries.clientAddr, hcarries.clientAddrLen,
    hcarries.username, hcarries.usernameLen, hcarries.userid, hdescribes.userid]
  refine ⟨?_, ?_, fun name hname => ?_⟩
  · obtain ⟨env, hask, htext⟩ := hdescribes.database htx
    rw [htext, (hstable env hask).database]
  · obtain ⟨env, hask, htext⟩ := hdescribes.address htx
    rw [htext, (hstable env hask).address]
  · rcases hdescribes.user htx with ⟨env, hask, hid, htext⟩ | ⟨hask, hnone⟩
    · -- it was found for the same role
      rw [htext, Env.usernameText, (hstable env hask).userName, hid, hname]
      rfl
    · -- a role without a name has none to report
      rw [(hstable b.env hask).userName, hname] at hnone
      cases hnone

/-! ## Samples -/

/-- PostgreSQL with a query text that is taken as it is. -/
def plainCore : PgCore where
  cleanQuerytext := fun source location len => (source, location, len)
  lex := fun _ => []
  qsort := .insertion

/-- A session on a database `d`, with two roles. -/
def sampleEnv (userid : UInt32) (inTransaction : Bool) : Env where
  userid := userid
  inTransaction := inTransaction
  databaseName := fun _ => some (ascii "d")
  userName := fun id => if id = 10 then some (ascii "postgres") else some (ascii "app")
  remoteHost := some (some (ascii "[local]"))

/-- A log message, in this role. -/
def sampleMessage (userid : UInt32) (inTransaction : Bool) : Label :=
  .callOut (.emitted { env := sampleEnv userid inTransaction } .returned .returned .returned
    .returned .returned .returned .returned)

/-- The session changes its role in a transaction, and changes it back outside of one. -/
def roleChanges : BackendHooks :=
  (machine false plainCore).run {} [sampleMessage 10 true, sampleMessage 11 true,
    sampleMessage 10 false]

/-- This is a run. -/
theorem roleChanges_reachable : (machine false plainCore).toSpec.Reachable roleChanges :=
  (machine false plainCore).run_reachable _ (.init rfl) _

theorem events_wellFormed_roles :
    roleChanges.built.length = 3 ∧ ∀ b ∈ roleChanges.built, b.event.WellFormed :=
  ⟨by decide +kernel, events_wellFormed roleChanges_reachable⟩

/-- The role changes, but not what the roles are called. -/
theorem roleChanges_stable : ∀ env ∈ roleChanges.asked, Stable (sampleEnv 10 true) env := by
  have hasked : roleChanges.asked = [sampleEnv 10 true, sampleEnv 10 true, sampleEnv 11 true] := rfl
  rw [hasked]
  simp only [List.forall_mem_cons]
  exact ⟨⟨rfl, rfl, rfl⟩, ⟨rfl, rfl, rfl⟩, ⟨rfl, rfl, rfl⟩, List.forall_mem_nil _⟩

/-- The second event has the name of the new role. -/
theorem session_names_roles :
    ∃ b ∈ roleChanges.built, b.event.fixed.userid = 11 ∧
      b.event.fixed.username.bytes b.event.fixed.usernameLen.toNat = ascii "app" := by
  have hsecond : ∃ b ∈ roleChanges.built, b.env.inTransaction = true ∧
      b.event.fixed.userid = 11 := by decide +kernel
  obtain ⟨b, hb, htx, hid⟩ := hsecond
  have hname : (sampleEnv 10 true).userName b.event.fixed.userid = some (ascii "app") := by
    rw [hid]
    rfl
  refine ⟨b, hb, hid, ?_⟩
  exact (session_names roleChanges_reachable roleChanges_stable b hb htx).2.2 _ hname

/-- Outside of a transaction the name of the last role stays. -/
example : roleChanges.built.map (fun b => (b.event.fixed.userid,
    b.event.fixed.username.bytes b.event.fixed.usernameLen.toNat)) =
    [(10, ascii "postgres"), (11, ascii "app"), (10, ascii "app")] := by
  decide +kernel

end Runs

end BackendHooks

end PgStatCh
