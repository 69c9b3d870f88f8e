import PgStatCh.Hooks.SessionNames

/-!
# Hooks.SessionBuilt — how the events of a backend are built

An event is built by one of three hooks. That of a log message can come in the middle of all the
others, and of itself: `keeps_run` says that it keeps the invariant, by induction over the messages
that are emitted in a call and over the calls that are made to capture them. For the event of a
statement it is also said which text was found for it (`Done`, `LookedUp`), and what becomes of the
static variables of the executor hooks (`Ends`, `Breaks`).
-/

namespace PgStatCh

open Lib Tla Prog

namespace BackendHooks

variable {s : BackendHooks} {env : Env}

/-! ## The events of log messages -/

/-- The guard against recursion is no part of the invariant, -/
theorem Inv.setGuard (h : Inv s) (g : Bool) : Inv { s with disableErrorCapture := g } :=
  ⟨h.datname, h.username, h.clientAddr, h.database, h.address, h.user, h.built⟩

/-- nor of the frame. -/
theorem Frame.setGuard (s : BackendHooks) (g : Bool) :
    Frame s { s with disableErrorCapture := g } :=
  ⟨rfl, rfl, rfl, fun _ => id, id, id, id, fun _ => Or.inl⟩

/-- So the guard can be set at any time. -/
theorem keeps_setGuard (g : Bool) : Keeps (setGuard g) :=
  fun s h => ⟨h.setGuard g, Frame.setGuard s g⟩

/-- Calls one after the other. -/
theorem Keeps.bind {x y : M Unit} (hx : Keeps x) (hy : Keeps y) : Keeps (x >>= fun _ => y) := by
  intro s h
  rw [wp_bind]
  refine wp_mono (hx s h) ?_ fun _ _ => id
  rintro - s₁ ⟨h₁, hframe₁⟩
  refine wp_mono (hy s₁ h₁) ?_ fun _ _ hfailed => hfailed.trans hframe₁
  rintro - s₂ ⟨h₂, hframe₂⟩
  exact ⟨h₂, hframe₁.trans hframe₂⟩

/-- `PschEnqueueEvent` passes an `ERROR` on, and not on all of its paths puts the guard back. -/
theorem keeps_pschEnqueueEvent (q : EnqueueAnswers) {calls : EventCalls (M Unit)}
    (hguarded : Keeps calls.guarded) (hbuffered : Keeps calls.buffered) :
    Keeps (pschEnqueueEvent q calls) := by
  have hrest : ∀ saved, Keeps (do
      setGuard true
      tryCatch calls.guarded (leaveEnqueue q saved)
      setGuard saved
      calls.buffered) := by
    intro saved
    refine (keeps_setGuard true).bind (Keeps.bind ?_ ((keeps_setGuard saved).bind hbuffered))
    intro s h
    rw [wp_tryCatch]
    refine wp_mono (hguarded s h) (fun _ _ => id) ?_
    rintro e s' ⟨he, h', hframe⟩
    rw [leaveEnqueue]
    split
    · -- the guard is given back
      rw [wp_bind]
      exact ⟨he, h'.setGuard saved, hframe.trans (Frame.setGuard s' saved)⟩
    · exact ⟨he, h', hframe⟩
  intro s h
  rw [pschEnqueueEvent]
  split
  · rw [wp_bind, wp_get]
    exact hrest s.disableErrorCapture s h
  · exact ⟨h, Frame.refl s⟩

/-- What is built for a log message. -/
theorem captureLogEvent_good {asked : List Env} {client : ClientContext} (m : Message)
    (level : ℤ) (calls : List PschNormalizedQueryCache.CacheCall)
    (h : Describes asked m.env client) :
    let b : Built := ⟨m.env, calls,
      captureLogEvent client m.now level m.errMessage m.query m.edata⟩
    b.Good asked ∧ Logged b := by
  have hsqlstate : ∀ buf, Terminated (unpackSqlState m.edata.sqlerrcode buf) 5 :=
    fun buf => terminated_terminate _ (by decide)
  have hquery : Terminated (m.query.terminate 0) 0 := terminated_terminate _ (by decide)
  unfold captureLogEvent
  cases m.edata.message with
  | none =>
    -- a message without a text
    refine ⟨⟨⟨client, h, ⟨rfl, rfl, rfl, rfl, rfl, rfl, rfl, rfl, rfl, rfl⟩⟩, h.datname, h.username,
      h.applicationName, h.clientAddr, hsqlstate _, terminated_terminate _ (by decide), hquery⟩,
      rfl, rfl⟩
  | some message =>
    have hcopied := pschCopyTrimmed_terminated (m.errMessage.terminate 0) message (by decide)
    have hlen : (pschCopyTrimmed (m.errMessage.terminate 0) (some message)).2 < 65536 :=
      hcopied.1.trans (by decide)
    refine ⟨⟨⟨client, h, ⟨rfl, rfl, rfl, rfl, rfl, rfl, rfl, rfl, rfl, rfl⟩⟩, h.datname, h.username,
      h.applicationName, h.clientAddr, hsqlstate _, ?_, hquery⟩, rfl, rfl⟩
    rw [UInt16.toNat_ofNat_of_lt' hlen]
    exact hcopied

/-- One more event. -/
theorem Inv.build (h : Inv s) {b : Built} (hb : b.Good s.asked) :
    Inv { s with built := s.built ++ [b] } := by
  refine ⟨h.datname, h.username, h.clientAddr, h.database, h.address, h.user, fun b' hb' => ?_⟩
  rcases List.mem_append.mp hb' with hb' | hb'
  · exact h.built b' hb'
  · rw [List.mem_singleton.mp hb']
    exact hb

/-- The event of a log message is one that a call may add. -/
theorem Frame.build (s : BackendHooks) {b : Built} (hb : Logged b) :
    Frame s { s with built := s.built ++ [b] } := by
  refine ⟨rfl, rfl, rfl, fun _ => id, id, id, id, fun b' hb' => ?_⟩
  rcases List.mem_append.mp hb' with hb' | hb'
  · exact Or.inl hb'
  · rw [List.mem_singleton.mp hb']
    exact Or.inr hb

/-- A log message is captured, with the calls for its event. -/
theorem keeps_captureMessage (m : Message) {calls : EventCalls (M Unit)} (hcalls : KeptBy calls) :
    Keeps (captureMessage m calls) := by
  intro s h
  rw [captureMessage, wp_bind]
  refine wp_mono (wp_clientContext hcalls h) ?_ fun _ _ => id
  rintro client s₁ ⟨h₁, hframe₁, hdescribes⟩
  rw [wp_bind, addMessage, wp_modify]
  obtain ⟨hgood, hlogged⟩ :=
    captureLogEvent_good m s₁.executor.nestingLevel s₁.calls hdescribes
  have hframe := hframe₁.trans (Frame.build s₁ hlogged)
  refine wp_mono (keeps_pschEnqueueEvent m.enqueue hcalls.guarded hcalls.buffered _
    (h₁.build hgood)) ?_ fun _ _ hfailed => hfailed.trans hframe
  rintro - s₂ ⟨h₂, hframe'⟩
  exact ⟨h₂, hframe.trans hframe'⟩

/-- The hook catches every `ERROR` of the capture, so for what emitted the message nothing has
happened. -/
theorem keeps_pschEmitLogHook (m : Message) {calls : EventCalls (M Unit)} (hcalls : KeptBy calls) :
    Keeps (pschEmitLogHook m calls) := by
  -- `FlushErrorState` in the handler
  have hcapture : Keeps (tryCatch (captureMessage m calls) flushErrorState) := by
    intro s h
    rw [wp_tryCatch]
    refine wp_mono (keeps_captureMessage m hcalls s h) (fun _ _ => id) ?_
    rintro e s' ⟨rfl, h', hframe⟩
    exact ⟨h', hframe⟩
  intro s h
  rw [pschEmitLogHook, wp_bind, wp_get]
  split
  · exact (keeps_setGuard true).bind (hcapture.bind (keeps_setGuard false)) s h
  · exact ⟨h, Frame.refl s⟩

/-- Whatever happens in a call into PostgreSQL. -/
theorem keeps_run (c : CallOut) : Keeps (run c) := by
  -- over the messages of the call, and for each over the calls that its capture makes
  induction c with
  | returned => exact fun s h => ⟨h, Frame.refl s⟩
  | raised => exact fun s h => ⟨rfl, h, Frame.refl s⟩
  | emitted m datname username datnameAgain usernameAgain guarded buffered rest ih₁ ih₂ ih₃ ih₄ ih₅
      ih₆ ih =>
    exact (keeps_pschEmitLogHook m ⟨ih₁, ih₂, ih₃, ih₄, ih₅, ih₆⟩).bind ih

/-- So the hypothesis about the calls holds for those of any event. -/
theorem keptBy_programs (x : Ending) : KeptBy x.programs :=
  ⟨keeps_run _, keeps_run _, keeps_run _, keeps_run _, keeps_run _, keeps_run _⟩

/-! ## The events of statements -/

/-- `make` fills in the session and the text that was found, and is about this query. -/
def Makes (queryId : UInt64)
    (make : ClientContext → Option (CharBuf pschMaxQueryLen × UInt16) → PschEvent) : Prop :=
  ∀ client found, ∃ f : FixedPrefix, make client found = copyQueryText found f ∧
    f.queryid = queryId ∧ Carries client f ∧ f.errSqlstate = .zero 6

/-- The event of `PschExecutorEnd`, -/
theorem makes_buildEventFromQueryDesc (desc : QueryDesc) (a : Measured) (queryStartTs : Int64)
    (currentQueryIsTopLevel : Bool) (cpu : Int64 × Int64) :
    Makes desc.queryId fun client queryText => buildEventFromQueryDesc desc
      { a with client, queryText } queryStartTs currentQueryIsTopLevel cpu := by
  intro client found
  refine ⟨_, rfl, ?_⟩
  -- the measurements are filled in only if they were taken
  cases desc.totaltime <;> cases desc.esJit <;>
    exact ⟨rfl, ⟨rfl, rfl, rfl, rfl, rfl, rfl, rfl, rfl, rfl, rfl⟩, rfl⟩

/-- and that of `PschProcessUtility`. -/
theorem makes_buildEventForUtility (a : Measured) (queryId : UInt64) (startTs : Int64)
    (isTopLevel : Bool) (cpu : Int64 × Int64) :
    Makes queryId fun client queryText => buildEventForUtility { a with client, queryText } queryId
      startTs isTopLevel cpu :=
  fun _ _ => ⟨_, rfl, rfl, ⟨rfl, rfl, rfl, rfl, rfl, rfl, rfl, rfl, rfl, rfl⟩, rfl⟩

/-- What a lookup leaves in the buffer ends inside of it. -/
theorem lookupText_terminated (queryId : UInt64) (c : PschNormalizedQueryCache) :
    wp (lookupText queryId)
      (fun found _ => ∀ p, found = some p → Terminated p.1 p.2.toNat)
      (fun e _ => e = .undefined) c := by
  unfold lookupText PschNormalizedQueryCache.lookup PschNormalizedQueryCache.promoteEntryToMru
    PschNormalizedQueryCache.unlink
  rw [wp_bind, wp_get]
  split
  · rintro p ⟨⟩
  · split
    · rintro p ⟨⟩
    · next entry _ =>
      -- an entry was found, and is moved to the front before it is read
      rw [wp_bind, wp_bind, wp_bind, wp_get]
      split
      · rw [wp_modify]
        split
        · rintro p ⟨⟩
          have hmax : pschMaxQueryLen = 2048 := rfl
          have hlen : min entry.normalizedLen (pschMaxQueryLen - 1) < pschMaxQueryLen := by omega
          change Terminated _ (UInt16.ofNat _).toNat
          rw [UInt16.toNat_ofNat_of_lt' (hlen.trans (by decide))]
          exact terminated_terminate _ hlen
        · rfl
      · rfl

/-- The text that was found completes the event. -/
theorem copyQueryText_good {asked : List Env} {client : ClientContext} {f : FixedPrefix}
    {found : Option (CharBuf pschMaxQueryLen × UInt16)}
    (calls : List PschNormalizedQueryCache.CacheCall) (h : Describes asked env client)
    (hcarries : Carries client f) (hsqlstate : f.errSqlstate = .zero 6)
    (hfound : ∀ p, found = some p → Terminated p.1 p.2.toNat) :
    Built.Good asked ⟨env, calls, copyQueryText found f⟩ := by
  have herr : Terminated (CharBuf.zero pschMaxErrMsgLen) 0 := terminated_zero (by decide)
  have hclient : Carries client (copyQueryText found f).fixed := by
    rw [Executor.copyQueryText_fixed]
    exact hcarries
  have hstate : Terminated (copyQueryText found f).fixed.errSqlstate 5 := by
    rw [Executor.copyQueryText_fixed, hsqlstate]
    exact ⟨by decide, rfl⟩
  refine ⟨⟨client, h, hclient⟩, ?_, ?_, ?_, ?_, hstate, ?_, ?_⟩
  · rw [hclient.datname, hclient.datnameLen]
    exact h.datname
  · rw [hclient.username, hclient.usernameLen]
    exact h.username
  · rw [hclient.applicationName, hclient.applicationNameLen]
    exact h.applicationName
  · rw [hclient.clientAddr, hclient.clientAddrLen]
    exact h.clientAddr
  · -- a statement has no error message
    cases found <;> exact herr
  · cases found with
    | none => exact terminated_zero (by decide)
    | some p => exact hfound p rfl

/-- What a function of the cache does to the backend. -/
theorem wp_onCache {α : Type} {x : PschNormalizedQueryCache.M α} {Q : α → BackendHooks → Prop}
    {E : Raised → BackendHooks → Prop} :
    wp (onCache x) Q E s =
      wp x (fun a c => Q a { s with backendState.normalizeCache := c })
        (fun e c => E (raisedBy e) { s with backendState.normalizeCache := c })
        s.backendState.normalizeCache := by
  simp only [wp, onCache]
  cases x s.backendState.normalizeCache <;> rfl

/-- An event was made for a statement, with a lookup that left the cache at `c`. -/
structure Added (s : BackendHooks) (queryId : UInt64) (event : PschEvent)
    (c : PschNormalizedQueryCache) (s' : BackendHooks) : Prop where
  executor : s'.executor = { s.executor with events := s.executor.events ++ [event] }
  cache : s'.backendState.normalizeCache = c
  calls : s'.calls = s.calls ++ [.lookup queryId pschMaxQueryLen (.zero _)]
  built : ∀ b ∈ s'.built, b ∈ s.built ∨ Logged b ∨ b.calls = s.calls ∧ b.event = event

/-- A call that comes after it changes nothing of this. -/
theorem Added.frame {s' s'' : BackendHooks} {queryId : UInt64} {event : PschEvent}
    {c : PschNormalizedQueryCache} (h : Added s queryId event c s') (hframe : Frame s' s'') :
    Added s queryId event c s'' where
  executor := hframe.executor.trans h.executor
  cache := hframe.cache.trans h.cache
  calls := hframe.calls.trans h.calls
  built := by
    intro b hb
    rcases hframe.built b hb with hb | hb
    · exact h.built b hb
    · exact Or.inr (Or.inl hb)

/-- A statement has got its event. -/
def Done (s : BackendHooks) (queryId : UInt64)
    (make : ClientContext → Option (CharBuf pschMaxQueryLen × UInt16) → PschEvent)
    (s' : BackendHooks) : Prop :=
  ∃ client found c, lookupText queryId s.backendState.normalizeCache = .ok found c ∧
    Added s queryId (make client found) c s'

/-- Nothing but the lookup changed the cache since `s`. -/
theorem Added.of_lookup {s₁ s' : BackendHooks} {queryId : UInt64} {event : PschEvent}
    {c : PschNormalizedQueryCache} (hframe : Frame s s₁)
    (h : Added { s₁ with backendState.normalizeCache := c } queryId event c s') :
    Added s queryId event c s' where
  executor := by rw [← hframe.executor]; exact h.executor
  cache := h.cache
  calls := by rw [← hframe.calls]; exact h.calls
  built := by
    intro b hb
    rcases h.built b hb with hb | hb | ⟨hcalls, hevent⟩
    · rcases hframe.built b hb with hb | hb
      · exact Or.inl hb
      · exact Or.inr (Or.inl hb)
    · exact Or.inr (Or.inl hb)
    · exact Or.inr (Or.inr ⟨hcalls.trans hframe.calls, hevent⟩)

/-- The event is added to the history and to the events of the executor hooks. -/
theorem wp_addStatement {queryId : UInt64} {event : PschEvent} (h : Inv s)
    (hgood : Built.Good s.asked ⟨env, s.calls, event⟩) :
    wp (addStatement env queryId event)
      (fun _ s' => Inv s' ∧ Added s queryId event s.backendState.normalizeCache s')
      (fun _ _ => False) s := by
  rw [addStatement, wp_modify]
  have hbuilt := h.build hgood
  refine ⟨⟨h.datname, h.username, h.clientAddr, h.database, h.address, h.user, hbuilt.built⟩,
    rfl, rfl, rfl, fun b hb => ?_⟩
  rcases List.mem_append.mp hb with hb | hb
  · exact Or.inl hb
  · rw [List.mem_singleton.mp hb]
    exact Or.inr (Or.inr ⟨rfl, rfl⟩)

/-- An ERROR comes before the event or behind it, and the only thing that can be undefined is
the lookup. -/
theorem wp_statementEvent {q : EnqueueAnswers} {calls : EventCalls (M Unit)} {queryId : UInt64}
    {make : ClientContext → Option (CharBuf pschMaxQueryLen × UInt16) → PschEvent}
    (hcalls : KeptBy calls) (hmake : Makes queryId make) (h : Inv s) :
    wp (statementEvent env q calls queryId make) (fun _ s' => Inv s' ∧ Done s queryId make s')
      (fun e s' => e = .error ∧ Inv s' ∧ (Frame s s' ∨ Done s queryId make s') ∨
        e = .undefined ∧
          ∃ c, lookupText queryId s.backendState.normalizeCache = .error .undefined c) s := by
  rw [statementEvent, wp_bind]
  refine wp_mono (wp_clientContext hcalls h) ?_ ?_
  swap
  · -- an `ERROR` before the event
    rintro e s₁ ⟨he, h₁, hframe⟩
    exact Or.inl ⟨he, h₁, Or.inl hframe⟩
  rintro client s₁ ⟨h₁, hframe₁, hdescribes⟩
  rw [wp_bind, wp_onCache, hframe₁.cache]
  have hwp := lookupText_terminated queryId s.backendState.normalizeCache
  cases hlookup : lookupText queryId s.backendState.normalizeCache with
  | error e c =>
    -- the lookup is undefined
    have he := wp_of_error hlookup hwp
    subst he
    rw [wp, hlookup]
    exact Or.inr ⟨rfl, c, rfl⟩
  | ok found c =>
    have hfound := wp_of_ok hlookup hwp
    rw [wp_iff_of_ok hlookup, wp_bind]
    obtain ⟨f, hevent, -, hcarries, hsqlstate⟩ := hmake client found
    have hgood : Built.Good s₁.asked ⟨env, s₁.calls, make client found⟩ := by
      rw [hevent]
      exact copyQueryText_good s₁.calls hdescribes hcarries hsqlstate hfound
    have h₁' : Inv { s₁ with backendState.normalizeCache := c } :=
      ⟨h₁.datname, h₁.username, h₁.clientAddr, h₁.database, h₁.address, h₁.user, h₁.built⟩
    refine wp_mono (wp_addStatement h₁' hgood) ?_ fun _ _ => False.elim
    rintro - s₂ ⟨h₂, hadded⟩
    have hadded := hadded.of_lookup hframe₁
    refine wp_mono (keeps_pschEnqueueEvent q hcalls.guarded hcalls.buffered s₂ h₂) ?_ ?_
    · rintro - s₃ ⟨h₃, hframe⟩
      exact ⟨h₃, client, found, c, hlookup, hadded.frame hframe⟩
    · -- an `ERROR` of the queue, behind the event
      rintro e s₃ ⟨he, h₃, hframe⟩
      exact Or.inl ⟨he, h₃, Or.inr ⟨client, found, c, hlookup, hadded.frame hframe⟩⟩

/-! ## The hooks -/

/-- No text was asked for. -/
structure Quiet (s s' : BackendHooks) : Prop where
  cache : s'.backendState.normalizeCache = s.backendState.normalizeCache
  calls : s'.calls = s.calls
  built : ∀ b ∈ s'.built, b ∈ s.built ∨ Logged b

/-- One statement has got its event, with the text that was found for its id. -/
def LookedUp (s s' : BackendHooks) : Prop :=
  ∃ queryId found c f, lookupText queryId s.backendState.normalizeCache = .ok found c ∧
    f.queryid = queryId ∧ s'.backendState.normalizeCache = c ∧
    s'.calls = s.calls ++ [.lookup queryId pschMaxQueryLen (.zero _)] ∧
    ∀ b ∈ s'.built, b ∈ s.built ∨ Logged b ∨ b.calls = s.calls ∧ b.event = copyQueryText found f

/-- The lookup for some event is undefined. -/
def Undefined (s : BackendHooks) : Prop :=
  ∃ queryId c, lookupText queryId s.backendState.normalizeCache = .error .undefined c

/-- A call into PostgreSQL asks for no text. -/
theorem Frame.quiet {s s' : BackendHooks} (h : Frame s s') : Quiet s s' :=
  ⟨h.cache, h.calls, h.built⟩

/-- A change of the executor hooks' static variables asks for none either. -/
theorem Quiet.of_executor (s : BackendHooks) (e : Executor) : Quiet s { s with executor := e } :=
  ⟨rfl, rfl, fun _ => Or.inl⟩

/-- The text is the one of the lookup, whatever else is in the event. -/
theorem Done.lookedUp {queryId : UInt64} {s' : BackendHooks}
    {make : ClientContext → Option (CharBuf pschMaxQueryLen × UInt16) → PschEvent}
    (hmake : Makes queryId make) (h : Done s queryId make s') : LookedUp s s' := by
  obtain ⟨client, found, c, hlookup, hadded⟩ := h
  obtain ⟨f, hevent, hid, -⟩ := hmake client found
  refine ⟨queryId, found, c, f, hlookup, hid, hadded.cache, hadded.calls, ?_⟩
  rw [← hevent]
  exact hadded.built

/-- How a hook ends that may build the event of a statement: `Ok` says what becomes of the static
variables of the executor hooks. -/
def Ends (s : BackendHooks) (Ok : Executor → Prop) (s' : BackendHooks) : Prop :=
  Inv s' ∧ (Quiet s s' ∨ LookedUp s s') ∧ Ok s'.executor

/-- The same for an ERROR, which can come before all that. -/
def Breaks (s : BackendHooks) (Ok : Executor → Prop) (e : Raised) (s' : BackendHooks) : Prop :=
  e = .error ∧ Ends s (fun e' => e' = s.executor ∨ Ok e') s' ∨ e = .undefined ∧ Undefined s

/-- An event of a statement, as the hooks see it. -/
theorem wp_statementEvent_ends {q : EnqueueAnswers} {calls : EventCalls (M Unit)}
    {queryId : UInt64} {Ok : Executor → Prop}
    {make : ClientContext → Option (CharBuf pschMaxQueryLen × UInt16) → PschEvent}
    (hcalls : KeptBy calls) (hmake : Makes queryId make) (h : Inv s)
    (hok : ∀ client found,
      Ok { s.executor with events := s.executor.events ++ [make client found] }) :
    wp (statementEvent env q calls queryId make) (fun _ => Ends s Ok) (Breaks s Ok) s := by
  have hdone : ∀ s', Done s queryId make s' → Ok s'.executor := by
    rintro s' ⟨client, found, c, -, hadded⟩
    rw [hadded.executor]
    exact hok client found
  refine wp_mono (wp_statementEvent hcalls hmake h) ?_ ?_
  · rintro - s' ⟨h', hadded⟩
    exact ⟨h', Or.inr (hadded.lookedUp hmake), hdone s' hadded⟩
  · rintro e s' (⟨he, h', hframe | hadded⟩ | ⟨he, c, hundefined⟩)
    · exact Or.inl ⟨he, h', Or.inl hframe.quiet, Or.inl hframe.executor⟩
    · exact Or.inl ⟨he, h', Or.inr (hadded.lookedUp hmake), Or.inr (hdone s' hadded)⟩
    · exact Or.inr ⟨he, queryId, c, hundefined⟩

/-- A hook that builds no event. -/
theorem Ends.refl {Ok : Executor → Prop} (h : Inv s) (hok : Ok s.executor) : Ends s Ok s :=
  ⟨h, Or.inl (Frame.refl s).quiet, hok⟩

variable {isParallelWorker : Bool} {core : PgCore}

/-- With its frame on the stack, this is what `PschExecutorEnd` makes of the static variables. -/
def EndedAs (isParallelWorker : Bool) (desc : QueryDesc) (e e' : Executor) : Prop :=
  ∃ a, { e' with stack := .executorEnd :: e'.stack } = e.pschExecutorEnd isParallelWorker desc a

/-- `PschExecutorEnd` up to the call of the previous hook. -/
theorem wp_executorEndEvent {desc : QueryDesc} {a : Measured} {x : Ending} (h : Inv s) :
    wp (executorEndEvent isParallelWorker desc a x)
      (fun _ => Ends s (EndedAs isParallelWorker desc s.executor))
      (Breaks s (EndedAs isParallelWorker desc s.executor)) s := by
  rw [executorEndEvent, wp_bind, wp_get]
  split
  · next hskip =>
    -- no event for this query
    refine Ends.refl h ⟨a, ?_⟩
    rw [Executor.pschExecutorEnd, if_pos hskip]
  · next hskip =>
    split
    · next hsample =>
      -- it is not in the sample
      refine Ends.refl h ⟨a, ?_⟩
      rw [Executor.pschExecutorEnd, if_neg hskip, if_pos hsample]
    · next hsample =>
      refine wp_statementEvent_ends (keptBy_programs x)
        (makes_buildEventFromQueryDesc desc a _ _ _) h fun client queryText =>
          ⟨{ a with client, queryText }, ?_⟩
      rw [Executor.pschExecutorEnd, if_neg hskip, if_neg hsample]

/-- Then its frame is on the stack. -/
theorem wp_pschExecutorEnd {desc : QueryDesc} {a : Measured} {x : Ending} (h : Inv s) :
    wp (pschExecutorEnd isParallelWorker desc a x)
      (fun _ s' => ∃ s₁, Ends s (EndedAs isParallelWorker desc s.executor) s₁ ∧
        s' = { s₁ with executor.stack := .executorEnd :: s₁.executor.stack })
      (Breaks s (EndedAs isParallelWorker desc s.executor)) s := by
  rw [pschExecutorEnd, wp_bind]
  refine wp_mono (wp_executorEndEvent h) ?_ fun _ _ => id
  rintro - s₁ hends
  exact ⟨s₁, hends, rfl⟩

/-- What the return to the hook `f` makes of the static variables. -/
def ReturnedAs (isParallelWorker : Bool) (f : HookFrame) (below : List HookFrame)
    (e e' : Executor) : Prop :=
  ∃ a, e' = e.returnTo isParallelWorker a f below

/-- On the return to `PschProcessUtility` an event is built, on that to another hook none. -/
theorem wp_utilityEvent {a : Measured} {x : Ending} {f : HookFrame} {below : List HookFrame}
    {e : Executor} (h : Inv s) (hleft : s.executor = e.leave isParallelWorker f below) :
    wp (utilityEvent a x f) (fun _ => Ends s (ReturnedAs isParallelWorker f below e))
      (Breaks s (ReturnedAs isParallelWorker f below e)) s := by
  unfold utilityEvent
  split
  · next u =>
    -- the hook is `PschProcessUtility`
    split
    · next hsample =>
      refine Ends.refl h ⟨a, ?_⟩
      simp only [Executor.returnTo]
      rw [if_pos hsample, hleft]
    · next hsample =>
      refine wp_statementEvent_ends (keptBy_programs x) (makes_buildEventForUtility a _ _ _ _) h
        fun client queryText => ⟨{ a with client, queryText }, ?_⟩
      simp only [Executor.returnTo]
      rw [if_neg hsample, hleft]
      rfl
  · next hother =>
    refine Ends.refl h ⟨a, ?_⟩
    rw [hleft, Executor.returnTo]
    exact hother

end BackendHooks

end PgStatCh
