import PgStatCh.Export.ChcConversation

/-!
# Export.ChcCommit — `CommitBatch` with its objects

`CommitBatch` has three guards: the batch's memory context, the block builder, and `bb_`. An
exception runs their destructors, a jump runs none of them; what they would have released is then
left behind in a memory context.

For each part it is said with the same rule what it leaves (`Has`) and what it comes to without the
objects: `EndsAs`, for some replies of the outside to the exporter of `Exporter`. The result is
`wp_commitBatch`.
-/

namespace PgStatCh

open Lib Prog

namespace ChcResources

/-! ## `CommitBatch` -/

/-- Without a client there is nothing of a connection. -/
def Exporter.Tidy (x : Exporter) : Prop := x.client = none → x.Idle

/-! ### The exporter without its objects -/

/-- No message is left by an ERROR. -/
def Silent (plan : Plan) : Prop := ∀ l, plan (.log l) = .ok

/-- `RecordFailure` of the exporter without its objects, after its message. -/
def baseFailure (message : String) (closeConn : Bool) : ClickHouseExporter.M Bool := do
  modify fun s => { s with exporter.consecutiveFailures := s.exporter.consecutiveFailures + 1 }
  recordExporterFailure message
  if closeConn then
    ClickHouseExporter.closeConnection
    pure false
  else pure false

/-- `EstablishNewConnection` of the exporter without its objects, with its memory contexts there. -/
def baseConnect (plan : Plan) : ClickHouseExporter.M Bool := do
  ClickHouseExporter.closeConnection
  match ← plan.call .connect with
  | some _ =>
    modify fun s => { s with exporter.client := decide (plan .noClient ≠ .ok) }
    plan.log .connectFailed
    ClickHouseExporter.closeConnection
    pure false
  | none =>
    modify fun s => { s with exporter.client := true }
    plan.log .connected
    pure true

section Silent

variable {plan : Plan}

/-- A message that is not left by an `ERROR` does nothing. -/
theorem Silent.log_bind (h : Silent plan) {α : Type} (l : LogStatement)
    (x : Unit → ExportM ClickHouseExporter α) : (plan.log l >>= x) = x () := by
  rw [Plan.log, h l]
  rfl

/-- `RecordFailure` under such a plan. -/
theorem Silent.recordFailure (h : Silent plan) (message : String) (closeConn : Bool) :
    ClickHouseExporter.recordFailure plan message closeConn = baseFailure message closeConn :=
  h.log_bind _ _

/-- A connection is made or not, and that is all that changes. -/
theorem Silent.wp_baseConnect (h : Silent plan) {ok : Bool} {b : ExportState ClickHouseExporter}
    (hconnect : plan .connect = if ok then .ok else .fails "") :
    wp (baseConnect plan) (fun r t => r = ok ∧ t = { b with exporter.client := ok })
      (fun _ _ => False) b := by
  rw [baseConnect, wp_bind, ClickHouseExporter.closeConnection, wp_modify, wp_bind, Plan.call,
    hconnect]
  cases ok with
  | true =>
    simp only [h.log_bind]
    exact ⟨rfl, rfl⟩
  | false =>
    simp only [h.log_bind]
    exact ⟨rfl, rfl⟩

end Silent

section Commit

variable {s : ExportState Exporter} {L : Multiset (Obj Kind)} {bb : ℕ}

/-- `RecordFailure` counts the failure and closes the connection where it is told to. -/
theorem wp_recordFailure {message : String} {closeConn : Bool} {warning : Logged}
    (h : Has L s.exporter) (hL : ∀ o ∈ L, o.kind.inside .conn = false) :
    wp (recordFailure message closeConn warning)
      (fun ok s' => Has L s'.exporter ∧
        baseFailure message closeConn (base s) = .ok ok (base s') ∧
        (s.exporter.Tidy ∨ closeConn = true → s'.exporter.Tidy))
      (Halts L) s := by
  rw [recordFailure, wp_bind]
  refine wp_log ?_ ⟨Or.inl rfl, h⟩ ⟨Or.inr rfl, h⟩
  rw [wp_bind, wp_modify]
  cases closeConn with
  | false =>
    refine ⟨h.other, rfl, fun htidy hclient => ?_⟩
    rcases htidy with htidy | hfalse
    · exact htidy hclient
    · cases hfalse
  | true =>
    rw [if_pos rfl, wp_bind]
    refine wp_closeConnection_has h.other hL fun w h => ?_
    exact ⟨h, rfl, fun _ _ => ⟨rfl, rfl, rfl, rfl, rfl⟩⟩

/-- Without the objects only two fields have changed. -/
theorem Established.base_eq {ok : Bool} {s' : ExportState Exporter} (h : Established s ok s')
    (hready : s'.exporter.memoryContextsReady = true) :
    base s' = { base s with
      exporter.memoryContextsReady := true, exporter.client := ok } := by
  have hbase : base s' = { base s with
      exporter.memoryContextsReady := s'.exporter.memoryContextsReady
      exporter.client := s'.exporter.client.isSome } := congrArg base h.kept
  rwa [hready, h.client] at hbase

/-- What is asked of the outside in `EstablishNewConnection` comes down to two replies. -/
theorem Established.establishNewConnection {ok : Bool} {s' : ExportState Exporter}
    (h : Established s ok s') :
    ∃ contexts connect, ∀ plan : Plan, Silent plan → plan .memoryContexts = contexts →
      plan .connect = connect →
      ClickHouseExporter.establishNewConnection plan (base s) = .ok ok (base s') := by
  rcases h.ready with hready | ⟨rfl, hready, hbase⟩
  · -- the memory contexts are there afterwards: the connection decides
    refine ⟨.ok, if ok then .ok else .fails "", fun plan hsilent hcontexts hconnect => eq_ok ?_⟩
    have hbase := h.base_eq hready
    rw [ClickHouseExporter.establishNewConnection, wp_bind, ClickHouseExporter.ensureMemoryContexts,
      wp_bind, wp_get]
    have hconnected : wp (baseConnect plan) (fun b t => b = ok ∧ t = base s') (fun _ _ => False)
        { base s with exporter.memoryContextsReady := true } := by
      rw [hbase]
      exact hsilent.wp_baseConnect hconnect
    split
    · next hwas =>
      have hsame : base s = { base s with exporter.memoryContextsReady := true } := by
        rw [← hwas]
      rw [wp_pure, if_pos rfl, hsame]
      exact hconnected
    · rw [wp_bind, Plan.call, hcontexts]
      exact hconnected
  · -- they could not be created
    refine ⟨.fails "", .ok, fun plan _ hcontexts _ => eq_ok ?_⟩
    rw [ClickHouseExporter.establishNewConnection, wp_bind, ClickHouseExporter.ensureMemoryContexts,
      wp_bind, wp_get]
    split
    · next hwas => cases hready.symm.trans hwas
    · rw [wp_bind, Plan.call, hcontexts]
      exact ⟨rfl, hbase.symm⟩

/-- What `CommitBatch` does with a block, as far as the exporter without its objects goes: two
replies say it. -/
def InsertsAs (s : ExportState Exporter)
    (r : EStateM.Result Exit (ExportState ClickHouseExporter) Bool) : Prop :=
  ∃ crunch send, ∀ plan : Plan, Silent plan → plan .crunch = crunch →
    plan (.send s.sent) = send → ClickHouseExporter.insertBlock plan (base s) = r

/-- A column's `Crunch` throws, which is before the block is sent. -/
theorem insertsAs_crunch_throws (s : ExportState Exporter) (e : Exception) :
    InsertsAs s (.error (.exception e) (base s)) := by
  refine ⟨.throws e, .ok, fun plan _ hcrunch _ => ?_⟩
  rw [ClickHouseExporter.insertBlock, Plan.call, hcrunch]
  rfl

/-- The block cannot be built, which leaves the connection open. -/
theorem insertsAs_crunch_fails (s : ExportState Exporter) (message : String) :
    InsertsAs s (baseFailure (orText message "block build failed") false (base s)) := by
  refine ⟨.fails message, .ok, fun plan hsilent hcrunch _ => ?_⟩
  rw [← hsilent.recordFailure, ClickHouseExporter.insertBlock, Plan.call, hcrunch]
  rfl

/-- What becomes of a request of the exporter without its objects. -/
theorem plan_send (plan : Plan) (b : ExportState ClickHouseExporter) (rows : List PschEvent) :
    plan.send rows b =
      match plan (.send b.sent) with
      | .ok => .ok none { b with sent := b.sent + 1, acked := b.acked ++ [rows] }
      | .fails message => .ok (some message) { b with sent := b.sent + 1 }
      | .throws e => .error (.exception e) { b with sent := b.sent + 1 }
      | .raises => .error .error { b with sent := b.sent + 1 } := by
  change (plan.call (.send b.sent) >>= _) { b with sent := b.sent + 1 } = _
  rw [Plan.call]
  cases plan (.send b.sent) <;> rfl

/-- The block is sent. -/
theorem insertsAs_send (s : ExportState Exporter) (step : Chc.Step) :
    InsertsAs s
      (match step with
        | .ok => .ok true { base s with
            sent := s.sent + 1, acked := s.acked ++ [s.exporter.columns]
            exporter.consecutiveFailures := 0 }
        | .fails message =>
          baseFailure message true { base s with sent := s.sent + 1 }
        | .throws e => .error (.exception e) { base s with sent := s.sent + 1 }) := by
  refine ⟨.ok, step.reply, fun plan hsilent hcrunch hsend => ?_⟩
  have hreply : plan (.send (base s).sent) = step.reply := hsend
  rw [ClickHouseExporter.insertBlock, Plan.call, hcrunch]
  change (plan.log .inserting >>= fun _ => _) (base s) = _
  rw [hsilent.log_bind]
  change (plan.send s.exporter.columns >>= _) (base s) = _
  simp only [hsilent.log_bind, hsilent.recordFailure]
  simp only [bind, EStateM.bind, plan_send, hreply]
  cases step <;> rfl

/-- With a client there is nothing to be tidied. -/
theorem tidy_of_client {x : Exporter} (h : x.client.isSome) : x.Tidy := by
  intro hnone
  rw [hnone] at h
  cases h

/-- The block is built and sent: the objects are those of the start, unless the connection is
closed, and the exporter without them goes the same way. -/
theorem wp_insertBlock {io : CommitScript} {cols : List Chc.Column} (h : Has L s.exporter)
    (hL : ∀ o ∈ L, o.kind.inside .conn = false) (hbuilder : ⟨.builder, bb⟩ ∈ L)
    (hbb : s.exporter.bb = some bb) (htypes : s.exporter.bbTypes = [])
    (hclient : s.exporter.client.isSome) (hready : s.exporter.memoryContextsReady = true) :
    wp (insertBlock io cols bb)
      (fun ok s' => Has L s'.exporter ∧ s'.exporter.Tidy ∧ InsertsAs s (.ok ok (base s')))
      (Leaves L fun e s' => InsertsAs s (.error (.exception e) (base s'))) s := by
  have hcrunching : Crunching bb s { s with exporter.buildErr := none } := by
    refine ⟨rfl, hbb, fun t ht => ?_⟩
    change t ∈ s.exporter.bbTypes at ht
    rw [htypes] at ht
    cases ht
  rw [insertBlock, wp_bind, wp_modify, wp_bind]
  refine wp_mono (wp_crunchAll h.other hbuilder hready hcrunching) ?_ fun e s' he => he.mono ?_
  · rintro _ s' ⟨h, hc⟩
    have hclient' : s'.exporter.client.isSome := by
      have hbase : s'.exporter.client.isSome = s.exporter.client.isSome :=
        congrArg (fun b => b.exporter.client) hc.base
      rw [hbase, hclient]
    rw [wp_bind, wp_get]
    split
    · next message _ =>
      -- the block could not be built
      refine wp_mono (wp_recordFailure h hL) ?_ fun _ _ => Halts.leaves
      rintro ok s'' ⟨h, hbase, htidy⟩
      refine ⟨h, htidy (Or.inl (tidy_of_client hclient')), ?_⟩
      rw [← hbase, hc.base]
      exact insertsAs_crunch_fails s message
    · rw [wp_bind]
      refine wp_log ?_ ⟨h, trivial⟩ ⟨h, trivial⟩
      -- what the request is numbered with
      have hsent : base { s' with sent := s'.sent + 1 } = { base s with sent := s.sent + 1 } := by
        change { base s' with sent := (base s').sent + 1 } = _
        rw [hc.base]
        rfl
      have htalking : Talking L bb { s' with sent := s'.sent + 1 }
          { s' with sent := s'.sent + 1 } :=
        ⟨h, ⟨_, rfl⟩, hclient', hc.connCxt hready, hc.points, hbuilder⟩
      rw [wp_bind, wp_modify, wp_bind]
      refine wp_mono (wp_sendInsert htalking) ?_ fun e s'' he => he.mono ?_
      · intro message s'' ht
        have hbase : base s'' = { base s with sent := s.sent + 1 } := ht.base_eq.trans hsent
        cases message with
        | some message =>
          -- the insert failed: the connection is closed, with the types that the builder points to
          refine wp_mono (wp_recordFailure ht.has hL) ?_ fun _ _ => Halts.leaves
          rintro ok s₃ ⟨h, hfail, htidy⟩
          refine ⟨h, htidy (Or.inr rfl), ?_⟩
          rw [← hfail, hbase]
          exact insertsAs_send s (.fails message)
        | none =>
          rw [wp_bind, wp_modify, wp_bind]
          refine wp_log ?_ ⟨ht.has.other, trivial⟩ ⟨ht.has.other, trivial⟩
          refine ⟨ht.has.other, tidy_of_client ht.client, ?_⟩
          change InsertsAs s (.ok true { base s'' with
            acked := (base s'').acked ++ [(base s'').exporter.columns]
            exporter.consecutiveFailures := 0 })
          rw [hbase]
          exact insertsAs_send s .ok
      · -- an exception in the conversation
        rintro x s'' ht
        have hbase : base s'' = { base s with sent := s.sent + 1 } := ht.base_eq.trans hsent
        rw [hbase]
        exact insertsAs_send s (.throws x)
  · -- one in a column
    intro x s' hbase
    rw [hbase]
    exact insertsAs_crunch_throws s x

/-- There is a client afterwards, or nothing of a connection. -/
theorem wp_ensureClient {cfg : Tls} {io : ConnectScript} (h : Has L s.exporter)
    (hL : ∀ o ∈ L, o.kind.inside .conn = false)
    (hready : s.exporter.memoryContextsReady = true) :
    wp (ensureClient cfg io)
      (fun ok s' => Has L s'.exporter ∧ Kept s s' ∧ s'.exporter.client.isSome = ok ∧
        s'.exporter.memoryContextsReady = true ∧ s'.exporter.Tidy ∧
        ∃ contexts connect, ∀ plan : Plan, Silent plan → plan .memoryContexts = contexts →
          plan .connect = connect →
          ClickHouseExporter.ensureClient plan (base s) = .ok ok (base s'))
      (Halts L) s := by
  rw [ensureClient, wp_bind, wp_get]
  split
  · next hclient =>
    refine ⟨h, rfl, hclient, hready, tidy_of_client hclient, .ok, .ok, fun plan _ _ _ => eq_ok ?_⟩
    have hbase : (base s).exporter.client = true := hclient
    rw [ClickHouseExporter.ensureClient, wp_bind, wp_get, if_pos hbase]
    exact ⟨rfl, rfl⟩
  · next hclient =>
    have hbase : ¬ (base s).exporter.client = true := hclient
    rw [wp_bind]
    refine wp_mono (wp_establishNewConnection h hL) ?_ fun _ _ => id
    rintro ok s' ⟨h, hest⟩
    -- the contexts were there, so this is not why it failed
    have hready' : s'.exporter.memoryContextsReady = true := by
      rcases hest.ready with hready' | ⟨-, hnot, -⟩
      · exact hready'
      · cases hready.symm.trans hnot
    have htidy : s'.exporter.Tidy := by
      cases ok with
      | false => exact fun _ => hest.idle rfl
      | true => exact tidy_of_client hest.client
    obtain ⟨contexts, connect, hplan⟩ := hest.establishNewConnection
    have hensure : ∀ plan : Plan, Silent plan → plan .memoryContexts = contexts →
        plan .connect = connect →
        ClickHouseExporter.ensureClient plan (base s) = .ok ok (base s') := by
      intro plan hsilent hcontexts hconnect
      refine eq_ok ?_
      rw [ClickHouseExporter.ensureClient, wp_bind, wp_get, if_neg hbase, wp_bind,
        wp_iff_of_ok (hplan plan hsilent hcontexts hconnect)]
      cases ok with
      | false => exact ⟨rfl, rfl⟩
      | true => exact ⟨hest.client, rfl⟩
    cases ok with
    | false => exact ⟨h, hest.kept, hest.client, hready', htidy, contexts, connect, hensure⟩
    | true =>
      rw [if_pos rfl, wp_bind, wp_get, wp_pure, hest.client]
      exact ⟨h, hest.kept, rfl, hready', htidy, contexts, connect, hensure⟩

/-- `CommitBatch` of the exporter without its objects, with a block builder. -/
def baseBlock (plan : Plan) : ClickHouseExporter.M Bool := do
  if ← ClickHouseExporter.ensureClient plan then ClickHouseExporter.insertBlock plan
  else ClickHouseExporter.recordFailure plan "connection not established" false

/-- The replies that say what becomes of the block. -/
def BlockAs (s : ExportState Exporter)
    (r : EStateM.Result Exit (ExportState ClickHouseExporter) Bool) : Prop :=
  ∃ plan : Plan, Silent plan ∧ plan .blockBuilderInit = .ok ∧ baseBlock plan (base s) = r

/-- A plan with these replies. -/
def planOf (init contexts connect crunch send : Reply) : Plan
  | .blockBuilderInit => init
  | .memoryContexts => contexts
  | .connect => connect
  | .crunch => crunch
  | .send _ => send
  | _ => .ok

/-- Such a plan has no `ERROR`. -/
theorem silent_planOf {init contexts connect crunch send : Reply} :
    Silent (planOf init contexts connect crunch send) := fun _ => rfl

/-- How a part of `CommitBatch` ends, with the exporter tidy under assumption `T`: `R` says what
it comes to without the objects. -/
def EndsAs (L : Multiset (Obj Kind)) (x : M Bool) (T : Prop)
    (R : EStateM.Result Exit (ExportState ClickHouseExporter) Bool → Prop)
    (s : ExportState Exporter) : Prop :=
  wp x (fun ok s' => Has L s'.exporter ∧ (T → s'.exporter.Tidy) ∧ R (.ok ok (base s')))
    (Leaves L fun e s' => R (.error (.exception e) (base s'))) s

/-- A destructor runs where the part returns or throws; where it is jumped over, the objects that
it would release are left behind. -/
theorem EndsAs.withCleanup {L' : Multiset (Obj Kind)} {x : M Bool} {cleanup : M Unit} {T : Prop}
    {R : EStateM.Result Exit (ExportState ClickHouseExporter) Bool → Prop}
    (h : EndsAs L x T R s) (hskip : ∀ x, Has L x → Has L' x)
    (hcleanup : ∀ s', Has L s'.exporter → wp cleanup
      (fun _ s'' => Has L' s''.exporter ∧ base s'' = base s' ∧
        (s'.exporter.Tidy → s''.exporter.Tidy)) (fun _ _ => False) s') :
    EndsAs L' (withCleanup Stop.unwinds cleanup x) T R s := by
  refine wp_withCleanup (wp_mono h ?_ ?_)
  · rintro ok s' ⟨h, htidy, hr⟩
    refine wp_mono (hcleanup s' h) ?_ fun _ _ => False.elim
    rintro _ s'' ⟨h, hbase, htidy'⟩
    refine ⟨h, fun ht => htidy' (htidy ht), ?_⟩
    rw [hbase]
    exact hr
  · rintro e s' ⟨h, he⟩
    cases e with
    | exception x =>
      -- the destructor runs while the exception is on its way
      refine wp_mono (hcleanup s' h) ?_ fun _ _ => False.elim
      rintro _ s'' ⟨h, hbase, -⟩
      refine ⟨h, ?_⟩
      change R (.error (.exception x) (base s''))
      rw [hbase]
      exact he
    -- it is jumped over
    | error => exact ⟨hskip _ h, trivial⟩
    | exit => exact ⟨hskip _ h, trivial⟩
    | fault => exact he.elim

/-- `CommitBatch` with a builder, inside the guard of `bb_`. -/
theorem endsAs_commitBlock {cfg : Tls} {io : CommitScript} {cols : List Chc.Column} (T : Prop)
    (h : Has L s.exporter) (hL : ∀ o ∈ L, o.kind.inside .conn = false)
    (hbuilder : ⟨.builder, bb⟩ ∈ L) (hready : s.exporter.memoryContextsReady = true) :
    EndsAs L (commitBlock cfg io cols bb) T (BlockAs s) s := by
  rw [EndsAs, commitBlock, wp_bind, wp_modify]
  refine EndsAs.withCleanup (L := L) ?_ (fun _ => id) fun s' h => ?_
  · rw [EndsAs, wp_bind]
    refine wp_mono (wp_ensureClient h.other hL hready) ?_ fun _ _ => Halts.leaves
    rintro ok s' ⟨h, hkept, hclient, hready', htidy, contexts, connect, hensure⟩
    have hbb : s'.exporter.bb = some bb := by rw [hkept]
    have htypes : s'.exporter.bbTypes = [] := by rw [hkept]
    -- what follows on `ensureClient`
    have hblock : ∀ crunch send, baseBlock (planOf .ok contexts connect crunch send) (base s) =
        (if ok then ClickHouseExporter.insertBlock (planOf .ok contexts connect crunch send)
          else baseFailure "connection not established" false) (base s') := by
      intro crunch send
      have hsilent : Silent (planOf .ok contexts connect crunch send) := silent_planOf
      have heq : ClickHouseExporter.ensureClient (planOf .ok contexts connect crunch send)
          (base s) = .ok ok (base s') := hensure _ hsilent rfl rfl
      rw [← hsilent.recordFailure]
      change (ClickHouseExporter.ensureClient _ >>= _) (base s) = _
      simp only [bind, EStateM.bind, heq]
    cases ok with
    | false =>
      -- no connection
      refine wp_mono (wp_recordFailure h hL) ?_ fun _ _ => Halts.leaves
      rintro ok s'' ⟨h, hfail, htidy'⟩
      refine ⟨h, fun _ => htidy' (Or.inl htidy), planOf .ok contexts connect .ok .ok,
        silent_planOf, rfl, ?_⟩
      rw [hblock, if_neg Bool.false_ne_true]
      exact hfail
    | true =>
      refine wp_mono (wp_insertBlock h hL hbuilder hbb htypes hclient hready') ?_
        fun e s'' he => he.mono ?_
      · rintro ok s'' ⟨h, htidy', crunch, send, hinsert⟩
        refine ⟨h, fun _ => htidy', planOf .ok contexts connect crunch send, silent_planOf,
          rfl, ?_⟩
        rw [hblock, if_pos rfl]
        exact hinsert _ silent_planOf rfl rfl
      · rintro x s'' ⟨crunch, send, hinsert⟩
        refine ⟨planOf .ok contexts connect crunch send, silent_planOf, rfl, ?_⟩
        rw [hblock, if_pos rfl]
        exact hinsert _ silent_planOf rfl rfl
  · exact ⟨h.other, rfl, id⟩

/-- The reset of the batch's context takes what jumps have left in it, and no field. -/
theorem wp_resetBatchContext (h : Has 0 s.exporter) :
    wp resetBatchContext
      (fun _ s' => Has 0 s'.exporter ∧ base s' = base s ∧
        (s.exporter.Tidy → s'.exporter.Tidy)) (fun _ _ => False) s := by
  rw [resetBatchContext, wp_bind, wp_get]
  split
  · exact ⟨h, rfl, id⟩
  · next cxt hcxt =>
    obtain ⟨J, h, hJ⟩ := h
    rw [zero_add] at h
    have hmem : ⟨.context .batch, cxt⟩ ∈ s.exporter.objects.live := by
      rw [h.live]
      simp [Exporter.outer, hcxt]
    rw [wp_bind]
    refine wp_memoryContextReset hmem fun w hw => ?_
    have hlive : w.live =
        s.exporter.outer + s.exporter.inner + Objects.outside (Kind.inside .batch) J := by
      rw [hw, h.live, Objects.outside_add, Objects.outside_add,
        Objects.outside_eq_self fun o ho => inside_outer ho .batch,
        Objects.outside_eq_self fun o ho => (inside_inner ho).2]
    have hi := h.shrink (Multiset.filter_le _ J) hlive
    refine ⟨⟨Objects.outside (Kind.inside .batch) J, ?_, fun o ho => ?_⟩, rfl, id⟩
    · rw [zero_add]
      exact ⟨hi.live, hi.contexts, hi.connAl, hcxt.symm, hi.idle, hi.sslFd, hi.io⟩
    · exact hJ o (Objects.mem_outside.mp ho).1

/-- `CommitBatch` of the exporter without its objects, with its memory contexts there. -/
def baseBody (plan : Plan) : ClickHouseExporter.M Bool := do
  match ← plan.call .blockBuilderInit with
  | some message => ClickHouseExporter.recordFailure plan (orText message "OOM") false
  | none => baseBlock plan

/-- Some replies say what becomes of the whole. -/
def BodyAs (s : ExportState Exporter)
    (r : EStateM.Result Exit (ExportState ClickHouseExporter) Bool) : Prop :=
  ∃ plan : Plan, Silent plan ∧ baseBody plan (base s) = r

/-- The builder could be made. -/
theorem BlockAs.body {r : EStateM.Result Exit (ExportState ClickHouseExporter) Bool}
    (h : BlockAs s r) : BodyAs s r := by
  obtain ⟨plan, hsilent, hinit, hr⟩ := h
  refine ⟨plan, hsilent, ?_⟩
  rw [baseBody, Plan.call, hinit]
  exact hr

/-- The builder is destroyed without a look at its types, which may be gone. -/
theorem wp_blockBuilderDeleter {Q : Unit → ExportState Exporter → Prop}
    {E : Stop → ExportState Exporter → Prop} {readsTypes : Bool} (hdestroy : readsTypes = false)
    (h : Has (⟨.builder, bb⟩ ::ₘ L) s.exporter)
    (hQ : ∀ w, Has L { s.exporter with objects := w } → Q () { s with exporter.objects := w }) :
    wp (blockBuilderDeleter readsTypes bb) Q E s := by
  subst hdestroy
  rw [blockBuilderDeleter, if_neg Bool.false_ne_true]
  exact wp_release_has h hQ

/-- `CommitBatch` with its memory contexts there, inside its guard of the batch's context. -/
theorem endsAs_body {cfg : Setup} {io : CommitScript} {cols : List Chc.Column}
    (hdestroy : cfg.destroyReadsTypes = false) (h : Has 0 s.exporter)
    (hready : s.exporter.memoryContextsReady = true) :
    EndsAs 0
      (withCleanup Stop.unwinds resetBatchContext (do
        match io.builderInit with
        | some message => recordFailure (orText message "OOM") false io.failed
        | none =>
          let bb ← allocate .batch s.exporter.batchAl .builder
          withCleanup Stop.unwinds (blockBuilderDeleter cfg.destroyReadsTypes bb)
            (commitBlock cfg.toTls io cols bb)))
      s.exporter.Tidy (BodyAs s) s := by
  refine EndsAs.withCleanup (L := 0) ?_ (fun _ => id) fun s' h => wp_resetBatchContext h
  split
  · next message _ =>
    -- `chc_block_builder_init` fails
    refine wp_mono (wp_recordFailure h notMem_zero_inside) ?_ fun _ _ => Halts.leaves
    rintro ok s' ⟨h, hfail, htidy⟩
    refine ⟨h, fun ht => htidy (Or.inl ht), planOf (.fails message) .ok .ok .ok .ok,
      silent_planOf, ?_⟩
    rw [← hfail]
    rfl
  · rw [Exporter.memoryContextsReady, Bool.and_eq_true] at hready
    obtain ⟨cxt, hcxt⟩ := Option.isSome_iff_exists.mp hready.2
    have hmem : ⟨.context .batch, cxt⟩ ∈ s.exporter.objects.live := by
      obtain ⟨J, h, -⟩ := h
      rw [h.live]
      simp [Exporter.outer, hcxt]
    have hal : s.exporter.batchAl = some cxt := by
      obtain ⟨J, h, -⟩ := h
      exact h.batchAl.trans hcxt
    rw [EndsAs, wp_bind]
    refine wp_allocate hal hmem fun bb w hw => ?_
    have hbb : Has (⟨.builder, bb⟩ ::ₘ 0) { s.exporter with objects := w } :=
      h.add hw fun hnone => absurd_of_isSome hready.1 hnone
    -- jumped over, the builder is left behind in the batch's context
    refine EndsAs.withCleanup (L := ⟨.builder, bb⟩ ::ₘ 0) ?_ (fun x h => h.leave (c := .batch) rfl)
      fun s' h => ?_
    · refine wp_mono (endsAs_commitBlock s.exporter.Tidy hbb (fun o ho => ?_)
        (Multiset.mem_cons_self _ _) ?_) ?_ fun e s' he => he.mono ?_
      · rcases Multiset.mem_cons.mp ho with rfl | ho
        · rfl
        · exact notMem_zero_inside o ho
      · rw [Exporter.memoryContextsReady, Bool.and_eq_true]
        exact hready
      · rintro ok s' ⟨h, htidy, hblock⟩
        exact ⟨h, htidy, BlockAs.body hblock⟩
      · exact fun x s' hblock => BlockAs.body hblock
    · exact wp_blockBuilderDeleter hdestroy h fun w h => ⟨h, rfl, id⟩

/-- The handler of `ClickHouseExporter.commitBatch`, after its message. -/
def baseCaught : Exception → ExportM ClickHouseExporter Bool
  | .badAlloc => baseFailure "out of memory" true
  | .std what => baseFailure what true

section BaseCommit

variable {plan : Plan} {b b' b'' : ExportState ClickHouseExporter} {ok : Bool}

/-- `CommitBatch` without the objects: the body returns, -/
theorem baseCommit_of_ok (hready : b.exporter.memoryContextsReady = true)
    (hr : baseBody plan b = .ok ok b') : ClickHouseExporter.commitBatch plan b = .ok ok b' := by
  refine eq_ok (wp_catching (M := fun _ _ => False) ?_ (fun _ _ => False.elim) fun _ => False.elim)
  rw [wp_bind, wp_get, if_pos hready]
  change wp (baseBody plan) _ _ b
  rw [wp_iff_of_ok hr]
  exact ⟨rfl, rfl⟩

/-- or it throws, and the handler records the failure. -/
theorem baseCommit_of_error {e : Exception} (hsilent : Silent plan)
    (hready : b.exporter.memoryContextsReady = true)
    (hr : baseBody plan b = .error (.exception e) b') (hcaught : baseCaught e b' = .ok ok b'') :
    ClickHouseExporter.commitBatch plan b = .ok ok b'' := by
  refine eq_ok (wp_catching (M := fun x s' => x = .exception e ∧ s' = b') ?_ ?_ nofun)
  · rw [wp_bind, wp_get, if_pos hready]
    change wp (baseBody plan) _ _ b
    rw [wp, hr]
    exact ⟨rfl, rfl⟩
  · rintro e' s' ⟨he, rfl⟩
    obtain rfl : e' = e := Exit.exception.inj he
    simp only [hsilent.recordFailure]
    cases e' with
    | badAlloc => exact (wp_iff_of_ok hcaught).mpr ⟨rfl, rfl⟩
    | std what => exact (wp_iff_of_ok hcaught).mpr ⟨rfl, rfl⟩

end BaseCommit

/-- `CommitBatch` gives back what it takes, however it is left, and does what the exporter without
the objects does for some replies of the outside. -/
theorem wp_commitBatch {cfg : Setup} {io : CommitScript} {cols : List Chc.Column}
    (hdestroy : cfg.destroyReadsTypes = false) (h : Has 0 s.exporter) :
    wp (commitBatch cfg io cols)
      (fun ok s' => Has 0 s'.exporter ∧ (s.exporter.Tidy → s'.exporter.Tidy) ∧
        ∃ plan, ClickHouseExporter.commitBatch plan (base s) = .ok ok (base s'))
      (Halts 0) s := by
  rw [commitBatch, wp_tryCatch, wp_bind, wp_get]
  split
  · next hready =>
    refine wp_mono (endsAs_body hdestroy h hready) ?_ ?_
    · rintro ok s' ⟨h, htidy, plan, -, hplan⟩
      exact ⟨h, htidy, plan, baseCommit_of_ok hready hplan⟩
    · rintro e s' ⟨h, he⟩
      cases e with
      | exception x =>
        obtain ⟨plan, hsilent, hplan⟩ := he
        cases x with
        | badAlloc =>
          refine wp_mono (wp_recordFailure h notMem_zero_inside) ?_ fun _ _ => id
          rintro ok s'' ⟨h, hfail, htidy⟩
          exact ⟨h, fun _ => htidy (Or.inr rfl), plan,
            baseCommit_of_error hsilent hready hplan hfail⟩
        | std what =>
          refine wp_mono (wp_recordFailure h notMem_zero_inside) ?_ fun _ _ => id
          rintro ok s'' ⟨h, hfail, htidy⟩
          exact ⟨h, fun _ => htidy (Or.inr rfl), plan,
            baseCommit_of_error hsilent hready hplan hfail⟩
      | error => exact ⟨Or.inl rfl, h⟩
      | exit => exact ⟨Or.inr rfl, h⟩
      | fault => exact he.elim
  · next hready =>
    -- without memory contexts there is nothing to build a block in
    refine wp_mono (wp_recordFailure h notMem_zero_inside) ?_ ?_
    · rintro ok s' ⟨h, hfail, htidy⟩
      have hsilent : Silent fun _ => .ok := fun _ => rfl
      refine ⟨h, fun ht => htidy (Or.inl ht), fun _ => .ok, eq_ok ?_⟩
      refine wp_catching (M := fun _ _ => False) ?_ (fun _ _ => False.elim) fun _ => False.elim
      have hbase : ¬ (base s).exporter.memoryContextsReady = true := hready
      rw [wp_bind, wp_get, if_neg hbase, hsilent.recordFailure, wp_iff_of_ok hfail]
      exact ⟨rfl, rfl⟩
    · rintro e s' ⟨rfl | rfl, h⟩
      · exact ⟨Or.inl rfl, h⟩
      · exact ⟨Or.inr rfl, h⟩

end Commit

end ChcResources

end PgStatCh
