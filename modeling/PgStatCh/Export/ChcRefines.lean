import PgStatCh.Export.ChcBlocks
import PgStatCh.Export.Simulation

/-!
# Export.ChcRefines — the ClickHouse exporter with and without columns and conversation

A round of the exporter with columns and conversation does what a call of `PschExportBatch` does
with `ClickHouseExporter`: whatever its scripts say adds up to one reply at each point of a plan.
So what is known of `ClickHouseExporter` under every plan holds here as well.
-/

namespace PgStatCh

open Lib Prog

namespace Chc

/-! ## The plan of a round -/

/-- One reply after the other, up to the first that is not `ok`. -/
def andThen : Reply → Reply → Reply
  | .ok, next => next
  | reply, _ => reply

/-- The reply of a call that is left like this. -/
def exitReply : Exit → Reply
  | .exception e => .throws e
  | .error => .raises

/-- What becomes of a program on the columns. -/
def outcome {α : Type} (x : StoreM α) (st : Store) : Reply :=
  match x st with
  | .ok _ _ => .ok
  | .error e _ => exitReply e

/-- What becomes of the appends of an event, from append `k` on. -/
def rowReply (fault : ℕ → AppendFault) : ℕ → List Col → Reply
  | _, [] => .ok
  | k, _ :: rest =>
    match fault k with
    | .none => rowReply fault (k + 1) rest
    | .early e => exitReply e
    | .half e => .throws e

/-- What becomes of the columns' `Crunch`, from column `k` on. -/
def crunchReply (steps : ℕ → Step) : ℕ → ℕ → Reply
  | _, 0 => .ok
  | k, n + 1 => andThen (steps k).reply (crunchReply steps (k + 1) n)

def sendReply (text : String) : Step → Reply
  | .fails message => .fails (orText message text)
  | step => step.reply

/-- What becomes of the loop of `RecvUntil`. -/
def recvReply (target : PacketKind) (recv : ℕ → Recv) : ℕ → ℕ → Reply
  | _, 0 => .fails "too many packets awaiting response"
  | i, n + 1 =>
    match recv i with
    | .throws e => .throws e
    | .fails message => .fails (orText message "recv_packet failed")
    | .packet kind displayText =>
      if kind = .exception then .fails (displayText.getD "server exception")
      else if kind = target then .ok
      else recvReply target recv (i + 1) n

/-- What becomes of `RecvUntil`. -/
def untilReply (target : PacketKind) (recv : ℕ → Recv) : Reply :=
  recvReply target recv 0 kMaxRecvPackets

/-- What becomes of `SendInsert`. -/
def insertReply (io : InsertScript) : Reply :=
  andThen (sendReply "send_query failed" io.query)
    (andThen (untilReply .data io.header)
      (andThen (sendReply "send_data failed" io.data)
        (andThen (sendReply "send_data terminator failed" io.terminator)
          (untilReply .endOfStream io.reply))))

/-- Whether a client is left. -/
def clientReply (leavesClient : Bool) : Reply := if leavesClient then .fails "" else .ok

/-- The plan of a round up to the dequeuing. -/
def Round.openingPlan (r : Round) : Plan
  | .log .called => r.called
  | .log .initializing => r.initializing
  | .memoryContexts => r.opening.memoryContexts.reply
  | .connect => r.opening.connect
  | .noClient => clientReply r.opening.leavesClient
  | .log .connectFailed => r.opening.connectFailed
  | .log .connected => r.opening.connected
  | .log .dequeuing => r.dequeuing
  | .reserve => r.reserve.reply
  | .log .exportBatch => r.openingCaught
  | _ => .ok

/-- The plan of a round after that, with these columns. -/
def Round.plan (r : Round) (st : Store) : Plan
  | .log .noEvents => r.noEvents
  | .log .exporting => r.exporting
  | .log .buildingRows => r.faults.buildingRows
  | .beginBatch => outcome (makeCols r.faults.make 0 Col.created fun _ => 0) st.clear
  | .row i => rowReply (r.faults.append i) 0 Col.appended
  | .log .builtRows => r.faults.builtRows
  | .log .eventStats => r.faults.eventStats
  | .blockBuilderInit => r.commit.blockBuilderInit.reply
  | .memoryContexts => r.commit.connect.memoryContexts.reply
  | .connect => r.commit.connect.connect
  | .noClient => clientReply r.commit.connect.leavesClient
  | .log .connectFailed => r.commit.connect.connectFailed
  | .log .connected => r.commit.connect.connected
  | .crunch => crunchReply r.commit.crunch 0 heads.length
  | .log .inserting => r.commit.inserting
  | .send _ => insertReply r.commit.insert
  | .log .inserted => r.commit.inserted
  | .log .recordFailure => r.commit.recordFailure
  | .log .exportBatch => r.caught
  | _ => .ok

/-- The plan has the replies of a connection. -/
structure ConnectScript.Agrees (io : ConnectScript) (plan : Plan) : Prop where
  memoryContexts : plan .memoryContexts = io.memoryContexts.reply
  connect : plan .connect = io.connect
  noClient : plan .noClient = clientReply io.leavesClient
  connectFailed : plan (.log .connectFailed) = io.connectFailed
  connected : plan (.log .connected) = io.connected

/-- The plan has the replies of a commit of `n` columns. -/
structure CommitScript.Agrees (io : CommitScript) (n : ℕ) (plan : Plan) : Prop where
  blockBuilderInit : plan .blockBuilderInit = io.blockBuilderInit.reply
  connect : io.connect.Agrees plan
  crunch : plan .crunch = crunchReply io.crunch 0 n
  inserting : plan (.log .inserting) = io.inserting
  send : ∀ j, plan (.send j) = insertReply io.insert
  inserted : plan (.log .inserted) = io.inserted
  recordFailure : plan (.log .recordFailure) = io.recordFailure

/-! ## Replies -/

/-- The reply that a program stands for, which returns an error message or none. -/
def Answers {σ : Type} (x : EStateM Exit σ (Option String)) (reply : Reply) (s : σ) : Prop :=
  wp x (fun r _ => reply = r.elim .ok .fails) (fun e _ => reply = exitReply e) s

theorem exit_exitReply (e : Exit) : (exitReply e).exit = some e := by
  cases e <;> rfl

theorem answers_send {s : ExportState Exporter} (step : Step) (m : Message) (text : String) :
    Answers (send step m text) (sendReply text step) s := by
  cases step with
  | ok => exact rfl
  | fails message => exact rfl
  | throws e => exact rfl

theorem answers_recvLoop {s : ExportState Exporter} (target : PacketKind) (recv : ℕ → Recv)
    (i n : ℕ) : Answers (recvLoop target recv i n) (recvReply target recv i n) s := by
  induction n generalizing i s with
  | zero => exact rfl
  | succ n ih =>
    unfold recvLoop recvReply
    cases recv i with
    | throws e => exact rfl
    | fails message => exact rfl
    | packet kind displayText =>
      rw [Answers, wp_bind, note, wp_modify]
      simp only
      split
      · exact rfl
      · split
        · exact rfl
        · exact ih (i + 1)

theorem answers_recvUntil {s : ExportState Exporter} (target : PacketKind) (recv : ℕ → Recv) :
    Answers (recvUntil target recv) (untilReply target recv) s :=
  answers_recvLoop target recv 0 kMaxRecvPackets

/-- The next step is taken if the one before it succeeds. -/
theorem Answers.andThen {σ : Type} {x y : EStateM Exit σ (Option String)} {p q : Reply}
    {s : σ} (hx : Answers x p s) (hy : ∀ s', Answers y q s') :
    Answers (do match ← x with | some message => pure (some message) | none => y)
      (Chc.andThen p q) s := by
  rw [Answers, wp_bind]
  refine wp_mono hx ?_ ?_
  · rintro r s' rfl
    cases r with
    | some message => exact rfl
    | none => exact hy s'
  · rintro e s' rfl
    cases e <;> exact rfl

theorem answers_sendInsert (io : InsertScript) (block : Block) (s : ExportState Exporter) :
    Answers (sendInsert io block) (insertReply io) s := by
  rw [Answers, sendInsert, wp_bind, wp_get]
  refine (answers_send io.query _ _).andThen fun s₁ => ?_
  refine (answers_recvUntil .data io.header).andThen fun s₂ => ?_
  refine (answers_send io.data _ _).andThen fun s₃ => ?_
  refine (answers_send io.terminator _ _).andThen fun s₄ => ?_
  exact answers_recvUntil .endOfStream io.reply

theorem outcome_appendCells (fault : ℕ → AppendFault) (vars : Col → ℕ) (ev : PschEvent) (k : ℕ)
    (cs : List Col) (st : Store) :
    outcome (appendCells fault vars ev k cs) st = rowReply fault k cs := by
  induction cs generalizing k st with
  | nil => rfl
  | cons c cs ih =>
    rw [appendCells, rowReply]
    cases fault k with
    | none => exact ih (k + 1) _
    | early e => rfl
    | half e => rfl

/-! ## What the coarser exporter has of a state -/

def Exporter.base (x : Exporter) : ClickHouseExporter where
  memoryContextsReady := x.memoryContextsReady
  client := x.client.isSome
  columns := x.rows
  consecutiveFailures := x.consecutiveFailures
  exportedCount := x.exportedCount

def base (s : ExportState Exporter) : ExportState ClickHouseExporter :=
  { exporter := s.exporter.base, exported := s.exported, sendFailures := s.sendFailures
    lastErrorText := s.lastErrorText, sent := s.sent, acked := s.acked }

def Same (x : Exporter) (y : ClickHouseExporter) : Prop := x.base = y

section Refines

variable {s : ExportState Exporter} {t : ExportState ClickHouseExporter} {plan : Plan}

theorem alike_base (s : ExportState Exporter) : Alike Same s (base s) :=
  ⟨rfl, rfl, rfl, rfl, rfl, rfl⟩

theorem eq_base (h : Alike Same s t) : t = base s := by
  obtain ⟨y, exported, sendFailures, lastErrorText, sent, acked⟩ := t
  obtain ⟨hexporter, rfl, rfl, rfl, rfl, rfl⟩ := h
  rw [base, show s.exporter.base = y from hexporter]

theorem rel_call' {reply : Reply} {p : Point} (h : Alike Same s t) (hplan : plan p = reply) :
    rel (call reply) (plan.call p) (Returns Same) (fun _ => Alike Same) s t := by
  rw [Plan.call, hplan]
  cases reply with
  | ok => exact ⟨rfl, h⟩
  | fails m => exact ⟨rfl, h⟩
  | throws e => exact ⟨rfl, h⟩
  | raises => exact ⟨rfl, h⟩

theorem rel_log' {logged : Reply} {l : LogStatement} (h : Alike Same s t)
    (hplan : plan (.log l) = logged) :
    rel (log logged) (plan.log l) (Returns Same) (fun _ => Alike Same) s t := by
  rw [Plan.log, hplan]
  cases logged with
  | raises => exact ⟨rfl, h⟩
  | _ => exact ⟨rfl, h⟩

theorem rel_recordFailure {logged : Reply} (h : Alike Same s t)
    (hplan : plan (.log .recordFailure) = logged) (message : String) (closeConn : Bool) :
    rel (recordFailure logged message closeConn)
      (ClickHouseExporter.recordFailure plan message closeConn) (Returns Same)
      (fun _ => Alike Same) s t := by
  refine rel_bind (rel_log' h hplan) ?_
  rintro _ _ s₁ t₁ ⟨-, h₁⟩
  obtain rfl := eq_base h₁
  cases closeConn with
  | false => exact ⟨rfl, alike_base _⟩
  | true => exact ⟨rfl, alike_base _⟩

theorem rel_handleException' {α : Type} {logged : Reply} {l : LogStatement} (h : Alike Same s t)
    (hplan : plan (.log l) = logged) (oom : String) (stop : α) (e : Exception) :
    rel (handleException logged oom stop e) (PgStatCh.handleException plan l oom stop e)
      (Returns Same) (fun _ => Alike Same) s t := by
  refine rel_bind (rel_log' h hplan) ?_
  rintro _ _ s₁ t₁ ⟨-, h₁⟩
  exact rel_recordAndStop h₁ _ _

theorem rel_ensureMemoryContexts {io : ConnectScript} (h : Alike Same s t) (hio : io.Agrees plan) :
    rel (ensureMemoryContexts io) (ClickHouseExporter.ensureMemoryContexts plan) (Returns Same)
      (fun _ => Alike Same) s t := by
  obtain rfl := eq_base h
  apply rel_get_bind
  show rel (if s.exporter.memoryContextsReady then _ else _)
    (if s.exporter.memoryContextsReady then _ else _) _ _ _ _
  split
  · exact ⟨rfl, h⟩
  · refine rel_bind (rel_call' h hio.memoryContexts) ?_
    rintro r _ s₁ t₁ ⟨rfl, h₁⟩
    obtain rfl := eq_base h₁
    cases r with
    | some m => exact ⟨rfl, h₁⟩
    | none => exact ⟨rfl, alike_base _⟩

/-- Both have a client that a failed `chc_client_init` has left, or neither. -/
theorem alike_clientLeft {io : ConnectScript} (hio : io.Agrees plan) (s : ExportState Exporter) :
    Alike Same
      { s with exporter.client := if io.leavesClient then some [.broken] else none }
      { base s with exporter.client := decide (plan .noClient ≠ .ok) } := by
  rw [hio.noClient]
  cases io.leavesClient with
  | false => exact alike_base _
  | true => exact alike_base _

theorem rel_establishNewConnection {io : ConnectScript} (h : Alike Same s t)
    (hio : io.Agrees plan) :
    rel (establishNewConnection io) (ClickHouseExporter.establishNewConnection plan)
      (Returns Same) (fun _ => Alike Same) s t := by
  refine rel_bind (rel_ensureMemoryContexts h hio) ?_
  rintro ok _ s₁ t₁ ⟨rfl, h₁⟩
  cases ok with
  | false => exact ⟨rfl, h₁⟩
  | true =>
    refine rel_bind (P := fun _ _ => Alike Same) (rel_modify ?_) ?_
    · obtain rfl := eq_base h₁
      exact alike_base _
    · intro _ _ s₂ t₂ h₂
      refine rel_bind (rel_call' h₂ hio.connect) ?_
      rintro r _ s₃ t₃ ⟨rfl, h₃⟩
      obtain rfl := eq_base h₃
      cases r with
      | some m =>
        refine rel_bind (P := fun _ _ => Alike Same) (rel_modify (alike_clientLeft hio s₃)) ?_
        intro _ _ s₄ t₄ h₄
        refine rel_bind (rel_log' h₄ hio.connectFailed) ?_
        rintro _ _ s₅ t₅ ⟨-, h₅⟩
        obtain rfl := eq_base h₅
        exact ⟨rfl, alike_base _⟩
      | none =>
        refine rel_bind (P := fun _ _ => Alike Same) (rel_modify (alike_base _)) ?_
        intro _ _ s₄ t₄ h₄
        refine rel_bind (rel_log' h₄ hio.connected) ?_
        rintro _ _ s₅ t₅ ⟨-, h₅⟩
        exact ⟨rfl, h₅⟩

theorem rel_ensureClient {io : ConnectScript} (h : Alike Same s t) (hio : io.Agrees plan) :
    rel (ensureClient io) (ClickHouseExporter.ensureClient plan) (Returns Same)
      (fun _ => Alike Same) s t := by
  obtain rfl := eq_base h
  apply rel_get_bind
  show rel (if s.exporter.client.isSome then _ else _)
    (if s.exporter.client.isSome then _ else _) _ _ _ _
  split
  · exact ⟨rfl, h⟩
  · refine rel_bind (rel_establishNewConnection h hio) ?_
    rintro ok _ s₁ t₁ ⟨rfl, h₁⟩
    obtain rfl := eq_base h₁
    cases ok with
    | false => exact ⟨rfl, h₁⟩
    | true => exact ⟨rfl, h₁⟩

/-! ## The INSERT -/

theorem rel_crunch {steps : ℕ → Step} {k : ℕ} {cols : List Column} {block : Block}
    (h : Alike Same s t) (hplan : plan .crunch = crunchReply steps k cols.length) :
    rel (crunch steps k cols block) (plan.call .crunch)
      (fun r m s' t' => Alike Same s' t' ∧
        ((∃ message, r = .error message ∧ m = some message) ∨ ∃ b, r = .ok b ∧ m = none))
      (fun _ => Alike Same) s t := by
  induction cols generalizing k block with
  | nil =>
    rw [Plan.call, hplan]
    exact ⟨h, Or.inr ⟨block, rfl, rfl⟩⟩
  | cons col cols ih =>
    rw [List.length_cons, crunchReply] at hplan
    rw [crunch]
    cases hk : steps k with
    | ok =>
      rw [hk] at hplan
      exact ih hplan
    | fails m =>
      rw [hk] at hplan
      rw [Plan.call, hplan]
      exact ⟨h, Or.inl ⟨m, rfl, rfl⟩⟩
    | throws e =>
      rw [hk] at hplan
      rw [Plan.call, hplan]
      exact ⟨rfl, h⟩

theorem base_saying {said said' : List Message} (hclient : s.exporter.client = some said) :
    base (saying s said') = base s := by
  simp only [base, saying, Exporter.base, hclient, Option.isSome_some]

/-- `SendInsert` is one request, which is acknowledged when it returns no error. -/
theorem rel_sendInsert {io : InsertScript} {block : Block} {said : List Message}
    (hclient : s.exporter.client = some said) (ht : base s = { t with sent := t.sent + 1 })
    (hplan : plan (.send t.sent) = insertReply io) :
    rel (sendInsert io block) (plan.send s.exporter.rows)
      (fun r r' s' t' => r = r' ∧ s'.exporter.rows = s.exporter.rows ∧
        match r with
        | none => t' = base { s' with acked := s'.acked ++ [s.exporter.rows] }
        | some _ => t' = base s')
      (fun _ => Alike Same) s t := by
  have hsend := @wp_sendInsert s said io block
  rw [saying_eq hclient] at hsend
  have hacked : s.acked = t.acked := congrArg ExportState.acked ht
  refine rel_of_wp (wp_and hsend (answers_sendInsert io block s)) ?_ ?_
  · rintro r s' ⟨⟨said', rfl, -⟩, hreply⟩
    rw [hreply] at hplan
    cases r with
    | none =>
      refine PgStatCh.wp_send (fun _ => ⟨rfl, rfl, ?_⟩) (fun m hm => ?_) fun e he => ?_
      · show _ = { base (saying s said') with acked := s.acked ++ [s.exporter.rows] }
        rw [base_saying hclient, ht, hacked]
      · cases hplan.symm.trans hm
      · rw [Plan.exit, hplan] at he
        cases he
    | some message =>
      refine PgStatCh.wp_send (fun hok => ?_) (fun m hm => ?_) fun e he => ?_
      · cases hplan.symm.trans hok
      · obtain rfl : message = m := by simpa using hplan.symm.trans hm
        exact ⟨rfl, rfl, by rw [base_saying hclient, ht]⟩
      · rw [Plan.exit, hplan] at he
        cases he
  · rintro e s' ⟨⟨-, said', rfl⟩, hreply⟩
    rw [hreply] at hplan
    refine PgStatCh.wp_send (fun hok => ?_) (fun m hm => ?_) fun e' he => ?_
    · cases e <;> cases hplan.symm.trans hok
    · cases e <;> cases hplan.symm.trans hm
    · rw [Plan.exit, hplan, exit_exitReply] at he
      obtain rfl := Option.some.inj he
      refine ⟨rfl, ?_⟩
      rw [← ht, ← base_saying hclient]
      exact alike_base _

theorem rel_insertBlock {io : CommitScript} {said : List Message} (h : Alike Same s t)
    (hclient : s.exporter.client = some said)
    (hio : io.Agrees s.exporter.store.columns.length plan) :
    rel (insertBlock io) (ClickHouseExporter.insertBlock plan) (Returns Same)
      (fun _ => Alike Same) s t := by
  apply rel_get_left
  refine rel_bind (rel_and_wp (rel_crunch h hio.crunch) wp_crunch) ?_
  rintro r m s₁ t₁ ⟨⟨h₁, ⟨message, rfl, rfl⟩ | ⟨block, rfl, rfl⟩⟩, rfl, -⟩
  · exact rel_recordFailure h₁ hio.recordFailure _ _
  · have hlog : wp (log io.inserting) (fun _ s' => s' = s₁) (fun _ _ => True) s₁ :=
      wp_log' rfl fun _ => trivial
    refine rel_bind (rel_and_wp (rel_log' h₁ hio.inserting) hlog) ?_
    rintro _ _ s₂ t₂ ⟨⟨-, h₂⟩, rfl⟩
    obtain rfl := eq_base h₂
    apply rel_get_right
    apply rel_modify_left
    refine rel_bind (rel_sendInsert (t := base s₂) hclient rfl (hio.send _)) ?_
    rintro r _ s₃ t₃ ⟨rfl, hrows, ht₃⟩
    cases r with
    | some message =>
      obtain rfl : t₃ = base s₃ := ht₃
      exact rel_recordFailure (alike_base s₃) hio.recordFailure _ _
    | none =>
      obtain rfl := ht₃
      rw [← hrows]
      refine rel_bind (P := fun _ _ => Alike Same) (rel_modify (alike_base _)) ?_
      intro _ _ s₄ t₄ h₄
      refine rel_bind (rel_log' h₄ hio.inserted) ?_
      rintro _ _ s₅ t₅ ⟨-, h₅⟩
      exact ⟨rfl, h₅⟩

theorem rel_commitBatch {io : CommitScript} (h : Alike Same s t)
    (hio : io.Agrees s.exporter.store.columns.length plan) :
    rel (commitBatch io) (ClickHouseExporter.commitBatch plan) (Returns Same)
      (fun _ => Alike Same) s t := by
  refine rel_catching ?_ ?_
  · obtain rfl := eq_base h
    apply rel_get_bind
    show rel (if s.exporter.memoryContextsReady then _ else _)
      (if s.exporter.memoryContextsReady then _ else _) _ _ _ _
    split
    · have hcall : wp (call io.blockBuilderInit.reply) (fun _ s' => s' = s) (fun _ _ => True) s :=
        wp_step rfl (fun _ => rfl) fun _ _ => trivial
      refine rel_bind (rel_and_wp (rel_call' h hio.blockBuilderInit) hcall) ?_
      rintro r _ s₁ t₁ ⟨⟨rfl, h₁⟩, rfl⟩
      cases r with
      | some message => exact rel_recordFailure h₁ hio.recordFailure _ _
      | none =>
        refine rel_bind (rel_and_wp (rel_ensureClient h₁ hio.connect) (@wp_ensureClient _ io)) ?_
        rintro ok _ s₂ t₂ ⟨⟨rfl, h₂⟩, -, hstore, -, hok⟩
        cases ok with
        | false => exact rel_recordFailure h₂ hio.recordFailure _ _
        | true =>
          obtain ⟨said, hsaid⟩ := hok rfl
          rw [← hstore] at hio
          exact rel_insertBlock h₂ hsaid hio
    · exact rel_recordFailure h hio.recordFailure _ _
  · intro e s₁ t₁ h₁
    cases e with
    | badAlloc => exact rel_recordFailure h₁ hio.recordFailure _ _
    | std what => exact rel_recordFailure h₁ hio.recordFailure _ _

/-! ## Rounds -/

/-- What works on the columns only is one call that may throw. -/
theorem rel_onStore {α : Type} {x : StoreM α} {p : Point} (h : Alike Same s t)
    (hplan : plan p = outcome x s.exporter.store) :
    rel (onStore x) (plan.run p) (fun _ _ => Alike Same) (fun _ => Alike Same) s t := by
  obtain rfl := eq_base h
  rw [Plan.run, hplan, outcome, rel, wp_onStore, wp]
  cases x s.exporter.store with
  | ok a st => exact alike_base _
  | error e st =>
    cases e with
    | exception e => exact ⟨rfl, alike_base _⟩
    | error => exact ⟨rfl, alike_base _⟩

theorem rel_exportRows {faults : RowFaults} {vars : Col → ℕ} (h : Alike Same s t) (i : ℕ)
    (events : List PschEvent)
    (hrow : ∀ i, plan (.row i) = rowReply (faults.append i) 0 Col.appended) :
    rel (exportRows faults vars i events)
      (PgStatCh.exportRows plan i events : ExportM ClickHouseExporter Unit)
      (fun _ _ => Alike Same) (fun _ => Alike Same) s t := by
  induction events generalizing i s t with
  | nil => exact h
  | cons ev rest ih =>
    refine rel_bind (P := fun _ _ => Alike Same) (rel_modify ?_) ?_
    · obtain rfl := eq_base h
      exact alike_base _
    · intro _ _ s₁ t₁ h₁
      have hplan : plan (.row i) =
          outcome (appendCells (faults.append i) vars ev 0 Col.appended) s₁.exporter.store := by
        rw [outcome_appendCells, hrow]
      refine rel_bind (P := fun _ _ => Alike Same) (rel_bind (rel_onStore h₁ hplan) ?_) ?_
      · intro _ _ s₂ t₂ h₂
        obtain rfl := eq_base h₂
        exact alike_base _
      · exact fun _ _ _ _ h₂ => ih h₂ (i + 1)

theorem rel_exportEventStats (r : Round) (h : Alike Same s t) :
    rel (exportEventStats r.faults r.events)
      (PgStatCh.exportEventStats (r.plan s.exporter.store) r.events :
        ExportM ClickHouseExporter Bool)
      (Returns Same) (fun _ => Alike Same) s t := by
  have hcaught : r.plan s.exporter.store (.log .eventStats) = r.faults.eventStats := rfl
  refine rel_catching ?_ fun e _ _ h₁ => rel_handleException' h₁ hcaught _ _ e
  refine rel_bind (P := fun _ _ => Alike Same) ?_ fun _ _ _ _ h₁ => ⟨rfl, h₁⟩
  have hlog : wp (log r.faults.buildingRows) (fun _ s' => s' = s) (fun _ _ => True) s :=
    wp_log' rfl fun _ => trivial
  refine rel_bind (rel_and_wp (rel_log' h rfl) hlog) ?_
  rintro _ _ s₁ t₁ ⟨⟨-, h₁⟩, rfl⟩
  refine rel_bind (P := fun _ _ => Alike Same) ?_ ?_
  · obtain rfl := eq_base h₁
    apply rel_modify_left
    exact rel_onStore (alike_base _) rfl
  · intro vars _ s₂ t₂ h₂
    refine rel_bind (rel_exportRows h₂ 0 r.events fun _ => rfl) ?_
    intro _ _ s₃ t₃ h₃
    exact rel_mono (rel_log' h₃ rfl) (fun _ _ _ _ hret => hret.2) fun _ _ _ => id

theorem rel_exportBarrier' {α : Type} {logged : Reply} {stop : α} {x : M α}
    {y : ExportM ClickHouseExporter α} (hplan : plan (.log .exportBatch) = logged)
    (h : rel x y (Returns Same) (fun _ => Alike Same) s t) :
    rel (exportBarrier logged stop x) (PgStatCh.exportBarrier plan stop y) (Returns Same)
      (fun _ => Alike Same) s t :=
  rel_catching h fun e _ _ h₁ => rel_handleException' h₁ hplan _ _ e

theorem rel_beginDequeue (r : Round) (h : Alike Same s t) :
    rel (beginDequeue r)
      (PgStatCh.beginDequeue r.openingPlan : ExportM ClickHouseExporter Bool) (Returns Same)
      (fun _ => Alike Same) s t := by
  refine rel_bind (rel_log' h rfl) ?_
  rintro _ _ s₁ t₁ ⟨-, h₁⟩
  have hreserve : r.openingPlan .reserve = r.reserve.reply := rfl
  rw [Plan.run, hreserve]
  cases r.reserve with
  | ok => exact ⟨rfl, h₁⟩
  | fails m => exact ⟨rfl, h₁⟩
  | throws e => exact ⟨rfl, h₁⟩

theorem rel_beginExport (r : Round) (h : Alike Same s t) :
    rel (beginExport r) (PgStatCh.beginExport r.openingPlan : ExportM ClickHouseExporter Bool)
      (Returns Same) (fun _ => Alike Same) s t := by
  refine rel_exportBarrier' rfl ?_
  refine rel_bind (rel_log' h rfl) ?_
  rintro _ _ s₁ t₁ ⟨-, h₁⟩
  obtain rfl := eq_base h₁
  apply rel_get_bind
  show rel (if s₁.exporter.client.isSome then _ else _)
    (if s₁.exporter.client.isSome then _ else _) _ _ _ _
  split
  · exact rel_beginDequeue r h₁
  · refine rel_bind (rel_log' h₁ rfl) ?_
    rintro _ _ s₂ t₂ ⟨-, h₂⟩
    refine rel_bind (rel_establishNewConnection h₂ ⟨rfl, rfl, rfl, rfl, rfl⟩) ?_
    rintro ok _ s₃ t₃ ⟨rfl, h₃⟩
    cases ok with
    | false => exact rel_recordAndStop h₃ _ _
    | true => exact rel_beginDequeue r h₃

theorem length_columns {st : Store} {rows : List PschEvent} (h : st.Filled rows) :
    st.columns.length = heads.length := by
  rw [h, heads, List.length_map, List.length_map]

theorem rel_exportAsRows (r : Round) (h : Alike Same s t) (hsound : Sound s) :
    rel (exportAsRows r)
      (PgStatCh.exportAsRows (r.plan s.exporter.store) r.events : ExportM ClickHouseExporter ℕ)
      (Returns Same) (fun _ => Alike Same) s t := by
  refine rel_bind (rel_and_wp (rel_exportEventStats r h) (wp_exportEventStats hsound)) ?_
  rintro ok _ s₁ t₁ ⟨⟨rfl, h₁⟩, -, -, hfilled⟩
  cases ok with
  | false => exact ⟨rfl, h₁⟩
  | true =>
    have hio : r.commit.Agrees s₁.exporter.store.columns.length (r.plan s.exporter.store) := by
      rw [length_columns (hfilled rfl)]
      exact ⟨rfl, ⟨rfl, rfl, rfl, rfl, rfl⟩, rfl, rfl, fun _ => rfl, rfl, rfl⟩
    refine rel_bind (rel_commitBatch h₁ hio) ?_
    rintro ok _ s₂ t₂ ⟨rfl, h₂⟩
    obtain rfl := eq_base h₂
    cases ok with
    | false => exact ⟨rfl, h₂⟩
    | true => exact ⟨rfl, alike_base _⟩

theorem rel_exportEvents (r : Round) (settings : Settings) (h : Alike Same s t)
    (hsound : Sound s) :
    rel (exportEvents r)
      (PgStatCh.exportEvents (r.plan s.exporter.store) settings r.events :
        ExportM ClickHouseExporter ℕ)
      (Returns Same) (fun _ => Alike Same) s t := by
  refine rel_exportBarrier' rfl ?_
  split
  · refine rel_bind (rel_log' h rfl) ?_
    rintro _ _ s₁ t₁ ⟨-, h₁⟩
    exact ⟨rfl, h₁⟩
  · have hlog : wp (log r.exporting) (fun _ s' => s' = s) (fun _ _ => True) s :=
      wp_log' rfl fun _ => trivial
    refine rel_bind (rel_and_wp (rel_log' h rfl) hlog) ?_
    rintro _ _ s₁ t₁ ⟨⟨-, h₁⟩, rfl⟩
    exact rel_exportAsRows r h₁ hsound

/-- The call of `PschExportBatch` that a round is, for the coarser exporter. -/
def Round.call (r : Round) (st : Store) (settings : Settings)
    (fits : r.events.length ≤ settings.batchMax) : ExportCall where
  opening := r.openingPlan
  plan := r.plan st
  settings := settings
  events := r.events
  fits := fits

theorem rel_pschExportBatch {r : Round} {settings : Settings}
    (fits : r.events.length ≤ settings.batchMax) (h : Alike Same s t) (hsound : Sound s) :
    rel (pschExportBatch r)
      (PgStatCh.pschExportBatch (r.call s.exporter.store settings fits) :
        ExportM ClickHouseExporter ℕ)
      (Returns Same) (fun _ => Alike Same) s t := by
  refine rel_bind (rel_and_wp (rel_beginExport r h) (wp_beginExport hsound)) ?_
  rintro ok _ s₁ t₁ ⟨⟨rfl, h₁⟩, hkept⟩
  cases ok with
  | false => exact ⟨rfl, h₁⟩
  | true =>
    obtain rfl := eq_base h₁
    refine rel_bind (P := fun _ _ s₂ t₂ => Alike Same s₂ t₂ ∧ s₂.exporter = s₁.exporter)
      (rel_modify ⟨alike_base _, rfl⟩) ?_
    rintro _ _ s₂ t₂ ⟨h₂, heq⟩
    have hevents := rel_exportEvents r settings h₂ (hkept.sound.of_exporter heq)
    rw [heq, hkept.store] at hevents
    exact hevents

/-- The drain loop finds the state in which a round has ended. -/
theorem ended_eq_recovered {α : Type} (initial : α) (x : M α) :
    ended x s = (System.recovered initial (x s)).2 := by
  unfold ended System.recovered
  cases x s <;> rfl

/-- After any rounds the counters and the acknowledged events are those that calls with the same
events leave with the coarser exporter. -/
theorem rounds_refine (rounds : List Round) (settings : Settings)
    (hfits : ∀ r ∈ rounds, r.events.length ≤ settings.batchMax) :
    ∃ calls : List ExportCall, calls.map ExportCall.events = rounds.map Round.events ∧
      Alike Same (exported rounds)
        (calls.foldl after ({ exporter := {} } : ExportState ClickHouseExporter)) := by
  induction rounds using List.reverseRecOn with
  | nil => exact ⟨[], rfl, alike_base _⟩
  | append_singleton rounds r ih =>
    obtain ⟨calls, hevents, halike⟩ := ih fun r' hr' => hfits r' (List.mem_append_left _ hr')
    have hfit : r.events.length ≤ settings.batchMax :=
      hfits r (List.mem_append_right _ List.mem_cons_self)
    have hrel := rel_pschExportBatch hfit halike (sound_exported rounds)
    refine ⟨calls ++ [r.call (exported rounds).exporter.store settings hfit], ?_, ?_⟩
    · rw [List.map_append, List.map_append, hevents]
      rfl
    · rw [exported, List.foldl_append, List.foldl_append]
      show Alike Same (ended (pschExportBatch r) (exported rounds)) (after _ _)
      rw [ended_eq_recovered 0]
      exact alike_recovered hrel

end Refines

end Chc

end PgStatCh
