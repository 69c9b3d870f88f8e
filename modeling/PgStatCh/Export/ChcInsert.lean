import PgStatCh.Export.ChcColumns
import PgStatCh.Export.Outcome

/-!
# Export.ChcInsert — the conversation with the ClickHouse server

`ClickHouseExporter` once more, with the columns that it keeps and with what has been said on the
connection since its handshake. An INSERT is a query, the server's packets up to a data packet,
the block, an empty block that ends it, and the server's packets up to the end of the stream. Any
step can fail or throw, and what the server sends is up to the server. A `CommitBatch` that
returns keeps the connection only where the conversation is between two INSERTs (`AtBoundary`).

One that an ERROR leaves need not: `RecordFailure` writes its message before it closes the
connection. The drain loop catches the ERROR, and the next `CommitBatch` goes on with the
conversation where it was left (`interrupted_insert_reused`).

What the outside does in a call is a script: one reply for each step of it and for each message.
-/

namespace PgStatCh

open Lib Prog

namespace Chc

/-! ## State -/

/-- `chc_packet_kind`. -/
inductive PacketKind where
  | data
  | exception
  | endOfStream
  | other (kind : ℕ)
deriving DecidableEq, Repr

/-- What has passed on a connection, as the client sees it. -/
inductive Message where
  | query (text : String)
  | data (block : Block)
  /-- the empty block -/
  | terminator
  | packet (kind : PacketKind)
  /-- a call to send or receive that returned an error -/
  | broken
deriving DecidableEq

/-- A block that `CommitBatch` has built, and the query for it. -/
structure Built where
  query : String
  block : Block

structure Exporter where
  /-- `conn_cxt_` and `batch_cxt_` are there -/
  memoryContextsReady : Bool := false
  /-- `client_`: what has passed on it since the handshake -/
  client : Option (List Message) := none
  store : Store := {}
  consecutiveFailures : ℕ := 0
  exportedCount : ℕ := 0
  /-- history: the events of the current batch whose appends are done -/
  rows : List PschEvent := []
  /-- history: the blocks that were built -/
  built : List Built := []

abbrev M := ExportM Exporter

/-! ## Scripts -/

/-- What becomes of a step that writes no message. -/
inductive Step where
  | ok
  | fails (message : String)
  | throws (e : Exception)
deriving DecidableEq, Repr

def Step.reply : Step → Reply
  | .ok => .ok
  | .fails message => .fails message
  | .throws e => .throws e

/-- A call that returns an error message, or none. -/
def call {ε : Type} : Reply → ExportM ε (Option String)
  | .ok => pure none
  | .fails message => pure (some message)
  | .throws e => throw (.exception e)
  | .raises => throw .error

/-- A log statement. -/
def log {ε : Type} : Reply → ExportM ε Unit
  | .raises => throw .error
  | _ => pure ()

/-- What becomes of `chc_client_recv_packet`. -/
inductive Recv where
  /-- a packet, with its text if it is an exception that has one -/
  | packet (kind : PacketKind) (displayText : Option String)
  | fails (message : String)
  | throws (e : Exception)
deriving DecidableEq, Repr

/-- What becomes of the steps of `EstablishNewConnection`. -/
structure ConnectScript where
  memoryContexts : Step := .ok
  /-- from the socket to the handshake, with the messages on the way -/
  connect : Reply := .ok
  /-- a `chc_client_init` that fails leaves a client -/
  leavesClient : Bool := false
  /-- the message of that -/
  connectFailed : Reply := .ok
  /-- "connected to ClickHouse" -/
  connected : Reply := .ok

/-- What becomes of the steps of `SendInsert`. -/
structure InsertScript where
  /-- `BuildInsertQuery` and `chc_client_send_query` -/
  query : Step := .ok
  /-- the packets after the query -/
  header : ℕ → Recv
  /-- `chc_client_send_data` of the block -/
  data : Step := .ok
  /-- `chc_client_send_data` of the empty block -/
  terminator : Step := .ok
  /-- the packets after the empty block -/
  reply : ℕ → Recv

/-- What becomes of the steps of `CommitBatch`. -/
structure CommitScript where
  blockBuilderInit : Step := .ok
  connect : ConnectScript := {}
  /-- `AppendFixed` or `AppendString` of column `k`, with `ResolveType` -/
  crunch : ℕ → Step := fun _ => .ok
  /-- "Inserting Block to ClickHouse" -/
  inserting : Reply := .ok
  insert : InsertScript
  /-- "exported ... events to ClickHouse" -/
  inserted : Reply := .ok
  /-- the message of `RecordFailure` -/
  recordFailure : Reply := .ok

/-! ## The connection -/

def closeConnection : M Unit :=
  modify fun s => { s with exporter.client := none }

def recordFailure (logged : Reply) (message : String) (closeConn : Bool) : M Bool := do
  log logged
  modify fun s => { s with exporter.consecutiveFailures := s.exporter.consecutiveFailures + 1 }
  recordExporterFailure message
  if closeConn then
    closeConnection
    pure false
  else pure false

def ensureMemoryContexts (io : ConnectScript) : M Bool := do
  let s ← get
  if s.exporter.memoryContextsReady then pure true
  else
    match ← call io.memoryContexts.reply with
    | some _ => pure false
    | none =>
      modify fun s => { s with exporter.memoryContextsReady := true }
      pure true

def establishNewConnection (io : ConnectScript) : M Bool := do
  if ← ensureMemoryContexts io then
    closeConnection
    match ← call io.connect with
    | some _ =>
      modify fun s =>
        { s with exporter.client := if io.leavesClient then some [.broken] else none }
      log io.connectFailed
      closeConnection
      pure false
    | none =>
      modify fun s => { s with exporter.client := some [] }
      log io.connected
      pure true
  else pure false

/-- Something has passed on the connection. -/
def note (m : Message) : M Unit :=
  modify fun s => { s with exporter.client := s.exporter.client.map fun said => said ++ [m] }

/-- Send `m`: an error message, or none. -/
def send (step : Step) (m : Message) (text : String) : M (Option String) := do
  match ← call step.reply with
  | some message =>
    note .broken
    pure (some (orText message text))
  | none =>
    note m
    pure none

def kMaxRecvPackets : ℕ := 4096

/-- The loop of `RecvUntil`, from packet `i` on and for `n` packets. -/
def recvLoop (target : PacketKind) (recv : ℕ → Recv) : ℕ → ℕ → M (Option String)
  | _, 0 => pure (some "too many packets awaiting response")
  | i, n + 1 =>
    match recv i with
    | .throws e => throw (.exception e)
    | .fails message => do
      note .broken
      pure (some (orText message "recv_packet failed"))
    | .packet kind displayText => do
      note (.packet kind)
      if kind = .exception then pure (some (displayText.getD "server exception"))
      else if kind = target then pure none
      else recvLoop target recv (i + 1) n

def recvUntil (target : PacketKind) (recv : ℕ → Recv) : M (Option String) :=
  recvLoop target recv 0 kMaxRecvPackets

/-- `SendInsert`: an error message, or none. -/
def sendInsert (io : InsertScript) (block : Block) : M (Option String) := do
  let s ← get
  match ← send io.query (.query (buildInsertQuery s.exporter.store.colNames))
      "send_query failed" with
  | some message => pure (some message)
  | none =>
    match ← recvUntil .data io.header with
    | some message => pure (some message)
    | none =>
      match ← send io.data (.data block) "send_data failed" with
      | some message => pure (some message)
      | none =>
        match ← send io.terminator .terminator "send_data terminator failed" with
        | some message => pure (some message)
        | none => recvUntil .endOfStream io.reply

/-! ## `CommitBatch` -/

/-- The columns' `Crunch`, from column `k` on. Once `build_err_` is set the others return at
once. -/
def crunch (steps : ℕ → Step) : ℕ → List Column → Block → M (Except String Block)
  | _, [], block => pure (.ok block)
  | k, col :: rest, block => do
    match ← call (steps k).reply with
    | some message => pure (.error message)
    | none => crunch steps (k + 1) rest (block ++ [col.crunch])

/-- `CommitBatch` from the check of the connection on. -/
def insertBlock (io : CommitScript) : M Bool := do
  let s ← get
  match ← crunch io.crunch 0 s.exporter.store.columns [] with
  | .error message => recordFailure io.recordFailure (orText message "block build failed") false
  | .ok block =>
    log io.inserting
    modify fun s =>
      { s with sent := s.sent + 1
               exporter.built := s.exporter.built ++
                 [⟨buildInsertQuery s.exporter.store.colNames, block⟩] }
    match ← sendInsert io.insert block with
    | some message => recordFailure io.recordFailure message true
    | none =>
      modify fun s =>
        { s with acked := s.acked ++ [s.exporter.rows], exporter.consecutiveFailures := 0 }
      log io.inserted
      pure true

/-- `client_ != nullptr`, or a connection could be established. -/
def ensureClient (io : ConnectScript) : M Bool := do
  let s ← get
  if s.exporter.client.isSome then pure true
  else if ← establishNewConnection io then
    let s ← get
    pure s.exporter.client.isSome
  else pure false

def commitBatch (io : CommitScript) : M Bool :=
  catching
    (do
      let s ← get
      if s.exporter.memoryContextsReady then
        match ← call io.blockBuilderInit.reply with
        | some message => recordFailure io.recordFailure (orText message "OOM") false
        | none =>
          if ← ensureClient io.connect then insertBlock io
          else recordFailure io.recordFailure "connection not established" false
      else recordFailure io.recordFailure "allocator not initialized" false)
    (fun
      | .badAlloc => recordFailure io.recordFailure "out of memory" true
      | .std what => recordFailure io.recordFailure what true)

/-! ## The rows of a batch -/

/-- A part that works on the columns only. -/
def onStore {α : Type} (x : StoreM α) : M α := fun s =>
  match x s.exporter.store with
  | .ok a st => .ok a { s with exporter.store := st }
  | .error e st => .error e { s with exporter.store := st }

/-- Where `ExportEventStats` breaks off. -/
structure RowFaults where
  /-- "ExportEventStatsInternal() called" -/
  buildingRows : Reply := .ok
  /-- the variable at place `k` -/
  make : ℕ → MakeFault := fun _ => .none
  /-- the append at place `k` for event `i` -/
  append : ℕ → ℕ → AppendFault := fun _ _ => .none
  /-- "finished processing ... events" -/
  builtRows : Reply := .ok
  /-- in the handlers -/
  eventStats : Reply := .ok

/-- `BeginBatch` and the column factories. -/
def beginBatch (faults : RowFaults) : M (Col → ℕ) := do
  modify fun s =>
    { s with exporter.store := s.exporter.store.clear, exporter.exportedCount := 0
             exporter.rows := [] }
  onStore (makeCols faults.make 0 Col.created fun _ => 0)

def beginRow : M Unit :=
  modify fun s => { s with exporter.exportedCount := s.exporter.exportedCount + 1 }

/-- The appends of event `i`. -/
def appendRow (faults : RowFaults) (vars : Col → ℕ) (i : ℕ) (ev : PschEvent) : M Unit := do
  onStore (appendCells (faults.append i) vars ev 0 Col.appended)
  modify fun s => { s with exporter.rows := s.exporter.rows ++ [ev] }

/-- The loop over the events, from event `i` on. -/
def exportRows (faults : RowFaults) (vars : Col → ℕ) : ℕ → List PschEvent → M Unit
  | _, [] => pure ()
  | i, ev :: rest => do
    beginRow
    appendRow faults vars i ev
    exportRows faults vars (i + 1) rest

def exportEventStatsInternal (faults : RowFaults) (events : List PschEvent) : M Unit := do
  log faults.buildingRows
  let vars ← beginBatch faults
  exportRows faults vars 0 events
  log faults.builtRows

/-- What the handlers of a barrier do. -/
def handleException {α : Type} (logged : Reply) (oom : String) (stop : α) (e : Exception) :
    M α := do
  log logged
  recordExporterFailure (match e with | .badAlloc => oom | .std what => what)
  pure stop

def exportEventStats (faults : RowFaults) (events : List PschEvent) : M Bool :=
  catching
    (do
      exportEventStatsInternal faults events
      pure true)
    (handleException faults.eventStats "event stats OOM" false)

/-! ## Between two INSERTs -/

/-- The last INSERT of the conversation is this one, and it is complete: query, block and empty
block were sent, and the server has ended the stream without an exception. -/
def Inserted (query : String) (block : Block) (said : List Message) : Prop :=
  ∃ (before : List Message) (header reply : List PacketKind),
    said = before ++ .query query :: header.map .packet ++
      .data block :: .terminator :: reply.map .packet ++ [.packet .endOfStream] ∧
    .exception ∉ header ∧ .exception ∉ reply

/-- Nothing has been said since the handshake, or the last INSERT is complete. -/
def AtBoundary (said : List Message) : Prop :=
  said = [] ∨ ∃ query block, Inserted query block said

/-- A connection that is open is between two INSERTs. -/
def Bounded (s : ExportState Exporter) : Prop :=
  ∀ said, s.exporter.client = some said → AtBoundary said

/-- The state `s` with an open connection on which this was said. -/
def saying (s : ExportState Exporter) (said : List Message) : ExportState Exporter :=
  { s with exporter.client := some said }

/-- The query of a commit. -/
def Exporter.query (x : Exporter) : String := buildInsertQuery x.store.colNames

/-- What a commit leaves of the columns, and of the history of blocks. -/
structure Commits (s s' : ExportState Exporter) : Prop where
  store : s'.exporter.store = s.exporter.store
  built : s'.exporter.built = s.exporter.built ∨
    s'.exporter.built = s.exporter.built ++ [⟨s.exporter.query, s.exporter.store.block⟩]

section Conversation

variable {s : ExportState Exporter} {said : List Message}

theorem saying_eq (h : s.exporter.client = some said) : saying s said = s := by
  rw [saying, ← h]

theorem Step.exit_ne_error (step : Step) : step.reply.exit ≠ some .error := by
  cases step <;> exact nofun

theorem wp_call' {ε : Type} {reply : Reply} {s : ExportState ε}
    {Q : Option String → ExportState ε → Prop} {E : Exit → ExportState ε → Prop}
    (hok : reply = .ok → Q none s) (hfails : ∀ m, Q (some m) s)
    (hexit : ∀ x, reply.exit = some x → E x s) : wp (call reply) Q E s := by
  cases reply with
  | ok => exact hok rfl
  | fails m => exact hfails m
  | throws e => exact hexit _ rfl
  | raises => exact hexit _ rfl

/-- A step that writes no message is not left by an ERROR. -/
theorem wp_step {ε : Type} {step : Step} {s : ExportState ε}
    {Q : Option String → ExportState ε → Prop} {E : Exit → ExportState ε → Prop}
    (hok : Q none s) (hfails : ∀ m, Q (some m) s) (hthrows : ∀ x, x ≠ .error → E x s) :
    wp (call step.reply) Q E s := by
  refine wp_call' (fun _ => hok) hfails fun x hx => hthrows x ?_
  rintro rfl
  exact step.exit_ne_error hx

theorem wp_log' {ε : Type} {logged : Reply} {s : ExportState ε}
    {Q : Unit → ExportState ε → Prop} {E : Exit → ExportState ε → Prop}
    (hok : Q () s) (hraises : logged = .raises → E .error s) : wp (log logged) Q E s := by
  cases logged with
  | raises => exact hraises rfl
  | _ => exact hok

theorem wp_send {step : Step} {m : Message} {text : String} :
    wp (send step m text)
      (fun r s' => ∃ said', s' = saying s said' ∧ (r = none → said' = said ++ [m]))
      (fun x s' => x ≠ .error ∧ ∃ said', s' = saying s said') (saying s said) := by
  rw [send, wp_bind]
  refine wp_step ?_ (fun m => ?_) fun x hx => ?_
  · exact ⟨said ++ [_], rfl, fun _ => rfl⟩
  · exact ⟨said ++ [.broken], rfl, nofun⟩
  · exact ⟨hx, said, rfl⟩

theorem wp_recvLoop {target : PacketKind} {recv : ℕ → Recv} {i n : ℕ} :
    wp (recvLoop target recv i n)
      (fun r s' => ∃ said', s' = saying s said' ∧ (r = none → ∃ kinds : List PacketKind,
        said' = said ++ kinds.map .packet ++ [.packet target] ∧ .exception ∉ kinds))
      (fun x s' => x ≠ .error ∧ ∃ said', s' = saying s said') (saying s said) := by
  induction n generalizing i said with
  | zero => exact ⟨said, rfl, nofun⟩
  | succ n ih =>
    rw [recvLoop]
    split
    · exact ⟨nofun, said, rfl⟩
    · exact ⟨said ++ [.broken], rfl, nofun⟩
    · next kind displayText _ =>
      rw [wp_bind, note, wp_modify]
      split
      · exact ⟨said ++ [.packet kind], rfl, nofun⟩
      · next hkind =>
        split
        · next htarget =>
          refine ⟨said ++ [.packet kind], rfl, fun _ => ⟨[], ?_, List.not_mem_nil⟩⟩
          rw [htarget, List.map_nil, List.append_nil]
        · show wp _ _ _ (saying s (said ++ [.packet kind]))
          refine wp_mono ih ?_ fun _ _ => id
          rintro r s' ⟨said', rfl, hsaid'⟩
          refine ⟨said', rfl, fun hr => ?_⟩
          obtain ⟨kinds, hkinds, hno⟩ := hsaid' hr
          refine ⟨kind :: kinds, ?_, ?_⟩
          · rw [hkinds, List.map_cons, List.append_assoc said]
            rfl
          · rw [List.mem_cons, not_or]
            exact ⟨Ne.symm hkind, hno⟩

/-- `SendInsert` says a whole INSERT, unless it fails. -/
theorem wp_sendInsert {io : InsertScript} {block : Block} :
    wp (sendInsert io block)
      (fun r s' => ∃ said', s' = saying s said' ∧
        (r = none → Inserted s.exporter.query block said'))
      (fun x s' => x ≠ .error ∧ ∃ said', s' = saying s said') (saying s said) := by
  rw [sendInsert, wp_bind, wp_get, wp_bind]
  refine wp_mono wp_send ?_ fun _ _ => id
  rintro r s' ⟨said₁, rfl, hsaid₁⟩
  cases r with
  | some message => exact ⟨said₁, rfl, nofun⟩
  | none =>
    rw [wp_bind]
    refine wp_mono wp_recvLoop ?_ fun _ _ => id
    rintro r s' ⟨said₂, rfl, hsaid₂⟩
    cases r with
    | some message => exact ⟨said₂, rfl, nofun⟩
    | none =>
      obtain ⟨header, hheader, hnoHeader⟩ := hsaid₂ rfl
      rw [wp_bind]
      refine wp_mono wp_send ?_ fun _ _ => id
      rintro r s' ⟨said₃, rfl, hsaid₃⟩
      cases r with
      | some message => exact ⟨said₃, rfl, nofun⟩
      | none =>
        rw [wp_bind]
        refine wp_mono wp_send ?_ fun _ _ => id
        rintro r s' ⟨said₄, rfl, hsaid₄⟩
        cases r with
        | some message => exact ⟨said₄, rfl, nofun⟩
        | none =>
          refine wp_mono wp_recvLoop ?_ fun _ _ => id
          rintro r s' ⟨said₅, rfl, hsaid₅⟩
          refine ⟨said₅, rfl, fun hr => ?_⟩
          obtain ⟨reply, hreply, hnoReply⟩ := hsaid₅ hr
          refine ⟨said, header ++ [.data], reply, ?_, ?_, hnoReply⟩
          · rw [hreply, hsaid₄ rfl, hsaid₃ rfl, hheader, hsaid₁ rfl]
            simp only [saying, Exporter.query, List.map_append, List.map_cons, List.map_nil,
              List.append_assoc, List.cons_append, List.nil_append]
          · rw [List.mem_append, List.mem_singleton, not_or]
            exact ⟨hnoHeader, nofun⟩

end Conversation

/-! ### What an ERROR leaves -/

/-- A client that a failed `chc_client_init` has left is closed: no ERROR comes before. -/
def ConnectScript.Quiet (io : ConnectScript) : Prop :=
  io.leavesClient = true → io.connectFailed ≠ .raises

/-- No ERROR leaves the call. -/
structure ConnectScript.NoError (io : ConnectScript) : Prop where
  connect : io.connect ≠ .raises
  connectFailed : io.connectFailed ≠ .raises
  connected : io.connected ≠ .raises

/-- No ERROR comes between a failure and the closing of the connection. -/
structure CommitScript.Quiet (io : CommitScript) : Prop where
  connect : io.connect.Quiet
  recordFailure : io.recordFailure ≠ .raises

structure CommitScript.NoError (io : CommitScript) : Prop where
  connect : io.connect.NoError
  inserting : io.inserting ≠ .raises
  inserted : io.inserted ≠ .raises
  recordFailure : io.recordFailure ≠ .raises

section Commit

variable {s : ExportState Exporter} {said : List Message}

theorem wp_recordFailure {logged : Reply} {message : String} {closeConn : Bool}
    {Q : Bool → ExportState Exporter → Prop} {E : Exit → ExportState Exporter → Prop}
    (h : ∀ s', s'.exporter = { s.exporter with
        client := if closeConn then none else s.exporter.client
        consecutiveFailures := s.exporter.consecutiveFailures + 1 } → Q false s')
    (hraises : logged = .raises → E .error s) :
    wp (recordFailure logged message closeConn) Q E s := by
  rw [recordFailure, wp_bind]
  refine wp_log' ?_ hraises
  cases closeConn with
  | false => exact h _ rfl
  | true => exact h _ rfl

theorem wp_ensureMemoryContexts {io : ConnectScript} :
    wp (ensureMemoryContexts io)
      (fun _ s' => ∃ ready, s' = { s with exporter.memoryContextsReady := ready })
      (fun x s' => x ≠ .error ∧ s' = s) s := by
  rw [ensureMemoryContexts, wp_bind, wp_get]
  split
  · exact ⟨_, rfl⟩
  · rw [wp_bind]
    refine wp_step ?_ (fun m => ?_) fun x hx => ?_
    · exact ⟨true, rfl⟩
    · exact ⟨s.exporter.memoryContextsReady, rfl⟩
    · exact ⟨hx, rfl⟩

/-- The connection was closed, left alone, or is new. -/
def Renewed (client client' : Option (List Message)) : Prop :=
  client' = none ∨ client' = client ∨ client' = some []

/-- A new connection has said nothing; where there is none the old one may be left. -/
theorem wp_establishNewConnection {io : ConnectScript} :
    wp (establishNewConnection io)
      (fun ok s' => ∃ ready client, s' = { s with
          exporter.memoryContextsReady := ready, exporter.client := client } ∧
        Renewed s.exporter.client client ∧ (ok = true → client = some []))
      (fun x s' => ∃ ready client, s' = { s with
          exporter.memoryContextsReady := ready, exporter.client := client } ∧
        (io.Quiet → Renewed s.exporter.client client) ∧ (x = .error → ¬ io.NoError)) s := by
  rw [establishNewConnection, wp_bind]
  refine wp_mono wp_ensureMemoryContexts ?_ ?_
  · rintro ok s' ⟨ready, rfl⟩
    cases ok with
    | false => exact ⟨ready, s.exporter.client, rfl, Or.inr (Or.inl rfl), nofun⟩
    | true =>
      simp only [if_true, closeConnection, wp_bind, wp_modify]
      refine wp_call' (fun _ => ?_) (fun m => ?_) fun x hx => ?_
      · simp only [wp_bind, wp_modify]
        refine wp_log' ⟨ready, some [], rfl, Or.inr (Or.inr rfl), fun _ => rfl⟩ fun hraises => ?_
        exact ⟨ready, some [], rfl, fun _ => Or.inr (Or.inr rfl),
          fun _ hno => hno.connected hraises⟩
      · simp only [wp_bind, wp_modify]
        refine wp_log' ⟨ready, none, rfl, Or.inl rfl, nofun⟩ fun hraises => ?_
        refine ⟨ready, _, rfl, fun hquiet => Or.inl (if_neg fun hleft => ?_),
          fun _ hno => hno.connectFailed hraises⟩
        exact hquiet hleft hraises
      · refine ⟨ready, none, rfl, fun _ => Or.inl rfl, fun herror hno => hno.connect ?_⟩
        exact Reply.exit_eq_error.mp (herror ▸ hx)
  · rintro x s' ⟨hx, rfl⟩
    exact ⟨s'.exporter.memoryContextsReady, s'.exporter.client, rfl,
      fun _ => Or.inr (Or.inl rfl), fun herror => absurd herror hx⟩

theorem wp_crunch {steps : ℕ → Step} {k : ℕ} {cols : List Column} {block : Block} :
    wp (crunch steps k cols block)
      (fun r s' => s' = s ∧ ∀ b, r = .ok b → b = block ++ cols.map Column.crunch)
      (fun x s' => x ≠ .error ∧ s' = s) s := by
  induction cols generalizing k block with
  | nil =>
    refine ⟨rfl, fun b hb => ?_⟩
    cases hb
    rw [List.map_nil, List.append_nil]
  | cons col cols ih =>
    rw [crunch, wp_bind]
    refine wp_step ?_ (fun m => ?_) fun x hx => ?_
    · refine wp_mono ih ?_ fun _ _ => id
      rintro r s' ⟨rfl, hr⟩
      refine ⟨rfl, fun b hb => ?_⟩
      rw [hr b hb, List.append_assoc, List.map_cons]
      rfl
    · exact ⟨rfl, nofun⟩
    · exact ⟨hx, rfl⟩

/-- How a `CommitBatch` ends that returns. -/
structure CommitEnds (s : ExportState Exporter) (ok : Bool) (s' : ExportState Exporter) :
    Prop where
  commits : Commits s s'
  bounded : Bounded s → Bounded s'
  inserted : ok = true →
    ∃ said, s'.exporter.client = some said ∧
      Inserted s.exporter.query s.exporter.store.block said

/-- How one is left. -/
structure Left (io : CommitScript) (s : ExportState Exporter) (x : Exit)
    (s' : ExportState Exporter) : Prop where
  commits : Commits s s'
  noError : x = .error → ¬ io.NoError
  bounded : x = .error → io.Quiet → Bounded s → Bounded s'

section Same

variable {s₁ s' : ExportState Exporter}

theorem Commits.refl (s : ExportState Exporter) : Commits s s := ⟨rfl, Or.inl rfl⟩

theorem Commits.of_same (h : Commits s₁ s') (hstore : s₁.exporter.store = s.exporter.store)
    (hbuilt : s₁.exporter.built = s.exporter.built) : Commits s s' := by
  constructor
  · rw [h.store, hstore]
  · rw [Exporter.query, ← hstore, ← hbuilt]
    exact h.built

theorem CommitEnds.of_same {ok : Bool} (h : CommitEnds s₁ ok s')
    (hstore : s₁.exporter.store = s.exporter.store)
    (hbuilt : s₁.exporter.built = s.exporter.built) (hbounded : Bounded s → Bounded s₁) :
    CommitEnds s ok s' := by
  refine ⟨h.commits.of_same hstore hbuilt, h.bounded ∘ hbounded, ?_⟩
  rw [Exporter.query, ← hstore]
  exact h.inserted

theorem Left.of_same {io : CommitScript} {x : Exit} (h : Left io s₁ x s')
    (hstore : s₁.exporter.store = s.exporter.store)
    (hbuilt : s₁.exporter.built = s.exporter.built) (hbounded : Bounded s → Bounded s₁) :
    Left io s x s' :=
  ⟨h.commits.of_same hstore hbuilt, h.noError, fun hx hquiet hs => h.bounded hx hquiet (hbounded hs)⟩

/-- An exception leaves it to the handler. -/
theorem Commits.left {io : CommitScript} {x : Exit} (h : Commits s s') (hx : x ≠ .error) :
    Left io s x s' :=
  ⟨h, fun herror => absurd herror hx, fun herror => absurd herror hx⟩

end Same

theorem Bounded.of_client {s' : ExportState Exporter} (h : Bounded s)
    (hclient : Renewed s.exporter.client s'.exporter.client) : Bounded s' := by
  intro said hsaid
  rcases hclient with hnone | hsame | hnew
  · rw [hnone] at hsaid
    cases hsaid
  · exact h said (hsame ▸ hsaid)
  · rw [hnew] at hsaid
    exact Or.inl (Option.some_inj.mp hsaid).symm

theorem bounded_of_inserted {query : String} {block : Block}
    (hclient : s.exporter.client = some said) (h : Inserted query block said) : Bounded s := by
  intro said' hsaid'
  rw [hclient] at hsaid'
  exact Or.inr ⟨query, block, Option.some_inj.mp hsaid' ▸ h⟩

/-- A failure that is recorded before the INSERT has begun keeps the connection, one after that
closes it. -/
theorem wp_recordFailure_ends {io : CommitScript} {s₀ : ExportState Exporter} {message : String}
    {closeConn : Bool} {E : Exit → ExportState Exporter → Prop} (hcommits : Commits s₀ s)
    (hbounded : closeConn = false → Bounded s₀ → Bounded s) (hE : Left io s₀ .error s → E .error s) :
    wp (recordFailure io.recordFailure message closeConn) (CommitEnds s₀) E s := by
  apply wp_recordFailure
  · intro s' hs'
    refine ⟨⟨?_, ?_⟩, fun hs₀ => ?_, nofun⟩
    · rw [hs']
      exact hcommits.store
    · rw [hs']
      exact hcommits.built
    · intro said hsaid
      rw [hs'] at hsaid
      cases closeConn with
      | false => exact hbounded rfl hs₀ said hsaid
      | true => cases hsaid
  · intro hraises
    exact hE ⟨hcommits, fun _ hno => hno.recordFailure hraises,
      fun _ hquiet => absurd hraises hquiet.recordFailure⟩

theorem wp_insertBlock {io : CommitScript} (hclient : s.exporter.client = some said) :
    wp (insertBlock io) (CommitEnds s) (Left io s) s := by
  rw [insertBlock, wp_bind, wp_get, wp_bind]
  refine wp_mono wp_crunch ?_ ?_
  · rintro r s' ⟨rfl, hblock⟩
    cases r with
    | error message => exact wp_recordFailure_ends (.refl _) (fun _ => id) id
    | ok block =>
      obtain rfl : block = s'.exporter.store.block := hblock block rfl
      simp only [wp_bind]
      refine wp_log' ?_ fun hraises =>
        ⟨.refl _, fun _ hno => hno.inserting hraises, fun _ _ => id⟩
      rw [wp_bind, wp_modify, wp_bind]
      generalize ht : ({ s' with sent := _, exporter.built := _ } : ExportState Exporter) = t
      have hcommits : Commits s' t := by
        subst ht
        exact ⟨rfl, Or.inr rfl⟩
      have hquery : t.exporter.query = s'.exporter.query := by rw [← ht]; rfl
      have hsaying : saying t said = t := saying_eq (by rw [← ht]; exact hclient)
      rw [← hsaying]
      refine wp_mono wp_sendInsert ?_ ?_
      · rintro r s₁ ⟨said', rfl, hsaid'⟩
        cases r with
        | some message => exact wp_recordFailure_ends ⟨hcommits.store, hcommits.built⟩ nofun id
        | none =>
          have hinserted := hsaid' rfl
          rw [hquery] at hinserted
          simp only [wp_bind, wp_modify]
          refine wp_log' ?_ fun hraises => ?_
          · exact ⟨⟨hcommits.store, hcommits.built⟩, fun _ => bounded_of_inserted rfl hinserted,
              fun _ => ⟨said', rfl, hinserted⟩⟩
          · exact ⟨⟨hcommits.store, hcommits.built⟩, fun _ hno => hno.inserted hraises,
              fun _ _ _ => bounded_of_inserted rfl hinserted⟩
      · rintro x s₁ ⟨hx, said', rfl⟩
        exact Commits.left ⟨hcommits.store, hcommits.built⟩ hx
  · rintro x s' ⟨hx, rfl⟩
    exact (Commits.refl _).left hx

theorem wp_ensureClient {io : CommitScript} :
    wp (ensureClient io.connect)
      (fun ok s' => (Bounded s → Bounded s') ∧ s'.exporter.store = s.exporter.store ∧
        s'.exporter.built = s.exporter.built ∧
        (ok = true → ∃ said, s'.exporter.client = some said))
      (Left io s) s := by
  rw [ensureClient, wp_bind, wp_get]
  split
  · next hsome => exact ⟨id, rfl, rfl, fun _ => Option.isSome_iff_exists.mp hsome⟩
  · rw [wp_bind]
    refine wp_mono wp_establishNewConnection ?_ ?_
    · rintro ok s' ⟨ready, client, rfl, hclient, hok⟩
      cases ok with
      | false => exact ⟨fun h => h.of_client hclient, rfl, rfl, nofun⟩
      | true =>
        rw [if_pos rfl, wp_bind, wp_get]
        exact ⟨fun h => h.of_client hclient, rfl, rfl, fun _ => ⟨[], hok rfl⟩⟩
    · rintro x s' ⟨ready, client, rfl, hclient, hx⟩
      exact ⟨⟨rfl, Or.inl rfl⟩, fun herror hno => hx herror hno.connect,
        fun _ hquiet h => h.of_client (hclient hquiet.connect)⟩

/-- `CommitBatch` returns, or an ERROR leaves it. -/
theorem wp_commitBatch {io : CommitScript} :
    wp (commitBatch io) (CommitEnds s) (fun x s' => x = .error ∧ Left io s .error s') s := by
  refine wp_catching (M := Left io s) ?_ ?_ fun s' h => ⟨rfl, h⟩
  · rw [wp_bind, wp_get]
    split
    · rw [wp_bind]
      refine wp_step ?_ (fun m => ?_) fun x hx => (Commits.refl _).left hx
      · rw [wp_bind]
        refine wp_mono (@wp_ensureClient _ io) ?_ fun _ _ => id
        rintro ok s' ⟨hbounded, hstore, hbuilt, hok⟩
        cases ok with
        | false => exact wp_recordFailure_ends ⟨hstore, Or.inl hbuilt⟩ (fun _ => hbounded) id
        | true =>
          obtain ⟨said, hsaid⟩ := hok rfl
          -- the store and the history are those that the call began with
          refine wp_mono (wp_insertBlock hsaid) ?_ ?_
          · exact fun _ _ hends => hends.of_same hstore hbuilt hbounded
          · exact fun _ _ hleft => hleft.of_same hstore hbuilt hbounded
      · exact wp_recordFailure_ends (.refl _) (fun _ => id) id
    · exact wp_recordFailure_ends (.refl _) (fun _ => id) id
  · intro e s' hleft
    cases e with
    | badAlloc => exact wp_recordFailure_ends hleft.commits nofun fun h => ⟨rfl, h⟩
    | std what => exact wp_recordFailure_ends hleft.commits nofun fun h => ⟨rfl, h⟩

end Commit

/-! ## Calls -/

/-- A call of one of the exporter's operations, and what the outside does in it. -/
inductive Call where
  | exportEventStats (faults : RowFaults) (events : List PschEvent)
  | commitBatch (io : CommitScript)
  | establishNewConnection (io : ConnectScript)

def perform : Call → M Bool
  | .exportEventStats faults events => exportEventStats faults events
  | .commitBatch io => commitBatch io
  | .establishNewConnection io => establishNewConnection io

/-- The state in which a program ends, returning or throwing. -/
def ended {α : Type} (x : M α) (s : ExportState Exporter) : ExportState Exporter :=
  match x s with
  | .ok _ s' => s'
  | .error _ s' => s'

/-- The state after these calls on a new exporter. -/
def called (calls : List Call) : ExportState Exporter :=
  calls.foldl (fun s c => ended (perform c) s) { exporter := {} }

theorem ended_of_wp {α : Type} {x : M α} {s : ExportState Exporter}
    {P : ExportState Exporter → Prop} (h : wp x (fun _ s' => P s') (fun _ s' => P s') s) :
    P (ended x s) := by
  unfold wp at h
  unfold ended
  split at h
  · next hx =>
    rw [hx]
    exact h
  · next hx =>
    rw [hx]
    exact h

section Calls

variable {s : ExportState Exporter}

theorem wp_onStore {α : Type} {x : StoreM α} {Q : α → ExportState Exporter → Prop}
    {E : Exit → ExportState Exporter → Prop} :
    wp (onStore x) Q E s =
      wp x (fun a st => Q a { s with exporter.store := st })
        (fun e st => E e { s with exporter.store := st }) s.exporter.store := by
  simp only [wp, onStore]
  cases x s.exporter.store <;> rfl

/-- What works on the columns only leaves the connection alone. -/
theorem wp_onStore_client {α : Type} {x : StoreM α} :
    wp (onStore x) (fun _ s' => s'.exporter.client = s.exporter.client)
      (fun _ s' => s'.exporter.client = s.exporter.client) s := by
  rw [wp_onStore, wp]
  cases x s.exporter.store <;> rfl

theorem wp_exportRows_client {faults : RowFaults} {vars : Col → ℕ} {i : ℕ}
    {events : List PschEvent} :
    wp (exportRows faults vars i events) (fun _ s' => s'.exporter.client = s.exporter.client)
      (fun _ s' => s'.exporter.client = s.exporter.client) s := by
  induction events generalizing i s with
  | nil => rfl
  | cons ev rest ih =>
    rw [exportRows, wp_bind, beginRow, wp_modify, wp_bind, appendRow, wp_bind]
    refine wp_mono wp_onStore_client ?_ fun _ _ => id
    intro _ s' hs'
    rw [wp_modify]
    refine wp_mono ih ?_ ?_
    · exact fun _ _ h => h.trans hs'
    · exact fun _ _ h => h.trans hs'

theorem wp_exportEventStatsInternal_client {faults : RowFaults} {events : List PschEvent} :
    wp (exportEventStatsInternal faults events)
      (fun _ s' => s'.exporter.client = s.exporter.client)
      (fun _ s' => s'.exporter.client = s.exporter.client) s := by
  rw [exportEventStatsInternal, wp_bind]
  refine wp_log' ?_ fun _ => rfl
  rw [wp_bind, beginBatch, wp_bind, wp_modify]
  refine wp_mono wp_onStore_client ?_ fun _ _ => id
  intro vars s₁ hs₁
  rw [wp_bind]
  refine wp_mono wp_exportRows_client ?_ fun _ _ h => h.trans hs₁
  exact fun _ s₂ hs₂ => wp_log' (hs₂.trans hs₁) fun _ => hs₂.trans hs₁

theorem wp_exportEventStats_client {faults : RowFaults} {events : List PschEvent} :
    wp (exportEventStats faults events) (fun _ s' => s'.exporter.client = s.exporter.client)
      (fun _ s' => s'.exporter.client = s.exporter.client) s := by
  refine wp_catching (M := fun _ s' => s'.exporter.client = s.exporter.client) ?_ ?_ fun _ => id
  · rw [wp_bind]
    exact wp_mono wp_exportEventStatsInternal_client (fun _ _ => id) fun _ _ => id
  · intro e s' hs'
    unfold handleException
    rw [wp_bind]
    exact wp_log' hs' fun _ => hs'

/-- The rows of a batch leave the connection alone. -/
theorem client_called_rows (calls : List Call) (faults : RowFaults) (events : List PschEvent) :
    (called (calls ++ [.exportEventStats faults events])).exporter.client =
      (called calls).exporter.client := by
  rw [called, List.foldl_concat]
  exact ended_of_wp wp_exportEventStats_client

/-- No ERROR comes before the connection is closed. -/
def Call.Quiet : Call → Prop
  | .exportEventStats _ _ => True
  | .commitBatch io => io.Quiet
  | .establishNewConnection io => io.Quiet

/-- Such a call does not leave an open connection in the middle of an INSERT. -/
theorem Bounded.ended (h : Bounded s) {c : Call} (hquiet : c.Quiet) :
    Bounded (ended (perform c) s) := by
  apply ended_of_wp
  cases c with
  | exportEventStats faults events =>
    refine wp_mono wp_exportEventStats_client ?_ ?_
    · exact fun _ _ hs' => h.of_client (Or.inr (Or.inl hs'))
    · exact fun _ _ hs' => h.of_client (Or.inr (Or.inl hs'))
  | commitBatch io =>
    refine wp_mono wp_commitBatch ?_ ?_
    · exact fun _ _ hends => hends.bounded h
    · exact fun _ _ hleft => hleft.2.bounded rfl hquiet h
  | establishNewConnection io =>
    refine wp_mono wp_establishNewConnection ?_ ?_
    · rintro ok s' ⟨ready, client, rfl, hclient, -⟩
      exact h.of_client hclient
    · rintro e s' ⟨ready, client, rfl, hclient, -⟩
      exact h.of_client (hclient hquiet)

theorem bounded_called {calls : List Call} (hquiet : ∀ c ∈ calls, c.Quiet) :
    Bounded (called calls) := by
  have hrun : ∀ s, Bounded s →
      Bounded (calls.foldl (fun s c => Chc.ended (perform c) s) s) := by
    induction calls with
    | nil => exact fun _ h => h
    | cons c calls ih =>
      intro s h
      exact ih (fun c' hc' => hquiet c' (List.mem_cons_of_mem _ hc')) _
        (h.ended (hquiet c List.mem_cons_self))
  apply hrun
  intro said hsaid
  cases hsaid

/-- A conversation that was left in the middle of an INSERT is not taken up again, as long as no
ERROR comes between a failure and the closing of the connection: after any such calls, whatever else
the outside did in them, an open connection is between two INSERTs. After any calls at all,
`CommitBatch` returns, unless an ERROR leaves one of its messages, and returns true only when the
last INSERT on the connection is complete and is the one of this batch's block. -/
theorem conversation_at_boundary (calls : List Call) :
    ((∀ c ∈ calls, c.Quiet) →
      ∀ said, (called calls).exporter.client = some said → AtBoundary said) ∧
    ∀ io, wp (commitBatch io)
      (fun ok s' => ok = true → ∃ said, s'.exporter.client = some said ∧
        Inserted (buildInsertQuery (called calls).exporter.store.colNames)
          (called calls).exporter.store.block said)
      (fun x _ => x = .error ∧ ¬ io.NoError) (called calls) := by
  refine ⟨bounded_called, fun io => ?_⟩
  refine wp_mono wp_commitBatch (fun _ _ hends => hends.inserted) ?_
  exact fun _ _ hleft => ⟨hleft.1, hleft.2.noError rfl⟩

end Calls

/-! ## An interrupted INSERT -/

/-- A server that answers an INSERT as it should. -/
def answering : CommitScript where
  insert :=
    { header := fun _ => .packet .data none
      reply := fun _ => .packet .endOfStream none }

/-- The server does not answer after the block in time. -/
def timedOut : CommitScript where
  insert :=
    { header := fun _ => .packet .data none
      reply := fun _ => .fails "recv timeout" }

/-- The connection is closed after the timeout, and the next batch has one of its own. -/
theorem conversation_at_boundary_timedOut :
    let calls : List Call :=
      [.establishNewConnection {}, .exportEventStats {} [sampleRow "SELECT 1"],
        .commitBatch timedOut, .exportEventStats {} [sampleRow "SELECT 2"], .commitBatch answering]
    ∃ said, (called calls).exporter.client = some said ∧ said.length = 5 ∧ AtBoundary said := by
  intro calls
  have hquiet : ∀ c ∈ calls, c.Quiet := by
    intro c hc
    simp only [calls, List.mem_cons, List.not_mem_nil, or_false] at hc
    rcases hc with rfl | rfl | rfl | rfl | rfl
    · exact nofun
    · trivial
    · exact ⟨nofun, nofun⟩
    · trivial
    · exact ⟨nofun, nofun⟩
  have hlength : (called calls).exporter.client.map List.length = some 5 := by decide +kernel
  obtain ⟨said, hsaid, hfive⟩ := Option.map_eq_some_iff.mp hlength
  exact ⟨said, hsaid, hfive, (conversation_at_boundary calls).1 hquiet said hsaid⟩

/-- The message about that is left by an ERROR. -/
def interrupted : CommitScript := { timedOut with recordFailure := .raises }

/-- What the server has to say about the first INSERT comes first. -/
def late : CommitScript where
  insert :=
    { header := fun i => if i = 0 then .packet .endOfStream none else .packet .data none
      reply := fun _ => .packet .endOfStream none }

theorem not_atBoundary_of_broken {said : List Message} (h : said.getLast? = some .broken) :
    ¬ AtBoundary said := by
  rintro (rfl | ⟨query, block, before, header, reply, rfl, -⟩)
  · cases h
  · rw [List.getLast?_concat] at h
    cases h

/-- The INSERT of a batch gets no answer, and an ERROR leaves the message about it. -/
def interruptedCalls : List Call :=
  [.establishNewConnection {}, .exportEventStats {} [sampleRow "SELECT 1"], .commitBatch interrupted]

/-- The rows of the next one. -/
def nextRows : Call := .exportEventStats {} [sampleRow "SELECT 2"]

/-- The connection is still there, in the middle of the INSERT. The second batch is sent on it, and
reported as stored. -/
theorem interrupted_insert_reused :
    ∃ said, (called interruptedCalls).exporter.client = some said ∧ ¬ AtBoundary said ∧
      ∃ s' more, commitBatch late (called (interruptedCalls ++ [nextRows])) = .ok true s' ∧
        s'.exporter.client = some (said ++ more) := by
  have hlast : (called interruptedCalls).exporter.client.bind List.getLast? = some .broken := by
    decide +kernel
  obtain ⟨said, hsaid, hbroken⟩ := Option.bind_eq_some_iff.mp hlast
  have hnext := client_called_rows interruptedCalls {} [sampleRow "SELECT 2"]
  rw [← nextRows, hsaid] at hnext
  have hcommit : returns (commitBatch late) (fun s => s.exporter.client)
      (called (interruptedCalls ++ [nextRows])) =
        some (true, (called (interruptedCalls ++ [nextRows])).exporter.client.map fun said => said ++
          [.query insertStatement, .packet .endOfStream, .packet .data,
            .data (called (interruptedCalls ++ [nextRows])).exporter.store.block, .terminator,
            .packet .endOfStream]) := by
    decide +kernel
  rw [hnext] at hcommit
  obtain ⟨s', hok, hclient⟩ := ok_of_returns hcommit
  exact ⟨said, hsaid, not_atBoundary_of_broken hbroken, s', _, hok, hclient⟩

end Chc

end PgStatCh
