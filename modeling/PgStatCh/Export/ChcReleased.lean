import PgStatCh.Export.ChcCommit

/-!
# Export.ChcReleased — the exporter releases what it holds, once

* `all_released` — over the life of a worker no object is used or released that does not live, and
  when the exporter has been destroyed no object lives.
* `sockets_held` — between two calls every socket, OpenSSL object and memory context that lives is
  in a field of the exporter, and a call that returns without a connection leaves no socket open.
* `calls_refine` — a call that returns has done what the exporter of `Exporter` does, for some
  replies of the outside: the objects change nothing that the exporter does.

All of them assume that `chc_block_builder_destroy` does not look at the types of the columns: after
a failed insert `RecordFailure` has closed the connection, and with it the types, before the
builder's guard destroys the builder.
-/

namespace PgStatCh

open Lib Prog

namespace ChcResources

/-! ## The life of a worker -/

section Life

variable {s : ExportState Exporter} {cfg : Setup}

/-- What is left behind is in one of the two contexts. -/
theorem Junk.outside_outside {J : Multiset (Obj Kind)} (hJ : Junk J) :
    Objects.outside (Kind.inside .conn) (Objects.outside (Kind.inside .batch) J) = 0 := by
  refine Multiset.eq_zero_of_forall_notMem fun o ho => ?_
  obtain ⟨ho, hconn⟩ := Objects.mem_outside.mp ho
  obtain ⟨ho, hbatch⟩ := Objects.mem_outside.mp ho
  obtain ⟨c, hc⟩ := hJ o ho
  cases c with
  | conn => cases hconn.symm.trans hc
  | batch => cases hbatch.symm.trans hc

/-- The destructor releases what the fields hold, and what is left behind ends with the contexts. -/
theorem wp_destroy (h : Has 0 s.exporter) :
    wp destroy (fun _ s' => s'.exporter.objects.live = 0) (fun _ _ => False) s := by
  rw [destroy, wp_bind]
  refine wp_closeConnection_has h notMem_zero_inside fun w₁ h => ?_
  obtain ⟨J, h, hJ⟩ := h
  rw [wp_bind]
  refine wp_clearTypes h fun w h => ?_
  have hidle : Exporter.Idle { s.exporter.closed w₁ with objects := w, types := [] } :=
    ⟨rfl, rfl, rfl, rfl, rfl⟩
  have hlive : w.live = opt (.context .conn) s.exporter.connCxt +
      opt (.context .batch) s.exporter.batchCxt + J := by
    refine h.live.trans ?_
    rw [hidle.outer_eq, hidle.inner_eq, add_zero, zero_add]
    rfl
  rw [wp_bind, wp_get, wp_bind]
  change wp (deleteContext .batch s.exporter.batchCxt) _ _ _
  cases hbatch : s.exporter.batchCxt with
  | none =>
    -- without the contexts nothing can be left behind in them
    have hconn : s.exporter.connCxt = none := by
      have hnone : s.exporter.batchCxt.isSome = s.exporter.connCxt.isSome := h.contexts
      rw [hbatch] at hnone
      exact Option.isNone_iff_eq_none.mp (Option.isSome_eq_false_iff.mp hnone.symm)
    have hzero : J = 0 := by
      refine Multiset.eq_zero_of_forall_notMem fun o ho => ?_
      obtain ⟨c, hc⟩ := hJ o ho
      have hno := (h.idle hconn).2 o (Multiset.mem_add.mpr (Or.inr ho)) c
      cases hno.symm.trans hc
    rw [deleteContext, wp_pure]
    change wp (deleteContext .conn s.exporter.connCxt) _ _ _
    rw [hconn, deleteContext, wp_pure]
    change w.live = 0
    rw [hlive, hconn, hbatch, hzero, opt_none, opt_none, add_zero, add_zero]
  | some b =>
    obtain ⟨c, hconn⟩ : ∃ c, s.exporter.connCxt = some c := by
      have hsome : s.exporter.batchCxt.isSome = s.exporter.connCxt.isSome := h.contexts
      rw [hbatch] at hsome
      exact Option.isSome_iff_exists.mp hsome.symm
    have hlive' : w.live = ⟨.context .batch, b⟩ ::ₘ (⟨.context .conn, c⟩ ::ₘ J) := by
      rw [hlive, hconn, hbatch, opt_some, opt_some, ← Multiset.singleton_add,
        ← Multiset.singleton_add]
      abel
    -- first the batch's context, then the connection's
    refine wp_memoryContextDelete hlive' fun w₂ hw₂ => ?_
    have hcons : w₂.live = ⟨.context .conn, c⟩ ::ₘ Objects.outside (Kind.inside .batch) J :=
      hw₂.trans (Multiset.filter_cons_of_pos J rfl)
    change wp (deleteContext .conn s.exporter.connCxt) _ _ _
    rw [hconn]
    refine wp_memoryContextDelete hcons fun w₃ hw₃ => ?_
    exact hw₃.trans hJ.outside_outside

/-- The part of `PschExportBatch` that commits the batch. -/
theorem wp_exportRows {commit : Option (List PschEvent × List Chc.Column × CommitScript)}
    (hdestroy : cfg.destroyReadsTypes = false) (h : Has 0 s.exporter) :
    wp (exportRows cfg commit)
      (fun _ s' => Has 0 s'.exporter ∧ (s.exporter.Tidy → s'.exporter.Tidy)) (Halts 0) s := by
  cases commit with
  | none => exact ⟨h, id⟩
  | some c =>
    obtain ⟨rows, cols, io⟩ := c
    rw [exportRows, wp_bind, wp_modify]
    refine wp_mono (wp_commitBatch hdestroy h.other) ?_ fun _ _ => id
    rintro ok s' ⟨h, htidy, -⟩
    exact ⟨h, htidy⟩

/-- A call that returns leaves nothing of a connection without a client. -/
theorem wp_perform (hdestroy : cfg.destroyReadsTypes = false) (h : Has 0 s.exporter) (c : Call) :
    wp (perform cfg c) (fun _ s' => Has 0 s'.exporter ∧ s'.exporter.Tidy) (Halts 0) s := by
  have hestablish : ∀ io, wp (establishNewConnection cfg.toTls io)
      (fun _ s' => Has 0 s'.exporter ∧ s'.exporter.Tidy) (Halts 0) s := by
    intro io
    refine wp_mono (wp_establishNewConnection h notMem_zero_inside) ?_ fun _ _ => id
    rintro ok s' ⟨h, hest⟩
    refine ⟨h, ?_⟩
    cases ok with
    | false => exact fun _ => hest.idle rfl
    | true => exact tidy_of_client hest.client
  cases c with
  | establishNewConnection io => exact hestablish io
  | exportBatch io =>
    rw [perform, exportBatch, wp_bind, wp_get]
    split
    · next hclient =>
      -- there was a client
      refine wp_mono (wp_exportRows hdestroy h) ?_ fun _ _ => id
      rintro ok s' ⟨h, htidy⟩
      exact ⟨h, htidy (tidy_of_client hclient)⟩
    · rw [wp_bind]
      refine wp_mono (hestablish io.connect) ?_ fun _ _ => id
      rintro ok s' ⟨h, htidy⟩
      cases ok with
      -- no connection: the batch is not even taken
      | false => exact ⟨h, htidy⟩
      | true =>
        refine wp_mono (wp_exportRows hdestroy h) ?_ fun _ _ => id
        rintro ok s'' ⟨h, htidy'⟩
        exact ⟨h, htidy' htidy⟩

/-- Whatever a call is left with, the next one or the destructor can go on from it. -/
theorem wp_serve (hdestroy : cfg.destroyReadsTypes = false) (h : Has 0 s.exporter)
    (calls : List Call) :
    wp (serve cfg calls) (fun _ s' => s'.exporter.objects.live = 0) (fun _ _ => False) s := by
  -- over the calls: `Has 0` holds between any two of them
  induction calls generalizing s with
  | nil => exact wp_destroy h
  | cons c rest ih =>
    rw [serve, wp_bind, attempt, wp_tryCatch, wp_bind]
    refine wp_mono (wp_perform hdestroy h c) ?_ ?_
    · rintro ok s' ⟨h, -⟩
      exact ih h
    · rintro e s' ⟨rfl | rfl, h⟩
      · -- an `ERROR` is caught, and the worker goes on
        exact ih h
      · exact wp_destroy h

/-- A new exporter. -/
def fresh : ExportState Exporter := { exporter := {} }

/-- A new exporter holds nothing. -/
theorem has_fresh : Has 0 fresh.exporter := by
  refine ⟨0, ⟨rfl, rfl, rfl, rfl, fun _ => ⟨⟨rfl, rfl, rfl, rfl, rfl⟩, fun o ho => ?_⟩,
    fun f hf => ?_, fun hclient => ?_⟩, fun o ho => ?_⟩
  · exact absurd ho (Multiset.notMem_zero o)
  · cases hf
  · cases hclient
  · exact absurd ho (Multiset.notMem_zero o)

/-- A handle that is kept for too long is no object any more. -/
example : ∃ s, (do
    let f ← make .socket
    release ⟨.socket, f⟩
    let _ ← make .socket
    release ⟨.socket, f⟩ : M Unit) fresh = .error .fault s := ⟨_, rfl⟩

/-- Whatever becomes of the calls, and wherever the worker is told to end: no object is used or
released that does not live, and in the end none lives. -/
theorem all_released (cfg : Setup) (hdestroy : cfg.destroyReadsTypes = false)
    (calls : List Call) :
    ∃ s, serve cfg calls fresh = .ok () s ∧ s.exporter.objects.live = 0 := by
  have h : wp (serve cfg calls) _ _ fresh := wp_serve hdestroy has_fresh calls
  obtain ⟨a, s, hs⟩ := exists_ok h
  have hlive := wp_of_ok hs h
  exact ⟨s, hs, hlive⟩

/-! ### Calls that go wrong -/

/-- TLS, and a library that destroys a builder without a look at the types. -/
def overTls : Setup where
  useTls := true
  skipTlsVerify := false
  destroyReadsTypes := false

/-- `SSL_connect` fails: the socket and both of OpenSSL's objects are there by then. -/
def handshakeFails : ConnectScript := { tls := { connect := false } }

/-- The server answers nothing. -/
def unanswered : CommitScript where
  insert :=
    { header := fun _ => { recv := .fails "" }
      reply := fun _ => { recv := .fails "" } }

/-- A batch of one event, in one column that has a type. -/
def batchOf (io : CommitScript) : Call :=
  .exportBatch
    { commit := some ([{}], [⟨"duration_us", .uint64, .fixed "UInt64" [.uint64 0]⟩], io) }

/-- An insert fails and closes the connection; another one is jumped out of, with its builder left
behind; in the last one the worker is told to end. -/
def mishaps : List Call :=
  [.establishNewConnection handshakeFails, batchOf unanswered,
    batchOf { unanswered with inserting := .error }, batchOf { unanswered with failed := .exit }]

theorem all_released_mishaps :
    overTls.destroyReadsTypes = false ∧
      ∃ s, serve overTls mishaps fresh = .ok () s ∧ s.exporter.objects.live = 0 :=
  ⟨rfl, all_released overTls rfl mishaps⟩

/-- The assumption is needed: a library that looked at the types would use them after their end, as
soon as an insert fails. -/
theorem faults_of_destroyReadsTypes (cfg : Setup) (hdestroy : cfg.destroyReadsTypes = true) :
    ∃ s, serve cfg [batchOf unanswered] fresh = .error .fault s := by
  obtain ⟨⟨useTls, skipTlsVerify⟩, readsTypes⟩ := cfg
  subst hdestroy
  cases useTls <;> cases skipTlsVerify <;> exact ⟨_, rfl⟩

/-! ### Between two calls -/

/-- The state after these calls, however each of them was left. -/
def after (cfg : Setup) (calls : List Call) : ExportState Exporter :=
  calls.foldl (fun s c => match perform cfg c s with
    | .ok _ s' => s'
    | .error _ s' => s') fresh

/-- Between two calls, however they were left, the fields say what is open. -/
theorem has_after (hdestroy : cfg.destroyReadsTypes = false) (calls : List Call) :
    Has 0 (after cfg calls).exporter := by
  induction calls using List.reverseRecOn with
  | nil => exact has_fresh
  | append_singleton calls c ih =>
    have h : wp (perform cfg c) _ _ _ := wp_perform hdestroy ih c
    rw [after, List.foldl_append, List.foldl_cons, List.foldl_nil]
    change Has 0 (match perform cfg c (after cfg calls) with
      | .ok _ s' => s'
      | .error _ s' => s').exporter
    rw [wp] at h
    split at h
    · next hr =>
      -- the call returned
      rw [hr]
      exact h.1
    · next hr =>
      rw [hr]
      exact h.2

/-- Every socket, OpenSSL object and memory context that lives is in a field of the exporter, and
a call that returns without a connection leaves no socket open. -/
theorem sockets_held (cfg : Setup) (hdestroy : cfg.destroyReadsTypes = false)
    (calls : List Call) :
    (∀ o ∈ (after cfg calls).exporter.objects.live, (∀ c, o.kind.inside c = false) →
      o ∈ (after cfg calls).exporter.outer) ∧
    ∀ c ok s, perform cfg c (after cfg calls) = .ok ok s → s.exporter.client = none →
      ∀ o ∈ s.exporter.objects.live, o.kind ≠ .socket ∧ o.kind ≠ .sslCtx ∧ o.kind ≠ .ssl := by
  have hhas := has_after hdestroy calls
  constructor
  · intro o ho hoffline
    obtain ⟨J, h, hJ⟩ := hhas
    rw [h.live, Multiset.mem_add, Multiset.mem_add, zero_add] at ho
    rcases ho with (ho | ho) | ho
    · exact ho
    · -- the others are in the connection's memory context
      cases (hoffline .conn).symm.trans (inside_inner ho).1
    · obtain ⟨c, hc⟩ := hJ o ho
      cases (hoffline c).symm.trans hc
  · intro c ok s hperform hclient o ho
    obtain ⟨⟨J, h, hJ⟩, htidy⟩ := wp_of_ok hperform (wp_perform hdestroy hhas c)
    have hidle := htidy hclient
    rw [h.live, hidle.outer_eq, hidle.inner_eq, add_zero, zero_add, Multiset.mem_add,
      Multiset.mem_add] at ho
    rcases ho with (ho | ho) | ho
    · rw [kind_of_mem_opt ho]
      exact ⟨by decide, by decide, by decide⟩
    · rw [kind_of_mem_opt ho]
      exact ⟨by decide, by decide, by decide⟩
    · obtain ⟨c, hc⟩ := hJ o ho
      refine ⟨fun hk => ?_, fun hk => ?_, fun hk => ?_⟩
      all_goals
        rw [hk] at hc
        cases hc

theorem sockets_held_handshakeFails :
    ∃ s, perform overTls (.establishNewConnection handshakeFails) (after overTls mishaps) =
        .ok false s ∧ s.exporter.client = none ∧
      ∀ o ∈ s.exporter.objects.live, o.kind ≠ .socket ∧ o.kind ≠ .sslCtx ∧ o.kind ≠ .ssl := by
  obtain ⟨s, hs, hclient⟩ := ok_of_returns (a := false) (b := none) (f := (·.exporter.client))
    (x := perform overTls (.establishNewConnection handshakeFails)) (s := after overTls mishaps)
    (by decide +kernel)
  exact ⟨s, hs, hclient, (sockets_held overTls rfl mishaps).2 _ _ _ hs hclient⟩

/-- `EstablishNewConnection` and `CommitBatch`, where they return, have done what the exporter of
`Exporter` does for some replies of the outside, whatever was called before. -/
theorem calls_refine (cfg : Setup) (hdestroy : cfg.destroyReadsTypes = false)
    (calls : List Call) (rows : List PschEvent) :
    let s := { after cfg calls with
      exporter.columns := rows, exporter.exportedCount := rows.length }
    (∀ io ok s', establishNewConnection cfg.toTls io s = .ok ok s' →
      ∃ plan, ClickHouseExporter.establishNewConnection plan (base s) = .ok ok (base s')) ∧
    ∀ io cols ok s', commitBatch cfg io cols s = .ok ok s' →
      ∃ plan, ClickHouseExporter.commitBatch plan (base s) = .ok ok (base s') := by
  intro s
  have hhas : Has 0 s.exporter := (has_after hdestroy calls).other
  constructor
  · intro io ok s' hs'
    obtain ⟨-, hest⟩ := wp_of_ok hs' (wp_establishNewConnection hhas notMem_zero_inside)
    obtain ⟨contexts, connect, hplan⟩ := hest.establishNewConnection
    exact ⟨planOf .ok contexts connect .ok .ok, hplan _ silent_planOf rfl rfl⟩
  · intro io cols ok s' hs'
    obtain ⟨-, -, hplan⟩ := wp_of_ok hs' (wp_commitBatch hdestroy hhas)
    exact hplan

end Life

end ChcResources

end PgStatCh
