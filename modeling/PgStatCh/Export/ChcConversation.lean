import PgStatCh.Export.ChcOpen

/-!
# Export.ChcConversation — the block and the conversation with the server

The columns put their types into the exporter's table and into the block, and `SendInsert` sends the
block and reads the server's packets. Neither changes a field that is released elsewhere: a type is
in the table before the builder points to it (`Crunching`), and a packet is cleared before
`RecvUntil` is left (`Talking`).

* `wp_crunchAll`: the columns' `Crunch`, one after the other.
* `wp_sendInsert`: the conversation, whatever the server answers.
-/

namespace PgStatCh

open Lib Prog

namespace ChcResources

/-! ## The block -/

/-- A function is left: `E` holds where it is an exception. -/
def Leaves (L : Multiset (Obj Kind)) (E : Exception → ExportState Exporter → Prop) (e : Stop)
    (s : ExportState Exporter) : Prop :=
  Has L s.exporter ∧
    match e with
    | .exception x => E x s
    | .error | .exit => True
    | .fault => False

/-- Where a log statement is left, no exception is on its way. -/
theorem Halts.leaves {L : Multiset (Obj Kind)} {E : Exception → ExportState Exporter → Prop}
    {e : Stop} {s : ExportState Exporter} (h : Halts L e s) : Leaves L E e s := by
  obtain ⟨rfl | rfl, h⟩ := h
  · exact ⟨h, trivial⟩
  · exact ⟨h, trivial⟩

/-- `E` is monotone. -/
theorem Leaves.mono {L : Multiset (Obj Kind)} {E E' : Exception → ExportState Exporter → Prop}
    {e : Stop} {s : ExportState Exporter} (h : Leaves L E e s) (hE : ∀ x s, E x s → E' x s) :
    Leaves L E' e s := by
  obtain ⟨h, he⟩ := h
  cases e with
  | exception x => exact ⟨h, hE x s he⟩
  | error => exact ⟨h, trivial⟩
  | exit => exact ⟨h, trivial⟩
  | fault => exact he.elim

/-- The types that the builder points to are in the exporter's table. -/
def Exporter.Points (x : Exporter) : Prop := ∀ t ∈ x.bbTypes, ∃ name, (name, t) ∈ x.types

section Block

variable {s : ExportState Exporter} {L : Multiset (Obj Kind)}

/-- A type of the table lives. -/
theorem Has.type_mem {x : Exporter} (h : Has L x) {name : String} {t : ℕ}
    (ht : (name, t) ∈ x.types) : ⟨.type, t⟩ ∈ x.objects.live := by
  obtain ⟨J, h, -⟩ := h
  rw [h.live]
  refine Multiset.mem_add.mpr (Or.inl (Multiset.mem_add.mpr (Or.inr ?_)))
  refine Multiset.mem_add.mpr (Or.inr ?_)
  exact Multiset.mem_coe.mpr (List.mem_map.mpr ⟨(name, t), ht, rfl⟩)

/-- `ResolveType` returns a type that is in the table. Where `emplace` throws, the type that was
parsed is in no table: it is left behind in the connection's context. -/
theorem wp_resolveType {io : CrunchScript} {typeName : String} (h : Has L s.exporter)
    (hcxt : s.exporter.connCxt.isSome) :
    wp (resolveType io typeName)
      (fun t s' => Has L s'.exporter ∧ ∃ w types err,
        s' = { s with
          exporter.objects := w, exporter.types := types, exporter.buildErr := err } ∧
        (∀ e ∈ s.exporter.types, e ∈ types) ∧
        ∀ id, t = some id → ∃ name, (name, id) ∈ types)
      (Leaves L fun _ s' => ∃ w, s' = { s with exporter.objects := w }) s := by
  rw [resolveType, wp_bind, wp_get]
  split
  · next t ht =>
    -- it was parsed before
    refine ⟨h, _, _, _, rfl, fun _ => id, fun id hid => ?_⟩
    cases hid
    obtain ⟨before, after, htypes, -⟩ := List.lookup_eq_some_iff.mp ht
    refine ⟨typeName, ?_⟩
    rw [htypes]
    exact List.mem_append_right _ List.mem_cons_self
  · split
    · -- `chc_type_parse` fails
      refine ⟨h.other, _, _, _, rfl, fun _ => id, fun id hid => ?_⟩
      cases hid
    · obtain ⟨cxt, hsome⟩ := Option.isSome_iff_exists.mp hcxt
      rw [wp_bind]
      refine wp_allocate_has h hsome fun t w h => ?_
      rw [wp_bind]
      refine wp_throwing ?_ fun e => ⟨h.leave (c := .conn) rfl, w, rfl⟩
      refine ⟨h.addType hcxt typeName, _, _, _, rfl, ?_, fun id hid => ?_⟩
      · exact fun e he => List.mem_append_left _ he
      · cases hid
        exact ⟨typeName, List.mem_append_right _ List.mem_cons_self⟩

/-- What the columns' `Crunch` keeps. -/
structure Crunching (bb : ℕ) (s₀ s : ExportState Exporter) : Prop where
  base : base s = base s₀
  bb : s.exporter.bb = some bb
  points : s.exporter.Points

variable {bb : ℕ} {s₀ : ExportState Exporter}

/-- The connection's context stays, since only the objects change. -/
theorem Crunching.connCxt (h : Crunching bb s₀ s)
    (hready : s₀.exporter.memoryContextsReady = true) : s.exporter.connCxt.isSome := by
  have hbase : s.exporter.memoryContextsReady = s₀.exporter.memoryContextsReady :=
    congrArg (fun b => b.exporter.memoryContextsReady) h.base
  rw [hready, Exporter.memoryContextsReady, Bool.and_eq_true] at hbase
  exact hbase.1

/-- A column that points to types of the table is appended. -/
theorem wp_appendColumn {io : CrunchScript} {ts : List ℕ} (h : Has L s.exporter)
    (hbb : ⟨.builder, bb⟩ ∈ L) (hc : Crunching bb s₀ s)
    (hts : ∀ t ∈ ts, ∃ name, (name, t) ∈ s.exporter.types)
    {E : Stop → ExportState Exporter → Prop} :
    wp (appendColumn io ts) (fun _ s' => Has L s'.exporter ∧ Crunching bb s₀ s') E s := by
  rw [appendColumn, wp_bind, wp_get]
  split
  · -- `bb_` is set
    next hnone => cases hc.bb.symm.trans hnone
  · next b hb =>
    obtain rfl : b = bb := Option.some.inj (hb.symm.trans hc.bb)
    rw [wp_bind]
    refine wp_use (h.mem hbb) ?_
    split
    · exact ⟨h.other, hc.base, hc.bb, hc.points⟩
    · refine ⟨h.other, hc.base, hc.bb, fun t ht => ?_⟩
      rcases List.mem_append.mp ht with ht | ht
      · exact hc.points t ht
      · exact hts t ht

/-- `Crunch` of one column: `AppendFixed` resolves its type first, `AppendString` needs none. -/
theorem wp_crunch {io : CrunchScript} {b : Chc.Buffer} (h : Has L s.exporter)
    (hbb : ⟨.builder, bb⟩ ∈ L) (hready : s₀.exporter.memoryContextsReady = true)
    (hc : Crunching bb s₀ s) :
    wp (crunch io b) (fun _ s' => Has L s'.exporter ∧ Crunching bb s₀ s')
      (Leaves L fun _ s' => base s' = base s₀) s := by
  rw [crunch, wp_bind, wp_get]
  split
  · -- an earlier column has failed: nothing is done any more
    exact ⟨h, hc⟩
  · rw [wp_bind]
    refine wp_mono (wp_resolveType h (hc.connCxt hready)) ?_ ?_
    · rintro t s' ⟨h, w, types, err, rfl, htypes, ht⟩
      -- the table has only grown, so the builder points into it as before
      have hc' : Crunching bb s₀ { s with
          exporter.objects := w, exporter.types := types, exporter.buildErr := err } := by
        refine ⟨hc.base, hc.bb, fun t ht => ?_⟩
        obtain ⟨name, hname⟩ := hc.points t ht
        exact ⟨name, htypes _ hname⟩
      cases t with
      | none => exact ⟨h, hc'⟩
      | some id =>
        obtain ⟨name, hname⟩ := ht id rfl
        simp only [wp_bind]
        refine wp_use (h.type_mem hname) (wp_appendColumn h hbb hc' fun t ht => ?_)
        rw [List.mem_singleton.mp ht]
        exact ⟨name, hname⟩
    · refine fun e s' he => he.mono ?_
      rintro x s' ⟨w, rfl⟩
      exact hc.base
  · refine wp_appendColumn h hbb hc fun t ht => ?_
    cases ht

/-- The columns one after the other. -/
theorem wp_crunchAll {io : ℕ → CrunchScript} {k : ℕ} {cols : List Chc.Column}
    (h : Has L s.exporter) (hbb : ⟨.builder, bb⟩ ∈ L)
    (hready : s₀.exporter.memoryContextsReady = true) (hc : Crunching bb s₀ s) :
    wp (crunchAll io k cols) (fun _ s' => Has L s'.exporter ∧ Crunching bb s₀ s')
      (Leaves L fun _ s' => base s' = base s₀) s := by
  induction cols generalizing k s with
  | nil => exact ⟨h, hc⟩
  | cons col rest ih =>
    rw [crunchAll, wp_bind]
    refine wp_mono (wp_crunch h hbb hready hc) ?_ fun _ _ => id
    rintro _ s' ⟨h, hc⟩
    exact ih h hc

/-! ## The conversation -/

/-- While there is a client, it lives and so does what it reads from and writes to. -/
theorem wp_useClient {Q : Unit → ExportState Exporter → Prop}
    {E : Stop → ExportState Exporter → Prop} (h : Has L s.exporter)
    (hclient : s.exporter.client.isSome) (hQ : Q () s) : wp useClient Q E s := by
  obtain ⟨client, hsome⟩ := Option.isSome_iff_exists.mp hclient
  obtain ⟨o, hio, ho⟩ : ∃ o, s.exporter.io = some o ∧
      o ∈ opt .socket s.exporter.fd + opt .ssl s.exporter.ssl := by
    obtain ⟨J, h, -⟩ := h
    exact h.io hclient
  have hmem : ⟨.client, client⟩ ∈ s.exporter.objects.live := by
    obtain ⟨J, h, -⟩ := h
    rw [h.live]
    simp [Exporter.inner, hsome]
  rw [useClient, wp_bind, wp_get]
  split
  · next client' target hclient' htarget =>
    obtain rfl : client' = client := Option.some.inj (hclient'.symm.trans hsome)
    obtain rfl : target = o := Option.some.inj (htarget.symm.trans hio)
    rw [wp_bind]
    exact wp_use hmem (wp_use (h.io_mem ho) hQ)
  · next hnone => exact absurd hio (hnone client o hsome)

/-- The conversation goes on from `s`, and only the objects have changed since. -/
structure Talking (L : Multiset (Obj Kind)) (bb : ℕ) (s s' : ExportState Exporter) : Prop where
  has : Has L s'.exporter
  same : ∃ w, s' = { s with exporter.objects := w }
  client : s'.exporter.client.isSome
  connCxt : s'.exporter.connCxt.isSome
  points : s'.exporter.Points
  builder : ⟨.builder, bb⟩ ∈ L

/-- Objects that were made have been released again. -/
theorem Talking.objects {w : Objects Kind} (h : Talking L bb s₀ s)
    (hhas : Has L { s.exporter with objects := w }) :
    Talking L bb s₀ { s with exporter.objects := w } := by
  obtain ⟨w', rfl⟩ := h.same
  exact ⟨hhas, ⟨w, rfl⟩, h.client, h.connCxt, h.points, h.builder⟩

/-- Without the objects nothing has changed. -/
theorem Talking.base_eq (h : Talking L bb s₀ s) : base s = base s₀ := by
  obtain ⟨w, rfl⟩ := h.same
  rfl

/-- How a part of the conversation ends: it goes on, or it is left. -/
theorem Talking.leaves (h : Talking L bb s₀ s) (e : Exception) :
    Leaves L (fun _ s' => Talking L bb s₀ s') (.exception e) s :=
  ⟨h.has, h⟩

/-- A call that sends needs the client only. -/
theorem wp_send {step : Chc.Step} {text : String} (h : Talking L bb s₀ s) :
    wp (send step text) (fun _ s' => Talking L bb s₀ s')
      (Leaves L fun _ s' => Talking L bb s₀ s') s := by
  unfold send
  rw [wp_bind]
  refine wp_useClient h.has h.client ?_
  cases step with
  | ok => exact h
  | fails message => exact h
  | throws e => exact h.leaves e

/-- `RecvUntil` clears every packet that it is given. -/
theorem wp_recvLoop {target : Chc.PacketKind} {io : ℕ → RecvScript} {i n : ℕ}
    (h : Talking L bb s₀ s) :
    wp (recvLoop target io i n) (fun _ s' => Talking L bb s₀ s')
      (Leaves L fun _ s' => Talking L bb s₀ s') s := by
  -- over the packets that may still come: each turn ends with the objects of its start
  induction n generalizing i s with
  | zero => exact h
  | succ n ih =>
    rw [recvLoop, wp_bind]
    refine wp_useClient h.has h.client ?_
    split
    · next e _ => exact h.leaves e
    · exact h
    · obtain ⟨cxt, hsome⟩ := Option.isSome_iff_exists.mp h.connCxt
      rw [wp_bind, wp_get, wp_bind]
      refine wp_allocate_has h.has hsome fun packet w hpacket => ?_
      rw [wp_bind]
      -- the guard clears the packet, also where the copying of its text throws
      refine wp_withCleanup ?_
      split
      · rw [wp_bind]
        refine wp_throwing ?_ fun e => ?_
        · exact wp_release_has hpacket fun w hw => h.objects hw
        · exact wp_release_has hpacket fun w hw => (h.objects hw).leaves e
      · split
        · exact wp_release_has hpacket fun w hw => h.objects hw
        · exact wp_release_has hpacket fun w hw => ih (h.objects hw)

/-- Types of the table can be read. -/
theorem wp_useTypes {ts : List ℕ} {Q : Unit → ExportState Exporter → Prop}
    {E : Stop → ExportState Exporter → Prop} (h : Has L s.exporter)
    (hts : ∀ t ∈ ts, ∃ name, (name, t) ∈ s.exporter.types) (hQ : Q () s) :
    wp (useTypes ts) Q E s := by
  induction ts with
  | nil => exact hQ
  | cons t rest ih =>
    obtain ⟨name, hname⟩ := hts t List.mem_cons_self
    rw [useTypes, wp_bind]
    exact wp_use (h.type_mem hname) (ih fun t ht => hts t (List.mem_cons_of_mem _ ht))

/-- `chc_client_send_data` reads a builder and types that live. -/
theorem wp_useBlock {Q : Unit → ExportState Exporter → Prop}
    {E : Stop → ExportState Exporter → Prop} (h : Has L s.exporter) (hbb : ⟨.builder, bb⟩ ∈ L)
    (hpoints : s.exporter.Points) (hQ : Q () s) : wp (useBlock bb) Q E s := by
  rw [useBlock, wp_bind]
  refine wp_use (h.mem hbb) ?_
  rw [wp_bind, wp_get]
  exact wp_useTypes h hpoints hQ

/-- The next part of the conversation, unless there is an error message. -/
theorem wp_andThen {x rest : M (Option String)}
    (hx : wp x (fun _ s' => Talking L bb s₀ s') (Leaves L fun _ s' => Talking L bb s₀ s') s)
    (hrest : ∀ s', Talking L bb s₀ s' → wp rest (fun _ s'' => Talking L bb s₀ s'')
      (Leaves L fun _ s'' => Talking L bb s₀ s'') s') :
    wp (do
        match ← x with
        | some message => pure (some message)
        | none => rest)
      (fun _ s' => Talking L bb s₀ s') (Leaves L fun _ s' => Talking L bb s₀ s') s := by
  rw [wp_bind]
  refine wp_mono hx ?_ fun _ _ => id
  intro message s' h
  cases message with
  | some message => exact h
  | none => exact hrest s' h

/-- Whatever the server answers, `SendInsert` has cleared its packets when it is left. -/
theorem wp_sendInsert {io : InsertScript} (h : Talking L bb s₀ s) :
    wp (sendInsert io bb) (fun _ s' => Talking L bb s₀ s')
      (Leaves L fun _ s' => Talking L bb s₀ s') s := by
  rw [sendInsert, wp_bind]
  refine wp_throwing ?_ h.leaves
  refine wp_andThen (wp_send h) fun s' h => ?_
  refine wp_andThen (wp_recvLoop h) fun s' h => ?_
  rw [wp_bind]
  refine wp_useBlock h.has h.builder h.points ?_
  refine wp_andThen (wp_send h) fun s' h => ?_
  refine wp_andThen (wp_send h) fun s' h => ?_
  exact wp_recvLoop h

end Block

end ChcResources

end PgStatCh
