import Mathlib.Tactic.Abel
import PgStatCh.Export.ChcResources

/-!
# Export.ChcHeld — what the ClickHouse exporter holds

`Inv L` says which objects live: those of the exporter's fields, and `L`. What an exception or a
jump has left behind is in a memory context and ends with it (`Has`).

* Rules for the calls that use, make and release an object.
* `Inv`, `Has`: what is held between two functions of the exporter.
* `wp_closeConnection`: what `CloseConnection` and the functions that it calls leave.

What the functions that open something do to the fields is in `ChcOpen`.
-/

namespace PgStatCh

open Lib Prog

namespace ChcResources

/-! ## Rules -/

section Rules

variable {s : ExportState Exporter} {Q : Unit → ExportState Exporter → Prop}
  {E : Stop → ExportState Exporter → Prop} {o : Obj Kind} {m : Multiset (Obj Kind)}

/-- An object that lives can be used. -/
theorem wp_use (hmem : o ∈ s.exporter.objects.live) (hQ : Q () s) : wp (use o) Q E s := by
  rw [use, wp_bind, wp_get, if_pos hmem]
  exact hQ

/-- It is released once: it does not live afterwards, and the others do. -/
theorem wp_release (hlive : s.exporter.objects.live = o ::ₘ m)
    (hQ : ∀ w : Objects Kind, w.live = m → Q () { s with exporter.objects := w }) :
    wp (release o) Q E s := by
  rw [release, wp_bind]
  refine wp_use ?_ ?_
  · rw [hlive]
    exact Multiset.mem_cons_self o m
  · exact hQ _ (Objects.live_remove hlive)

/-- A new object is different from all that live. -/
theorem wp_make {Q : ℕ → ExportState Exporter → Prop} {kind : Kind}
    (hQ : ∀ id (w : Objects Kind), w.live = ⟨kind, id⟩ ::ₘ s.exporter.objects.live →
      Q id { s with exporter.objects := w }) :
    wp (make kind) Q E s :=
  hQ s.exporter.objects.next (s.exporter.objects.add kind) rfl

/-- An allocator needs its memory context. -/
theorem wp_allocate {Q : ℕ → ExportState Exporter → Prop} {kind : Kind} {c : Cxt}
    {al : Option ℕ} {cxt : ℕ} (hal : al = some cxt)
    (hmem : ⟨.context c, cxt⟩ ∈ s.exporter.objects.live)
    (hQ : ∀ id (w : Objects Kind), w.live = ⟨kind, id⟩ ::ₘ s.exporter.objects.live →
      Q id { s with exporter.objects := w }) :
    wp (allocate c al kind) Q E s := by
  subst hal
  simp only [allocate, wp_bind]
  exact wp_use hmem (wp_make hQ)

/-- What is in a memory context ends when it is reset, whoever points to it. -/
theorem wp_memoryContextReset {c : Cxt} {cxt : ℕ}
    (hmem : ⟨.context c, cxt⟩ ∈ s.exporter.objects.live)
    (hQ : ∀ w : Objects Kind, w.live = Objects.outside (Kind.inside c) s.exporter.objects.live →
      Q () { s with exporter.objects := w }) :
    wp (memoryContextReset c cxt) Q E s := by
  rw [memoryContextReset, wp_bind]
  exact wp_use hmem (hQ _ rfl)

/-- The context itself ends as well. -/
theorem wp_memoryContextDelete {c : Cxt} {cxt : ℕ}
    (hlive : s.exporter.objects.live = ⟨.context c, cxt⟩ ::ₘ m)
    (hQ : ∀ w : Objects Kind, w.live = Objects.outside (Kind.inside c) m →
      Q () { s with exporter.objects := w }) :
    wp (memoryContextDelete c cxt) Q E s := by
  rw [memoryContextDelete, wp_bind]
  refine wp_memoryContextReset ?_ fun w hw => ?_
  · rw [hlive]
    exact Multiset.mem_cons_self _ m
  · rw [hlive] at hw
    -- the context itself is in no region
    have hcons : Objects.outside (Kind.inside c) (⟨.context c, cxt⟩ ::ₘ m) =
        ⟨.context c, cxt⟩ ::ₘ Objects.outside (Kind.inside c) m :=
      Multiset.filter_cons_of_pos m rfl
    exact wp_release (hw.trans hcons) hQ

/-- A log statement returns, or is left in one of two ways. -/
theorem wp_log {l : Logged} (hreturns : Q () s) (herror : E .error s) (hexit : E .exit s) :
    wp (log l) Q E s := by
  cases l with
  | returns => exact hreturns
  | error => exact herror
  | exit => exact hexit

theorem wp_throwing {e : Option Exception} (hnone : Q () s)
    (hsome : ∀ e, E (.exception e) s) : wp (throwing e) Q E s := by
  cases e with
  | none => exact hnone
  | some e => exact hsome e

end Rules

/-! ## What is held -/

/-- The object of a field. -/
def opt (kind : Kind) : Option ℕ → Multiset (Obj Kind)
  | none => 0
  | some id => {⟨kind, id⟩}

@[simp] theorem opt_none (kind : Kind) : opt kind none = 0 := rfl

@[simp] theorem opt_some (kind : Kind) (id : ℕ) : opt kind (some id) = {⟨kind, id⟩} := rfl

/-- The objects of the fields that are in no memory context. -/
def Exporter.outer (x : Exporter) : Multiset (Obj Kind) :=
  opt (.context .conn) x.connCxt + opt (.context .batch) x.batchCxt + opt .socket x.fd +
    opt .sslCtx x.sslCtx + opt .ssl x.ssl

/-- Those that are in the connection's. -/
def Exporter.inner (x : Exporter) : Multiset (Obj Kind) :=
  opt .client x.client + x.types.map fun t => (⟨.type, t.2⟩ : Obj Kind)

/-- No connection, and nothing of one. -/
def Exporter.Idle (x : Exporter) : Prop :=
  x.client = none ∧ x.types = [] ∧ x.fd = none ∧ x.sslCtx = none ∧ x.ssl = none

/-- Without a connection no field is in its memory context, -/
theorem Exporter.Idle.inner_eq {x : Exporter} (h : x.Idle) : x.inner = 0 := by
  obtain ⟨hclient, htypes, -⟩ := h
  simp [Exporter.inner, hclient, htypes]

/-- and of the others only the memory contexts are there. -/
theorem Exporter.Idle.outer_eq {x : Exporter} (h : x.Idle) :
    x.outer = opt (.context .conn) x.connCxt + opt (.context .batch) x.batchCxt := by
  obtain ⟨-, -, hfd, hctx, hssl⟩ := h
  simp [Exporter.outer, hfd, hctx, hssl]

/-- What the exporter holds between its functions: the fields, and the objects `L` besides. -/
structure Inv (L : Multiset (Obj Kind)) (x : Exporter) : Prop where
  live : x.objects.live = x.outer + x.inner + L
  contexts : x.batchCxt.isSome = x.connCxt.isSome
  connAl : x.connAl = x.connCxt
  batchAl : x.batchAl = x.batchCxt
  /-- without the memory contexts there is nothing in them -/
  idle : x.connCxt = none → x.Idle ∧ ∀ o ∈ L, ∀ c, o.kind.inside c = false
  sslFd : ∀ f, x.sslFd = some f → x.fd = some f ∧ x.ssl.isSome
  io : x.client.isSome → ∃ o, x.io = some o ∧ o ∈ opt .socket x.fd + opt .ssl x.ssl

/-- An object of a field is of the kind of the field. -/
theorem kind_of_mem_opt {kind : Kind} {field : Option ℕ} {o : Obj Kind} (h : o ∈ opt kind field) :
    o.kind = kind := by
  cases field with
  | none => exact absurd h (Multiset.notMem_zero o)
  | some id => rw [Multiset.mem_singleton.mp h]

/-- The outer fields end with no memory context. -/
theorem inside_outer {x : Exporter} {o : Obj Kind} (h : o ∈ x.outer) (c : Cxt) :
    o.kind.inside c = false := by
  simp only [Exporter.outer, Multiset.mem_add] at h
  rcases h with (((h | h) | h) | h) | h <;> rw [kind_of_mem_opt h] <;> rfl

/-- The inner ones are the client and the types. -/
theorem kind_inner {x : Exporter} {o : Obj Kind} (h : o ∈ x.inner) :
    o.kind = .client ∨ o.kind = .type := by
  rcases Multiset.mem_add.mp h with h | h
  · exact Or.inl (kind_of_mem_opt h)
  · obtain ⟨t, -, rfl⟩ := List.mem_map.mp (Multiset.mem_coe.mp h)
    exact Or.inr rfl

/-- They are in the connection's memory context. -/
theorem inside_inner {x : Exporter} {o : Obj Kind} (h : o ∈ x.inner) :
    o.kind.inside .conn = true ∧ o.kind.inside .batch = false := by
  rcases kind_inner h with h | h
  · rw [h]
    exact ⟨rfl, rfl⟩
  · rw [h]
    exact ⟨rfl, rfl⟩

/-- Where nothing is held besides the fields, nothing of it is in the connection's context. -/
theorem notMem_zero_inside (o : Obj Kind) (ho : o ∈ (0 : Multiset (Obj Kind))) :
    o.kind.inside .conn = false :=
  absurd ho (Multiset.notMem_zero o)

/-! ## Closing -/

section Close

variable {s : ExportState Exporter} {L : Multiset (Obj Kind)}
  {Q : Unit → ExportState Exporter → Prop} {E : Stop → ExportState Exporter → Prop}

/-- A field that is closed: its object ends, and the others are as before. -/
theorem wp_closeField {kind : Kind} {field : Exporter → Option ℕ} {clear : Exporter → Exporter}
    (hclear : field s.exporter = none → clear s.exporter = s.exporter)
    (hobjects : ∀ w,
      clear { s.exporter with objects := w } = { clear s.exporter with objects := w })
    (hlive : s.exporter.objects.live = opt kind (field s.exporter) + L)
    (hQ : ∀ w : Objects Kind, w.live = L →
      Q () { s with exporter := { clear s.exporter with objects := w } }) :
    wp (closeField kind field clear) Q E s := by
  rw [closeField, wp_bind, wp_get]
  cases hfield : field s.exporter with
  | none =>
    -- nothing to close: the field stays as it is
    rw [hfield, opt_none, zero_add] at hlive
    have h := hQ _ hlive
    rw [hclear hfield] at h
    exact h
  | some id =>
    rw [hfield, opt_some, Multiset.singleton_add] at hlive
    simp only [wp_bind]
    refine wp_release hlive fun w hw => ?_
    exact (congrArg (fun x => Q () { s with exporter := x }) (hobjects w)).mpr (hQ w hw)

/-- The client does not outlive its field; the socket that it wrote to stays open. -/
theorem wp_closeClient (h : Inv L s.exporter)
    (hQ : ∀ w, Inv L { s.exporter with objects := w, client := none } →
      Q () { s with exporter := { s.exporter with objects := w, client := none } }) :
    wp closeClient Q E s := by
  refine wp_closeField (L := s.exporter.outer + { s.exporter with client := none }.inner + L)
    (fun hnone => ?_) (fun _ => rfl) ?_ fun w hw => ?_
  · -- the field was empty
    rw [← hnone]
  · -- what lives besides the client
    rw [h.live]
    simp only [Exporter.inner, opt_none]
    abel
  · refine hQ w ⟨hw, h.contexts, h.connAl, h.batchAl, fun hcxt => ?_, h.sslFd, fun hclient => ?_⟩
    · obtain ⟨hidle, hL⟩ := h.idle hcxt
      exact ⟨⟨rfl, hidle.2⟩, hL⟩
    · cases hclient

/-- The socket of the field is open. -/
theorem Inv.mem_fd {x : Exporter} (h : Inv L x) {f : ℕ} (hf : x.fd = some f) :
    ⟨.socket, f⟩ ∈ x.objects.live := by
  rw [h.live]
  simp [Exporter.outer, hf]

/-- `SSL_shutdown` writes to a socket that is still open: it comes before `close(fd_)`. -/
theorem wp_sslShutdown (h : Inv L s.exporter) (hQ : Q () s) : wp sslShutdown Q E s := by
  rw [sslShutdown, wp_bind, wp_get]
  split
  · next f hssl hfd => exact wp_use (h.mem_fd (h.sslFd f hfd).1) hQ
  · exact hQ

/-- `SSL_shutdown` and `SSL_free`, once the client is gone. -/
theorem wp_closeSsl (h : Inv L s.exporter) (hclient : s.exporter.client = none)
    (hQ : ∀ w, Inv L { s.exporter with objects := w, ssl := none, sslFd := none } →
      Q () { s with exporter := { s.exporter with objects := w, ssl := none, sslFd := none } }) :
    wp closeSsl Q E s := by
  rw [closeSsl, wp_bind]
  refine wp_sslShutdown h ?_
  refine wp_closeField
    (L := { s.exporter with ssl := none }.outer + s.exporter.inner + L)
    (fun hnone => ?_) (fun _ => rfl) ?_ fun w hw => ?_
  · -- without an `SSL` none was given a socket
    have hfd : s.exporter.sslFd = none := by
      cases hfd : s.exporter.sslFd with
      | none => rfl
      | some f =>
        have hsome := (h.sslFd f hfd).2
        rw [hnone] at hsome
        cases hsome
    have hx : s.exporter =
        { s.exporter with ssl := s.exporter.ssl, sslFd := s.exporter.sslFd } := rfl
    rw [hnone, hfd] at hx
    exact hx.symm
  · rw [h.live]
    simp only [Exporter.outer, opt_none]
    abel
  · refine hQ w ⟨hw, h.contexts, h.connAl, h.batchAl, fun hcxt => ?_, fun f hf => ?_,
      fun hsome => ?_⟩
    · obtain ⟨hidle, hL⟩ := h.idle hcxt
      exact ⟨⟨hidle.1, hidle.2.1, hidle.2.2.1, hidle.2.2.2.1, rfl⟩, hL⟩
    · -- no `SSL` is left that could have a socket
      cases hf
    · -- no client is left that could use it
      rw [hclient] at hsome
      cases hsome

/-- `SSL_CTX_free`. -/
theorem wp_closeSslCtx (h : Inv L s.exporter)
    (hQ : ∀ w, Inv L { s.exporter with objects := w, sslCtx := none } →
      Q () { s with exporter := { s.exporter with objects := w, sslCtx := none } }) :
    wp closeSslCtx Q E s := by
  refine wp_closeField (L := { s.exporter with sslCtx := none }.outer + s.exporter.inner + L)
    (fun hnone => ?_) (fun _ => rfl) ?_ fun w hw => ?_
  · rw [← hnone]
  · rw [h.live]
    simp only [Exporter.outer, opt_none]
    abel
  · refine hQ w ⟨hw, h.contexts, h.connAl, h.batchAl, fun hcxt => ?_, h.sslFd, h.io⟩
    obtain ⟨hidle, hL⟩ := h.idle hcxt
    exact ⟨⟨hidle.1, hidle.2.1, hidle.2.2.1, rfl, hidle.2.2.2.2⟩, hL⟩

/-- `close(fd_)`, once neither the client nor an `SSL` can use the socket. -/
theorem wp_closeFd (h : Inv L s.exporter) (hclient : s.exporter.client = none)
    (hssl : s.exporter.sslFd = none)
    (hQ : ∀ w, Inv L { s.exporter with objects := w, fd := none } →
      Q () { s with exporter := { s.exporter with objects := w, fd := none } }) :
    wp closeFd Q E s := by
  refine wp_closeField (L := { s.exporter with fd := none }.outer + s.exporter.inner + L)
    (fun hnone => ?_) (fun _ => rfl) ?_ fun w hw => ?_
  · rw [← hnone]
  · rw [h.live]
    simp only [Exporter.outer, opt_none]
    abel
  · refine hQ w ⟨hw, h.contexts, h.connAl, h.batchAl, fun hcxt => ?_, fun f hf => ?_,
      fun hsome => ?_⟩
    · obtain ⟨hidle, hL⟩ := h.idle hcxt
      exact ⟨⟨hidle.1, hidle.2.1, rfl, hidle.2.2.2⟩, hL⟩
    · rw [hssl] at hf
      cases hf
    · rw [hclient] at hsome
      cases hsome

/-- `ClearTypes` goes through the table and destroys each type once. -/
theorem wp_destroyTypes {types : List (String × ℕ)} {m : Multiset (Obj Kind)}
    (hlive : s.exporter.objects.live = ↑(types.map fun t => (⟨.type, t.2⟩ : Obj Kind)) + m)
    (hQ : ∀ w : Objects Kind, w.live = m → Q () { s with exporter.objects := w }) :
    wp (destroyTypes types) Q E s := by
  induction types generalizing s with
  | nil =>
    rw [List.map_nil, Multiset.coe_nil, zero_add] at hlive
    exact hQ _ hlive
  | cons t rest ih =>
    rw [List.map_cons, ← Multiset.cons_coe, Multiset.cons_add] at hlive
    rw [destroyTypes, wp_bind]
    exact wp_release hlive fun w hw => ih hw hQ

/-- Afterwards the table is empty. -/
theorem wp_clearTypes (h : Inv L s.exporter)
    (hQ : ∀ w, Inv L { s.exporter with objects := w, types := [] } →
      Q () { s with exporter := { s.exporter with objects := w, types := [] } }) :
    wp clearTypes Q E s := by
  have hlive : s.exporter.objects.live =
      ↑(s.exporter.types.map fun t => (⟨.type, t.2⟩ : Obj Kind)) +
        (s.exporter.outer + { s.exporter with types := [] }.inner + L) := by
    rw [h.live]
    simp only [Exporter.inner, List.map_nil, Multiset.coe_nil]
    abel
  rw [clearTypes, wp_bind, wp_get, wp_bind]
  refine wp_destroyTypes hlive fun w hw => ?_
  refine hQ w ⟨hw, h.contexts, h.connAl, h.batchAl, fun hcxt => ?_, h.sslFd, h.io⟩
  obtain ⟨hidle, hL⟩ := h.idle hcxt
  exact ⟨⟨hidle.1, rfl, hidle.2.2⟩, hL⟩

/-- The exporter without a connection. -/
def Exporter.closed (x : Exporter) (w : Objects Kind) : Exporter :=
  { x with
    objects := w, client := none, fd := none, sslCtx := none, ssl := none, sslFd := none
    types := [], connAl := x.connCxt }

/-- The reset takes with it what is left in the connection's context, but none of the fields: the
client is closed before and the types are cleared first. -/
theorem wp_resetConnectionContext (h : Inv L s.exporter) (hclient : s.exporter.client = none)
    (hQ : ∀ w, Inv (Objects.outside (Kind.inside .conn) L)
        { s.exporter with objects := w, types := [], connAl := s.exporter.connCxt } →
      Q () { s with exporter :=
        { s.exporter with objects := w, types := [], connAl := s.exporter.connCxt } }) :
    wp resetConnectionContext Q E s := by
  rw [resetConnectionContext, wp_bind]
  refine wp_clearTypes h fun w h => ?_
  rw [wp_bind, wp_get]
  have hinner : ({ s.exporter with objects := w, types := [] } : Exporter).inner = 0 := by
    simp [Exporter.inner, hclient]
  have hlive : w.live = s.exporter.outer + L := by
    rw [h.live, hinner, add_zero]
    rfl
  cases hcxt : s.exporter.connCxt with
  | none =>
    -- without the context nothing is in it
    have hL : Objects.outside (Kind.inside .conn) L = L :=
      Objects.outside_eq_self fun o ho => (h.idle hcxt).2 o ho .conn
    have hal : s.exporter.connAl = none := h.connAl.trans hcxt
    have hq := hQ w
    rw [hL, hcxt, ← hal] at hq
    exact hq h
  | some cxt =>
    have hmem : ⟨.context .conn, cxt⟩ ∈ w.live := by
      rw [hlive]
      simp [Exporter.outer, hcxt]
    simp only [wp_bind]
    refine wp_memoryContextReset hmem fun w' hw' => ?_
    -- the outer fields are not in the context
    have hlive' : w'.live = s.exporter.outer + Objects.outside (Kind.inside .conn) L := by
      change w'.live = Objects.outside (Kind.inside .conn) w.live at hw'
      rw [hw', hlive, Objects.outside_add,
        Objects.outside_eq_self fun o ho => inside_outer ho .conn]
    have hi : Inv (Objects.outside (Kind.inside .conn) L)
        { s.exporter with objects := w', types := [], connAl := s.exporter.connCxt } := by
      refine ⟨?_, h.contexts, rfl, h.batchAl, fun hnone => ?_, h.sslFd, h.io⟩
      · change w'.live =
          s.exporter.outer + ({ s.exporter with objects := w, types := [] } : Exporter).inner + _
        rw [hinner, add_zero]
        exact hlive'
      · cases hcxt.symm.trans hnone
    have hq := hQ w' hi
    rw [hcxt] at hq
    exact hq

/-- `CloseConnection` is total: from any state it leaves no connection, and each object is released
once. What was besides the fields stays, unless it was in the connection's context. -/
theorem wp_closeConnection (h : Inv L s.exporter)
    (hQ : ∀ w, Inv (Objects.outside (Kind.inside .conn) L) (s.exporter.closed w) →
      Q () { s with exporter := s.exporter.closed w }) :
    wp closeConnection Q E s := by
  rw [closeConnection, wp_bind]
  refine wp_closeClient h fun w h => ?_
  rw [wp_bind]
  -- the order matters from here on: each step needs that the ones before have been made
  refine wp_closeSsl h rfl fun w h => ?_
  rw [wp_bind]
  refine wp_closeSslCtx h fun w h => ?_
  rw [wp_bind]
  refine wp_closeFd h rfl rfl fun w h => ?_
  exact wp_resetConnectionContext h rfl hQ

end Close

/-! ## Objects besides the fields -/

section Locals

variable {s : ExportState Exporter} {x : Exporter} {L : Multiset (Obj Kind)} {o : Obj Kind}
  {w : Objects Kind} {Q : Unit → ExportState Exporter → Prop}
  {E : Stop → ExportState Exporter → Prop}

/-- A new object is one besides the fields. -/
theorem Inv.add (h : Inv L x) (hw : w.live = o ::ₘ x.objects.live)
    (hin : x.connCxt = none → ∀ c, o.kind.inside c = false) :
    Inv (o ::ₘ L) { x with objects := w } := by
  refine ⟨?_, h.contexts, h.connAl, h.batchAl, fun hcxt => ?_, h.sslFd, h.io⟩
  · change w.live = x.outer + x.inner + o ::ₘ L
    rw [hw, h.live, Multiset.add_cons]
  · obtain ⟨hidle, hL⟩ := h.idle hcxt
    refine ⟨hidle, fun o' ho' => ?_⟩
    rcases Multiset.mem_cons.mp ho' with rfl | ho'
    · exact hin hcxt
    · exact hL o' ho'

/-- An object besides the fields lives. -/
theorem Inv.live_cons (h : Inv (o ::ₘ L) x) : x.objects.live = o ::ₘ (x.outer + x.inner + L) := by
  rw [h.live, Multiset.add_cons]

/-- Some of the objects besides the fields are gone. -/
theorem Inv.shrink {L' : Multiset (Obj Kind)} (h : Inv L x) (hle : L' ≤ L)
    (hw : w.live = x.outer + x.inner + L') : Inv L' { x with objects := w } := by
  refine ⟨hw, h.contexts, h.connAl, h.batchAl, fun hcxt => ?_, h.sslFd, h.io⟩
  obtain ⟨hidle, hL⟩ := h.idle hcxt
  exact ⟨hidle, fun o ho => hL o (Multiset.mem_of_le hle ho)⟩

/-- What an exception or a jump has left behind is in a memory context. -/
def Junk (J : Multiset (Obj Kind)) : Prop := ∀ o ∈ J, ∃ c, o.kind.inside c = true

/-- What lives is in the fields, in `L`, or left behind. -/
def Has (L : Multiset (Obj Kind)) (x : Exporter) : Prop := ∃ J, Inv (L + J) x ∧ Junk J

/-- What is held besides the fields lives, -/
theorem Has.mem (h : Has L x) (ho : o ∈ L) : o ∈ x.objects.live := by
  obtain ⟨J, h, -⟩ := h
  rw [h.live]
  exact Multiset.mem_add.mpr (Or.inr (Multiset.mem_add.mpr (Or.inl ho)))

/-- and so does the connection's memory context, if there is one. -/
theorem Has.connCxt_mem (h : Has L x) {cxt : ℕ} (hcxt : x.connCxt = some cxt) :
    ⟨.context .conn, cxt⟩ ∈ x.objects.live := by
  obtain ⟨J, h, -⟩ := h
  rw [h.live]
  simp [Exporter.outer, hcxt]

/-- A new object is held besides the fields. -/
theorem Has.add (h : Has L x) (hw : w.live = o ::ₘ x.objects.live)
    (hin : x.connCxt = none → ∀ c, o.kind.inside c = false) :
    Has (o ::ₘ L) { x with objects := w } := by
  obtain ⟨J, h, hJ⟩ := h
  have h' := h.add hw hin
  rw [← Multiset.cons_add] at h'
  exact ⟨J, h', hJ⟩

/-- An object that nobody releases any more, in a memory context. -/
theorem Has.leave (h : Has (o ::ₘ L) x) {c : Cxt} (ho : o.kind.inside c = true) : Has L x := by
  obtain ⟨J, h, hJ⟩ := h
  rw [Multiset.cons_add, ← Multiset.add_cons] at h
  refine ⟨o ::ₘ J, h, fun o' ho' => ?_⟩
  rcases Multiset.mem_cons.mp ho' with rfl | ho'
  · exact ⟨c, ho⟩
  · exact hJ o' ho'

/-- What is held besides the fields can be released. -/
theorem wp_release_has (h : Has (o ::ₘ L) s.exporter)
    (hQ : ∀ w, Has L { s.exporter with objects := w } → Q () { s with exporter.objects := w }) :
    wp (release o) Q E s := by
  obtain ⟨J, h, hJ⟩ := h
  rw [Multiset.cons_add] at h
  refine wp_release h.live_cons fun w hw => hQ w ⟨J, h.shrink ?_ hw, hJ⟩
  exact Multiset.le_cons_self _ _

/-- A new object that is in no memory context. -/
theorem wp_make_has {Q : ℕ → ExportState Exporter → Prop} {kind : Kind} (h : Has L s.exporter)
    (hin : ∀ c, kind.inside c = false)
    (hQ : ∀ id w, Has (⟨kind, id⟩ ::ₘ L) { s.exporter with objects := w } →
      Q id { s with exporter.objects := w }) :
    wp (make kind) Q E s :=
  wp_make fun id w hw => hQ id w (h.add hw fun _ => hin)

/-- An object in the connection's memory context. -/
theorem wp_allocate_has {Q : ℕ → ExportState Exporter → Prop} {kind : Kind} {cxt : ℕ}
    (h : Has L s.exporter) (hcxt : s.exporter.connCxt = some cxt)
    (hQ : ∀ id w, Has (⟨kind, id⟩ ::ₘ L) { s.exporter with objects := w } →
      Q id { s with exporter.objects := w }) :
    wp (allocate .conn s.exporter.connAl kind) Q E s := by
  have hal : s.exporter.connAl = some cxt := by
    obtain ⟨J, h, -⟩ := h
    exact h.connAl.trans hcxt
  refine wp_allocate hal (h.connCxt_mem hcxt) fun id w hw => hQ id w (h.add hw fun hnone => ?_)
  cases hcxt.symm.trans hnone

/-- `CloseClient`, with objects left behind. -/
theorem wp_closeClient_has (h : Has L s.exporter)
    (hQ : ∀ w, Has L { s.exporter with objects := w, client := none } →
      Q () { s with exporter := { s.exporter with objects := w, client := none } }) :
    wp closeClient Q E s := by
  obtain ⟨J, h, hJ⟩ := h
  exact wp_closeClient h fun w h => hQ w ⟨J, h, hJ⟩

/-- `CloseConnection`, with objects left behind: some of them end with the context. -/
theorem wp_closeConnection_has (h : Has L s.exporter)
    (hL : ∀ o ∈ L, o.kind.inside .conn = false)
    (hQ : ∀ w, Has L (s.exporter.closed w) → Q () { s with exporter := s.exporter.closed w }) :
    wp closeConnection Q E s := by
  obtain ⟨J, h, hJ⟩ := h
  refine wp_closeConnection h fun w h => ?_
  rw [Objects.outside_add, Objects.outside_eq_self hL] at h
  exact hQ w ⟨_, h, fun o ho => hJ o (Objects.mem_outside.mp ho).1⟩

end Locals

end ChcResources

end PgStatCh
