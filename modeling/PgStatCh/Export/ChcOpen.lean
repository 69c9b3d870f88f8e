import PgStatCh.Export.ChcHeld

/-!
# Export.ChcOpen — what the ClickHouse exporter opens

`EstablishNewConnection` opens a socket, OpenSSL's objects and a client, one after the other, and
each step can fail or be left by an `ERROR`. A step puts its object into the exporter's field before
the next one can fail, so what lives is always what the fields say (`Has`).

* `Has.setFd` and its companions: an object besides the fields becomes one of them.
* `wp_tcpConnect`, `wp_tlsConnect`, `wp_clientInit`: the three steps.
* `wp_ensureMemoryContexts`: both memory contexts, or none.
* `wp_establishNewConnection`: the whole, with what it returns.
-/

namespace PgStatCh

open Lib Prog

namespace ChcResources

/-! ## An object becomes a field -/

section Fields

variable {x : Exporter} {L : Multiset (Obj Kind)} {o : Obj Kind} {id : ℕ}

/-- What is set only with the memory contexts there. -/
theorem absurd_of_isSome {p : Prop} (hcxt : x.connCxt.isSome) (hnone : x.connCxt = none) : p := by
  rw [hnone] at hcxt
  cases hcxt

/-- `fd_ = fd`. -/
theorem Has.setFd (h : Has (⟨.socket, id⟩ ::ₘ L) x) (hcxt : x.connCxt.isSome)
    (hfd : x.fd = none) : Has L { x with fd := some id } := by
  obtain ⟨J, h, hJ⟩ := h
  rw [Multiset.cons_add] at h
  refine ⟨J, ⟨?_, h.contexts, h.connAl, h.batchAl, absurd_of_isSome hcxt, fun f hf => ?_,
    fun hsome => ?_⟩, hJ⟩
  · refine h.live.trans ?_
    simp only [Exporter.outer, Exporter.inner, hfd, opt_none, opt_some, ← Multiset.singleton_add]
    abel
  · -- no `SSL` was given a socket, since there was none
    cases hfd.symm.trans (h.sslFd f hf).1
  · obtain ⟨o, hio, ho⟩ := h.io hsome
    rw [hfd, opt_none, zero_add] at ho
    exact ⟨o, hio, Multiset.mem_add.mpr (Or.inr ho)⟩

/-- `ssl_ctx_ = SSL_CTX_new(...)`. -/
theorem Has.setSslCtx (h : Has (⟨.sslCtx, id⟩ ::ₘ L) x) (hcxt : x.connCxt.isSome)
    (hctx : x.sslCtx = none) : Has L { x with sslCtx := some id } := by
  obtain ⟨J, h, hJ⟩ := h
  rw [Multiset.cons_add] at h
  refine ⟨J, ⟨?_, h.contexts, h.connAl, h.batchAl, absurd_of_isSome hcxt, h.sslFd, h.io⟩, hJ⟩
  refine h.live.trans ?_
  simp only [Exporter.outer, Exporter.inner, hctx, opt_none, opt_some, ← Multiset.singleton_add]
  abel

/-- `ssl_ = SSL_new(...)`. -/
theorem Has.setSsl (h : Has (⟨.ssl, id⟩ ::ₘ L) x) (hcxt : x.connCxt.isSome)
    (hssl : x.ssl = none) : Has L { x with ssl := some id } := by
  obtain ⟨J, h, hJ⟩ := h
  rw [Multiset.cons_add] at h
  refine ⟨J, ⟨?_, h.contexts, h.connAl, h.batchAl, absurd_of_isSome hcxt, fun f hf => ?_,
    fun hsome => ?_⟩, hJ⟩
  · refine h.live.trans ?_
    simp only [Exporter.outer, Exporter.inner, hssl, opt_none, opt_some, ← Multiset.singleton_add]
    abel
  · exact ⟨(h.sslFd f hf).1, rfl⟩
  · obtain ⟨o, hio, ho⟩ := h.io hsome
    rw [hssl, opt_none, add_zero] at ho
    exact ⟨o, hio, Multiset.mem_add.mpr (Or.inl ho)⟩

/-- `SSL_set_fd(ssl_, fd_)`: the `SSL` is given the socket of the field. -/
theorem Has.setSslFd (h : Has L x) (hcxt : x.connCxt.isSome) (hfd : x.fd = some id)
    (hssl : x.ssl.isSome) : Has L { x with sslFd := some id } := by
  obtain ⟨J, h, hJ⟩ := h
  refine ⟨J, ⟨h.live, h.contexts, h.connAl, h.batchAl, absurd_of_isSome hcxt, fun f hf => ?_,
    h.io⟩, hJ⟩
  cases hf
  exact ⟨hfd, hssl⟩

/-- `io_` is set while there is no client that would use it. -/
theorem Has.setIo (h : Has L x) (hcxt : x.connCxt.isSome) (hclient : x.client = none)
    {io : Option (Obj Kind)} : Has L { x with io := io } := by
  obtain ⟨J, h, hJ⟩ := h
  refine ⟨J, ⟨h.live, h.contexts, h.connAl, h.batchAl, absurd_of_isSome hcxt, h.sslFd,
    fun hsome => ?_⟩, hJ⟩
  change x.client.isSome = true at hsome
  rw [hclient] at hsome
  cases hsome

/-- The client that `chc_client_init` makes, over a socket or an `SSL` of a field. -/
theorem Has.setClient (h : Has (⟨.client, id⟩ ::ₘ L) x) (hcxt : x.connCxt.isSome)
    (hclient : x.client = none) (hio : x.io = some o)
    (ho : o ∈ opt .socket x.fd + opt .ssl x.ssl) : Has L { x with client := some id } := by
  obtain ⟨J, h, hJ⟩ := h
  rw [Multiset.cons_add] at h
  refine ⟨J, ⟨?_, h.contexts, h.connAl, h.batchAl, absurd_of_isSome hcxt, h.sslFd, fun _ => ?_⟩,
    hJ⟩
  · refine h.live.trans ?_
    simp only [Exporter.outer, Exporter.inner, hclient, opt_none, opt_some,
      ← Multiset.singleton_add]
    abel
  · exact ⟨o, hio, ho⟩

/-- A parsed type is put into the table. -/
theorem Has.addType (h : Has (⟨.type, id⟩ ::ₘ L) x) (hcxt : x.connCxt.isSome) (name : String) :
    Has L { x with types := x.types ++ [(name, id)] } := by
  obtain ⟨J, h, hJ⟩ := h
  rw [Multiset.cons_add] at h
  refine ⟨J, ⟨?_, h.contexts, h.connAl, h.batchAl, absurd_of_isSome hcxt, h.sslFd, h.io⟩, hJ⟩
  refine h.live.trans ?_
  simp only [Exporter.outer, Exporter.inner, List.map_append, List.map_cons, List.map_nil,
    ← Multiset.coe_add, Multiset.coe_singleton, ← Multiset.singleton_add]
  abel

/-- The fields that are no objects. -/
theorem Has.other (h : Has L x) {bb : Option ℕ} {bbTypes : List ℕ} {buildErr : Option String}
    {columns : List PschEvent} {consecutiveFailures exportedCount : ℕ} :
    Has L { x with
      bb := bb, bbTypes := bbTypes, buildErr := buildErr, columns := columns
      consecutiveFailures := consecutiveFailures, exportedCount := exportedCount } := by
  obtain ⟨J, h, hJ⟩ := h
  exact ⟨J, ⟨h.live, h.contexts, h.connAl, h.batchAl, h.idle, h.sslFd, h.io⟩, hJ⟩

/-- The objects of the fields live: the socket, -/
theorem Has.fd_mem (h : Has L x) (hfd : x.fd = some id) : ⟨.socket, id⟩ ∈ x.objects.live := by
  obtain ⟨J, h, -⟩ := h
  exact h.mem_fd hfd

/-- the `SSL`, -/
theorem Has.ssl_mem (h : Has L x) (hssl : x.ssl = some id) : ⟨.ssl, id⟩ ∈ x.objects.live := by
  obtain ⟨J, h, -⟩ := h
  rw [h.live]
  simp [Exporter.outer, hssl]

/-- and its context. -/
theorem Has.sslCtx_mem (h : Has L x) (hctx : x.sslCtx = some id) :
    ⟨.sslCtx, id⟩ ∈ x.objects.live := by
  obtain ⟨J, h, -⟩ := h
  rw [h.live]
  simp [Exporter.outer, hctx]

end Fields

/-! ## TCP, TLS and the client -/

/-- A function was left in a log statement. -/
def Halts (L : Multiset (Obj Kind)) (e : Stop) (s : ExportState Exporter) : Prop :=
  (e = .error ∨ e = .exit) ∧ Has L s.exporter

section Open

variable {s : ExportState Exporter} {L : Multiset (Obj Kind)}

/-- A warning, after which the function returns `false`. -/
theorem wp_warn {l : Logged} (h : Has L s.exporter) {Q : Bool → ExportState Exporter → Prop}
    (hQ : Q false s) : wp (warn l) Q (Halts L) s := by
  rw [warn, wp_bind]
  exact wp_log hQ ⟨Or.inl rfl, h⟩ ⟨Or.inr rfl, h⟩

/-- A socket that `TcpConnect`'s loop returns is open, and no other one is. -/
theorem wp_connectLoop {res : ℕ} {addresses : List (Bool × Bool)}
    (h : Has L s.exporter) (hres : ⟨.addrinfo, res⟩ ∈ L) :
    wp (connectLoop res addresses)
      (fun fd s' => ∃ w, s' = { s with exporter.objects := w } ∧
        Has (opt .socket fd + L) s'.exporter)
      (fun _ _ => False) s := by
  -- over the addresses: a socket that could not be connected is closed before the next is tried
  induction addresses generalizing s with
  | nil => exact ⟨_, rfl, by rw [opt_none, zero_add]; exact h⟩
  | cons a rest ih =>
    obtain ⟨socket, connected⟩ := a
    rw [connectLoop, wp_bind]
    refine wp_use (h.mem hres) ?_
    cases socket with
    -- `socket` failed
    | false => exact ih h
    | true =>
      rw [if_pos rfl, wp_bind]
      refine wp_make_has h (fun c => rfl) fun fd w h' => ?_
      rw [wp_bind]
      refine wp_use (h'.mem (Multiset.mem_cons_self _ _)) ?_
      cases connected with
      | true =>
        refine ⟨w, rfl, ?_⟩
        rw [opt_some, Multiset.singleton_add]
        exact h'
      | false =>
        rw [if_neg Bool.false_ne_true, wp_bind]
        refine wp_release_has h' fun w' h'' => ?_
        refine wp_mono (ih h'') ?_ fun _ _ => id
        rintro fd' s' ⟨w'', rfl, hs'⟩
        exact ⟨w'', rfl, hs'⟩

/-- `TcpConnect` frees the addresses, and has a socket in the field if it returns `true`. -/
theorem wp_tcpConnect {io : TcpScript} (h : Has L s.exporter)
    (hcxt : s.exporter.connCxt.isSome) (hfd : s.exporter.fd = none) :
    wp (tcpConnect io)
      (fun ok s' => ∃ w fd, s' = { s with exporter.objects := w, exporter.fd := fd } ∧
        fd.isSome = ok ∧ Has L s'.exporter)
      (Halts L) s := by
  rw [tcpConnect]
  cases io.getaddrinfo with
  | false => exact wp_warn h ⟨_, _, rfl, by rw [hfd]; rfl, h⟩
  | true =>
    rw [if_pos rfl, wp_bind]
    refine wp_make_has h (fun c => rfl) fun res w h => ?_
    rw [wp_bind]
    refine wp_mono (wp_connectLoop h (Multiset.mem_cons_self _ _)) ?_ fun _ _ => False.elim
    rintro fd s' ⟨w', rfl, h⟩
    rw [Multiset.add_cons] at h
    rw [wp_bind]
    refine wp_release_has h fun w'' h => ?_
    cases fd with
    | none =>
      -- none of the addresses
      rw [opt_none, zero_add] at h
      exact wp_warn h ⟨w'', none, by rw [← hfd], rfl, h⟩
    | some fd =>
      rw [opt_some, Multiset.singleton_add] at h
      simp only [wp_bind]
      refine wp_use (h.mem (Multiset.mem_cons_self _ _)) ?_
      exact ⟨w'', some fd, rfl, rfl, h.setFd hcxt hfd⟩

/-- From `SSL_set_fd` on nothing is made any more. -/
theorem wp_tlsHandshake {io : TlsScript} {fd ssl : ℕ} (h : Has L s.exporter)
    (hcxt : s.exporter.connCxt.isSome) (hfd : s.exporter.fd = some fd)
    (hssl : s.exporter.ssl = some ssl) :
    wp (tlsHandshake io ssl)
      (fun _ s' => ∃ sslFd, s' = { s with exporter.sslFd := sslFd } ∧ Has L s'.exporter)
      (Halts L) s := by
  rw [tlsHandshake]
  split
  · rw [wp_bind, wp_get]
    split
    · -- there is a socket
      next hnone => cases hfd.symm.trans hnone
    · next f hf =>
      have h' := h.setSslFd hcxt hf (by rw [hssl]; rfl)
      rw [wp_bind]
      refine wp_use (h.fd_mem hf) ?_
      rw [wp_bind]
      refine wp_use (h.ssl_mem hssl) ?_
      rw [wp_bind, wp_modify]
      split
      · exact ⟨_, rfl, h'⟩
      · exact wp_warn h' ⟨_, rfl, h'⟩
  · exact wp_warn h ⟨_, rfl, h⟩

/-- What `TlsConnect` sets, it sets before the step that may fail. -/
theorem wp_tlsConnect {cfg : Tls} {io : TlsScript} {fd : ℕ} (h : Has L s.exporter)
    (hcxt : s.exporter.connCxt.isSome) (hfd : s.exporter.fd = some fd)
    (hctx : s.exporter.sslCtx = none) (hssl : s.exporter.ssl = none) :
    wp (tlsConnect cfg io)
      (fun ok s' => ∃ w ctx ssl sslFd,
        s' = { s with
          exporter.objects := w, exporter.sslCtx := ctx
          exporter.ssl := ssl, exporter.sslFd := sslFd } ∧
        (ok = true → ssl.isSome) ∧ Has L s'.exporter)
      (Halts L) s := by
  have hfalse : ∀ {p : Prop}, false = true → p := fun h => by cases h
  rw [tlsConnect]
  cases io.ctxNew with
  | false => exact wp_warn h ⟨_, _, _, _, rfl, hfalse, h⟩
  | true =>
    rw [if_pos rfl, wp_bind]
    -- the field is set before anything else can fail, here and for the `SSL`
    refine wp_make_has h (fun c => rfl) fun ctx w h => ?_
    have h := h.setSslCtx hcxt hctx
    simp only [wp_bind, wp_modify]
    refine wp_use (h.sslCtx_mem rfl) ?_
    split
    · cases io.sslNew with
      | false => exact wp_warn h ⟨_, _, _, _, rfl, hfalse, h⟩
      | true =>
        rw [if_pos rfl, wp_bind]
        refine wp_make_has h (fun c => rfl) fun ssl w h => ?_
        have h := h.setSsl hcxt hssl
        simp only [wp_bind, wp_modify]
        refine wp_use (h.ssl_mem rfl) ?_
        split
        · refine wp_mono (wp_tlsHandshake h hcxt hfd rfl) ?_ fun _ _ => id
          rintro ok s' ⟨sslFd, rfl, h⟩
          exact ⟨_, _, _, sslFd, rfl, fun _ => rfl, h⟩
        · exact wp_warn h ⟨_, _, _, _, rfl, hfalse, h⟩
    · exact wp_warn h ⟨_, _, _, _, rfl, hfalse, h⟩

/-- What `io_` reads from and writes to lives, if it is a field. -/
theorem Has.io_mem {x : Exporter} {o : Obj Kind} (h : Has L x)
    (ho : o ∈ opt .socket x.fd + opt .ssl x.ssl) : o ∈ x.objects.live := by
  obtain ⟨J, h, -⟩ := h
  rw [h.live]
  simp only [Exporter.outer, Multiset.mem_add] at ho ⊢
  rcases ho with ho | ho
  · exact Or.inl (Or.inl (Or.inl (Or.inl (Or.inr ho))))
  · exact Or.inl (Or.inl (Or.inr ho))

/-- A client is allocated in the connection's context. -/
theorem wp_makeClient {o : Obj Kind} {Q : Unit → ExportState Exporter → Prop}
    {E : Stop → ExportState Exporter → Prop} (h : Has L s.exporter)
    (hcxt : s.exporter.connCxt.isSome) (hclient : s.exporter.client = none)
    (hio : s.exporter.io = some o)
    (ho : o ∈ opt .socket s.exporter.fd + opt .ssl s.exporter.ssl)
    (hQ : ∀ w client, Has L { s.exporter with objects := w, client := some client } →
      Q () { s with exporter.objects := w, exporter.client := some client }) :
    wp makeClient Q E s := by
  obtain ⟨cxt, hsome⟩ := Option.isSome_iff_exists.mp hcxt
  rw [makeClient, wp_bind, wp_get, wp_bind]
  refine wp_allocate_has h hsome fun client w h => ?_
  exact hQ w client (h.setClient hcxt hclient hio ho)

/-- A client that could not be made, or the connection is closed. -/
theorem wp_clientInit {io : ConnectScript} {o : Obj Kind} (h : Has L s.exporter)
    (hL : ∀ o ∈ L, o.kind.inside .conn = false) (hcxt : s.exporter.connCxt.isSome)
    (hclient : s.exporter.client = none) (hio : s.exporter.io = some o)
    (ho : o ∈ opt .socket s.exporter.fd + opt .ssl s.exporter.ssl) :
    wp (clientInit io)
      (fun ok s' => Has L s'.exporter ∧
        if ok then ∃ w client, s' = { s with
          exporter.objects := w, exporter.client := some client }
        else ∃ w, s' = { s with exporter := s.exporter.closed w })
      (Halts L) s := by
  rw [clientInit, wp_bind, wp_get]
  split
  · -- `io_` was set before
    next hnone => cases hio.symm.trans hnone
  · next target htarget =>
    obtain rfl : target = o := Option.some.inj (htarget.symm.trans hio)
    rw [wp_bind]
    refine wp_use (h.io_mem ho) ?_
    split
    · rw [wp_bind]
      refine wp_makeClient h hcxt hclient hio ho fun w client h => ?_
      rw [wp_bind]
      exact wp_log ⟨h, w, client, rfl⟩ ⟨Or.inl rfl, h⟩ ⟨Or.inr rfl, h⟩
    · -- whatever client there is, it is closed
      have hclose : ∀ w client, Has L { s.exporter with objects := w, client := client } →
          wp (do
              log io.warning
              closeClient
              closeConnection
              pure false)
            (fun ok s' => Has L s'.exporter ∧
              if ok then ∃ w client, s' = { s with
                exporter.objects := w, exporter.client := some client }
              else ∃ w, s' = { s with exporter := s.exporter.closed w })
            (Halts L) { s with exporter.objects := w, exporter.client := client } := by
        intro w client h
        rw [wp_bind]
        refine wp_log ?_ ⟨Or.inl rfl, h⟩ ⟨Or.inr rfl, h⟩
        rw [wp_bind]
        refine wp_closeClient_has h fun w h => ?_
        rw [wp_bind]
        exact wp_closeConnection_has h hL fun w h => ⟨h, w, rfl⟩
      split
      · rw [wp_bind]
        exact wp_makeClient h hcxt hclient hio ho fun w client h => hclose w _ h
      · exact hclose _ _ h

end Open

/-! ## The memory contexts -/

section Contexts

variable {s : ExportState Exporter} {L m : Multiset (Obj Kind)}
  {Q : Unit → ExportState Exporter → Prop} {E : Stop → ExportState Exporter → Prop}

/-- A context is created where there is none; `AllocSetContextCreate` can be left by an `ERROR`. -/
theorem wp_createContext {c : Cxt} {field : Option ℕ} {set : ℕ → Exporter → Exporter}
    {returns : Bool} (hfield : field = none) (herror : E .error s)
    (hQ : ∀ (w : Objects Kind) cxt, w.live = ⟨.context c, cxt⟩ ::ₘ s.exporter.objects.live →
      Q () { s with exporter := set cxt { s.exporter with objects := w } }) :
    wp (createContext c field set returns) Q E s := by
  subst hfield
  rw [createContext, wp_bind, allocSetContextCreate]
  split
  · exact wp_make fun cxt w hw => hQ w cxt hw
  · exact herror

/-- Both contexts, or an `ERROR` with none or one of them. -/
theorem wp_createContexts {io : ConnectScript} (hconn : s.exporter.connCxt = none)
    (hbatch : s.exporter.batchCxt = none) (hnone : E .error s)
    (hone : ∀ (w : Objects Kind) c, w.live = ⟨.context .conn, c⟩ ::ₘ s.exporter.objects.live →
      E .error { s with exporter.objects := w, exporter.connCxt := some c })
    (hboth : ∀ (w : Objects Kind) c b,
      w.live = ⟨.context .batch, b⟩ ::ₘ ⟨.context .conn, c⟩ ::ₘ s.exporter.objects.live →
      Q () { s with
        exporter.objects := w, exporter.connCxt := some c, exporter.batchCxt := some b }) :
    wp (createContexts io) Q E s := by
  rw [createContexts, wp_bind, wp_get, wp_bind]
  refine wp_createContext hconn hnone fun w c hw => ?_
  rw [wp_bind, wp_get]
  refine wp_createContext hbatch (hone w c hw) fun w' b hw' => ?_
  exact hboth w' c b (hw'.trans (congrArg _ hw))

/-- The handler deletes the context that could be created. -/
theorem wp_deleteContexts (hbatch : s.exporter.batchCxt = none)
    (hlive : s.exporter.objects.live = opt (.context .conn) s.exporter.connCxt + m)
    (hm : Objects.outside (Kind.inside .conn) m = m)
    (hQ : ∀ w : Objects Kind, w.live = m → Q () { s with
      exporter.objects := w, exporter.connCxt := none, exporter.batchCxt := none
      exporter.connAl := none, exporter.batchAl := none }) :
    wp deleteContexts Q E s := by
  rw [deleteContexts, wp_bind, wp_get, hbatch, wp_bind, deleteContext, wp_pure, wp_bind, wp_modify,
    wp_bind]
  cases hconn : s.exporter.connCxt with
  | none =>
    rw [hconn, opt_none, zero_add] at hlive
    exact hQ _ hlive
  | some c =>
    rw [hconn, opt_some, Multiset.singleton_add] at hlive
    refine wp_memoryContextDelete hlive fun w hw => ?_
    exact hQ w (hw.trans hm)

/-- Without the memory contexts nothing is in them. -/
theorem Inv.outside_live {x : Exporter} (h : Inv L x) (hcxt : x.connCxt = none) (c : Cxt) :
    Objects.outside (Kind.inside c) x.objects.live = x.objects.live := by
  refine Objects.outside_eq_self fun o ho => ?_
  obtain ⟨hidle, hL⟩ := h.idle hcxt
  rw [h.live, Multiset.mem_add, Multiset.mem_add] at ho
  rcases ho with (ho | ho) | ho
  · exact inside_outer ho c
  · rw [hidle.inner_eq] at ho
    exact absurd ho (Multiset.notMem_zero o)
  · exact hL o ho c

/-- Both contexts are there afterwards, or none of them and no connection. -/
theorem wp_ensureMemoryContexts {io : ConnectScript} (h : Has L s.exporter) :
    wp (ensureMemoryContexts io)
      (fun ok s' => ∃ w c b,
        s' = { s with
          exporter.objects := w, exporter.connCxt := c, exporter.batchCxt := b
          exporter.connAl := c, exporter.batchAl := b } ∧
        c.isSome = ok ∧ b.isSome = ok ∧
        (ok = false → s.exporter.connCxt = none ∧ s.exporter.Idle) ∧ Has L s'.exporter)
      (fun _ _ => False) s := by
  obtain ⟨J, hi, hJ⟩ := h
  rw [ensureMemoryContexts, wp_bind, wp_get]
  split
  · next hready =>
    -- the contexts are there already
    rw [Exporter.memoryContextsReady, Bool.and_eq_true] at hready
    have hs : s = { s with
        exporter.connAl := s.exporter.connAl, exporter.batchAl := s.exporter.batchAl } := rfl
    rw [hi.connAl, hi.batchAl] at hs
    refine ⟨_, _, _, hs, hready.1, hready.2, fun hfalse => ?_, J, hi, hJ⟩
    cases hfalse
  · next hready =>
    have hconn : s.exporter.connCxt = none := by
      cases hconn : s.exporter.connCxt with
      | none => rfl
      | some c =>
        refine absurd ?_ hready
        rw [Exporter.memoryContextsReady, hi.contexts, hconn]
        rfl
    have hbatch : s.exporter.batchCxt = none := by
      have hnone := hi.contexts
      rw [hconn] at hnone
      exact Option.isNone_iff_eq_none.mp (Option.isSome_eq_false_iff.mp hnone)
    obtain ⟨hidle, hL⟩ := hi.idle hconn
    have hlive : s.exporter.objects.live = L + J := by
      rw [hi.live]
      simp [hidle.outer_eq, hidle.inner_eq, hconn, hbatch]
    -- nothing is left of a context that could be created
    have hdelete : ∀ s' : ExportState Exporter, s'.exporter.batchCxt = none →
        s'.exporter.objects.live = opt (.context .conn) s'.exporter.connCxt + (L + J) →
        s' = { s with exporter.objects := s'.exporter.objects
                      exporter.connCxt := s'.exporter.connCxt } →
        wp (do
            deleteContexts
            pure false)
          (fun ok s' => ∃ w c b,
            s' = { s with
              exporter.objects := w, exporter.connCxt := c, exporter.batchCxt := b
              exporter.connAl := c, exporter.batchAl := b } ∧
            c.isSome = ok ∧ b.isSome = ok ∧
            (ok = false → s.exporter.connCxt = none ∧ s.exporter.Idle) ∧ Has L s'.exporter)
          (fun _ _ => False) s' := by
      intro s' hb hlive' heq
      have hout : Objects.outside (Kind.inside .conn) (L + J) = L + J := by
        rw [← hlive]
        exact hi.outside_live hconn .conn
      rw [wp_bind]
      refine wp_deleteContexts hb hlive' hout fun w hw => ?_
      rw [heq]
      refine ⟨w, none, none, rfl, rfl, rfl, fun _ => ⟨hconn, hidle⟩, J,
        ⟨?_, rfl, rfl, rfl, fun _ => ?_, hi.sslFd, hi.io⟩, hJ⟩
      · have hidle' : Exporter.Idle { s.exporter with
            objects := w, connCxt := none, batchCxt := none, connAl := none, batchAl := none } :=
          hidle
        rw [hidle'.outer_eq, hidle'.inner_eq, opt_none, opt_none, zero_add, zero_add, zero_add]
        exact hw
      · exact ⟨hidle, hL⟩
    -- an `ERROR` for the first context, one for the second, or none
    rw [wp_tryCatch, wp_bind]
    refine wp_createContexts hconn hbatch ?_ (fun w c hw => ?_) fun w c b hw => ?_
    · refine hdelete s hbatch ?_ rfl
      rw [hconn, opt_none, zero_add, hlive]
    · refine hdelete _ hbatch ?_ rfl
      change w.live = {⟨.context .conn, c⟩} + (L + J)
      rw [hw, hlive, Multiset.singleton_add]
    · refine ⟨w, some c, some b, rfl, rfl, rfl, fun hfalse => ?_, J, ⟨?_, rfl, rfl, rfl,
        fun hnone => ?_, hi.sslFd, hi.io⟩, hJ⟩
      · cases hfalse
      · have hidle' : Exporter.Idle { s.exporter with
            objects := w, connCxt := some c, batchCxt := some b, connAl := some c
            batchAl := some b } := hidle
        rw [hidle'.outer_eq, hidle'.inner_eq, opt_some, opt_some]
        refine hw.trans ?_
        rw [hlive, ← Multiset.singleton_add, ← Multiset.singleton_add]
        abel
      · cases hnone

end Contexts

/-! ## `EstablishNewConnection` -/

/-- The exporter without its objects. -/
def base (s : ExportState Exporter) : ExportState ClickHouseExporter where
  exporter :=
    { memoryContextsReady := s.exporter.memoryContextsReady
      client := s.exporter.client.isSome
      columns := s.exporter.columns
      consecutiveFailures := s.exporter.consecutiveFailures
      exportedCount := s.exporter.exportedCount }
  exported := s.exported
  sendFailures := s.sendFailures
  lastErrorText := s.lastErrorText
  sent := s.sent
  acked := s.acked

/-- The fields that are no objects are as before. -/
def Kept (s s' : ExportState Exporter) : Prop :=
  s' = { s with exporter := { s'.exporter with
    bb := s.exporter.bb, bbTypes := s.exporter.bbTypes, buildErr := s.exporter.buildErr
    columns := s.exporter.columns, consecutiveFailures := s.exporter.consecutiveFailures
    exportedCount := s.exporter.exportedCount } }

/-- What `EstablishNewConnection` returns and leaves. -/
structure Established (s : ExportState Exporter) (ok : Bool) (s' : ExportState Exporter) :
    Prop where
  kept : Kept s s'
  client : s'.exporter.client.isSome = ok
  ready : s'.exporter.memoryContextsReady = true ∨
    ok = false ∧ s.exporter.memoryContextsReady = false ∧ base s' = base s
  idle : ok = false → s'.exporter.Idle

section Establish

variable {s : ExportState Exporter} {L : Multiset (Obj Kind)}

/-- The last step, seen from the start of `EstablishNewConnection`. -/
theorem wp_clientInit_established {io : ConnectScript} {o : Obj Kind}
    {s₀ : ExportState Exporter} (h : Has L s.exporter)
    (hL : ∀ o ∈ L, o.kind.inside .conn = false) (hkept : Kept s₀ s)
    (hready : s.exporter.memoryContextsReady = true)
    (hclient : s.exporter.client = none) (hio : s.exporter.io = some o)
    (ho : o ∈ opt .socket s.exporter.fd + opt .ssl s.exporter.ssl) :
    wp (clientInit io) (fun ok s' => Has L s'.exporter ∧ Established s₀ ok s') (Halts L) s := by
  have hcxt : s.exporter.connCxt.isSome := by
    rw [Exporter.memoryContextsReady, Bool.and_eq_true] at hready
    exact hready.1
  refine wp_mono (wp_clientInit h hL hcxt hclient hio ho) ?_ fun _ _ => id
  rintro ok s' ⟨h, hs'⟩
  refine ⟨h, ?_⟩
  rw [Kept] at hkept
  cases ok with
  | true =>
    obtain ⟨w, client, rfl⟩ := hs'
    refine ⟨?_, rfl, Or.inl hready, fun hfalse => by cases hfalse⟩
    rw [hkept]
    rfl
  | false =>
    obtain ⟨w, rfl⟩ := hs'
    refine ⟨?_, rfl, Or.inl hready, fun _ => ⟨rfl, rfl, rfl, rfl, rfl⟩⟩
    rw [hkept]
    rfl

/-- `EstablishNewConnection` closes the old connection, and leaves either a client or nothing of a
connection; where a log statement is left, the fields say what is open. -/
theorem wp_establishNewConnection {cfg : Tls} {io : ConnectScript} (h : Has L s.exporter)
    (hL : ∀ o ∈ L, o.kind.inside .conn = false) :
    wp (establishNewConnection cfg io)
      (fun ok s' => Has L s'.exporter ∧ Established s ok s') (Halts L) s := by
  rw [establishNewConnection, wp_bind]
  refine wp_mono (wp_ensureMemoryContexts h) ?_ fun _ _ => False.elim
  rintro ok s' ⟨w, c, b, rfl, hc, hb, hidle, h⟩
  cases ok with
  | false =>
    -- no memory contexts: nothing was opened
    obtain ⟨hconn, hidle⟩ := hidle rfl
    have hready : s.exporter.memoryContextsReady = false := by
      rw [Exporter.memoryContextsReady, hconn]
      rfl
    refine ⟨h, rfl, ?_, Or.inr ⟨rfl, hready, ?_⟩, fun _ => ?_⟩
    · exact congrArg Option.isSome hidle.1
    · rw [base, base, hready]
      simp [Exporter.memoryContextsReady, hc]
    · exact hidle
  | true =>
    have hready : (c.isSome && b.isSome) = true := by rw [hc, hb]; rfl
    rw [if_pos rfl, wp_bind]
    refine wp_closeConnection_has h hL fun w h => ?_
    rw [wp_bind]
    refine wp_mono (wp_tcpConnect h hc rfl) ?_ fun _ _ => id
    rintro ok s' ⟨w, fd, rfl, hfd, h⟩
    cases ok with
    | false =>
      refine ⟨h, rfl, rfl, Or.inl hready, fun _ => ⟨rfl, rfl, ?_, rfl, rfl⟩⟩
      exact Option.isNone_iff_eq_none.mp (Option.isSome_eq_false_iff.mp hfd)
    | true =>
      obtain ⟨f, rfl⟩ := Option.isSome_iff_exists.mp hfd
      rw [if_pos rfl]
      split
      · rw [wp_bind]
        -- over TLS
        refine wp_mono (wp_tlsConnect h hc rfl rfl rfl) ?_ fun _ _ => id
        rintro ok s' ⟨w, ctx, ssl, sslFd, rfl, hssl, h⟩
        cases ok with
        | false =>
          -- the handshake failed, with the socket and perhaps OpenSSL's objects open
          rw [if_neg Bool.false_ne_true, wp_bind]
          refine wp_closeConnection_has h hL fun w h => ?_
          exact ⟨h, rfl, rfl, Or.inl hready, fun _ => ⟨rfl, rfl, rfl, rfl, rfl⟩⟩
        | true =>
          obtain ⟨id, rfl⟩ := Option.isSome_iff_exists.mp (hssl rfl)
          rw [if_pos rfl, wp_bind, wp_modify]
          refine wp_clientInit_established (h.setIo hc rfl) hL rfl hready rfl rfl ?_
          exact Multiset.mem_add.mpr (Or.inr (Multiset.mem_singleton_self _))
      · rw [wp_bind, wp_modify]
        refine wp_clientInit_established (h.setIo hc rfl) hL rfl hready rfl rfl ?_
        exact Multiset.mem_add.mpr (Or.inl (Multiset.mem_singleton_self _))

end Establish

end ChcResources

end PgStatCh
