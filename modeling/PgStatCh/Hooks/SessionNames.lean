import PgStatCh.Hooks.Nesting
import PgStatCh.Hooks.BackendState

/-!
# Hooks.SessionNames — the names of a session, in the cache and in an event

The catalogue is asked for the names of the database and of the user, and in each of these calls
log messages can be captured, which ask once more. Whatever happens there, each cached name is one
that the catalogue has given, and it ends inside of its buffer.

* `Inv`: what holds between any two calls.
* `Frame`: what a call into PostgreSQL leaves as it was.
* `Keeps`: a program keeps the one and is such a call, whether it returns or raises an `ERROR`.
* `wp_clientContext`: the session part of an event, in terms of what the catalogue was asked.

That the calls do keep the invariant is taken as a hypothesis here. It is proved in `SessionBuilt`,
for the events that are built in them.
-/

namespace PgStatCh

open Lib Tla Prog

/-! ## Texts in buffers -/

/-- A text of this length with its NUL fits into the buffer. -/
def Terminated {n : ℕ} (b : CharBuf n) (len : ℕ) : Prop := len < n ∧ b.byteAt len = 0

section Copies

variable {n : ℕ}

/-- `buf[len] = 0`. -/
theorem terminated_terminate (b : CharBuf n) {len : ℕ} (h : len < n) :
    Terminated (b.terminate len) len :=
  ⟨h, b.byteAt_terminate_self len⟩

/-- A buffer of zeros holds the empty text. -/
theorem terminated_zero (h : 0 < n) : Terminated (CharBuf.zero n) 0 := by
  refine ⟨h, ?_⟩
  simp [CharBuf.byteAt, CharBuf.zero]

/-- `strlcpy` always puts a NUL, -/
theorem strlcpy_terminated (dst : CharBuf n) (src : List UInt8) (h : 0 < n) :
    Terminated (strlcpy dst src) (min src.length (n - 1)) := by
  apply terminated_terminate
  omega

/-- behind what of the text fits. -/
theorem strlcpy_bytes (dst : CharBuf n) (src : List UInt8) :
    (strlcpy dst src).bytes (min src.length (n - 1)) = src.take (n - 1) := by
  have hfits : (src.take (n - 1)).length ≤ n := (List.length_take_le _ _).trans (Nat.sub_le n 1)
  have hcopy := dst.bytes_write_terminate hfits
  rw [List.length_take, min_comm] at hcopy
  exact hcopy

/-- `PschCopyName`: the same, with a length that fits into its byte. -/
theorem pschCopyName_spec (dst : CharBuf n) (src : List UInt8) (h : 0 < n) (hn : n ≤ 256) :
    Terminated (pschCopyName dst src).1 (pschCopyName dst src).2.toNat ∧
      (pschCopyName dst src).1.bytes (pschCopyName dst src).2.toNat = src.take (n - 1) := by
  have hlen : (pschCopyName dst src).2.toNat = min src.length (n - 1) :=
    UInt8.toNat_ofNat_of_lt' (by change _ < 256; omega)
  rw [hlen]
  exact ⟨strlcpy_terminated dst src h, strlcpy_bytes dst src⟩

/-- The text only gets shorter when blanks are cut off its end. -/
theorem pschTrimTrailing_terminated (str : CharBuf n) {len : ℕ} (h : len < n) :
    Terminated (pschTrimTrailing str len).1 (pschTrimTrailing str len).2 := by
  induction len with
  | zero => exact terminated_terminate str h
  | succ len ih =>
    rw [pschTrimTrailing]
    split
    · exact ih (by omega)
    · exact terminated_terminate str h

/-- `PschCopyTrimmed` of a text that is there. -/
theorem pschCopyTrimmed_terminated (dst : CharBuf n) (src : List UInt8) (h : 0 < n) :
    Terminated (pschCopyTrimmed dst (some src)).1 (pschCopyTrimmed dst (some src)).2 := by
  simp only [pschCopyTrimmed, if_neg h.ne']
  apply pschTrimTrailing_terminated
  omega

/-- A copy of a text with its NUL is the text. -/
theorem write_bytes (dst src : CharBuf n) {len : ℕ} (h : Terminated src len) :
    Terminated (dst.write (src.bytes (len + 1))) len ∧
      (dst.write (src.bytes (len + 1))).bytes len = src.bytes len := by
  obtain ⟨hlt, hnul⟩ := h
  -- the NUL is copied as well
  have hbyte : ∀ i ≤ len, (dst.write (src.bytes (len + 1))).byteAt i = src.byteAt i := by
    intro i hi
    have hlen : i < (src.bytes (len + 1)).length := by
      rw [CharBuf.bytes_length]
      omega
    rw [CharBuf.byteAt_write hlen (by omega)]
    simp [CharBuf.bytes]
  refine ⟨⟨hlt, (hbyte len le_rfl).trans hnul⟩, ?_⟩
  apply List.map_congr_left
  intro i hi
  exact hbyte i (List.mem_range.mp hi).le

end Copies

/-! ## What the session is called -/

namespace Env

/-- The name of the database, as far as it fits. -/
def datnameText (env : Env) : List UInt8 :=
  ((env.databaseName env.myDatabaseId).getD unknownName).take 63

/-- The name of the current user, as far as it fits. -/
def usernameText (env : Env) : List UInt8 :=
  ((env.userName env.userid).getD unknownName).take 63

/-- The address of the client, as far as it fits. -/
def addressText (env : Env) : List UInt8 :=
  match env.remoteHost with
  | some (some (c :: cs)) => (hostAddress (c :: cs)).take 45
  | _ => []

/-- The address of the client is copied as far as it fits, and is empty for a client without one. -/
theorem getClientAddress_spec (env : Env) (buf : CharBuf 46) :
    Terminated (getClientAddress env buf).1 (UInt8.ofNat (getClientAddress env buf).2).toNat ∧
      (getClientAddress env buf).1.bytes (UInt8.ofNat (getClientAddress env buf).2).toNat =
        env.addressText := by
  have hnone : Terminated (buf.terminate 0) 0 ∧ (buf.terminate 0).bytes 0 = [] :=
    ⟨terminated_terminate buf (by decide), rfl⟩
  simp only [getClientAddress, addressText]
  rcases env.remoteHost with _ | _ | _ | ⟨c, cs⟩
  · exact hnone
  · exact hnone
  · exact hnone
  · exact pschCopyName_spec (buf.terminate 0) (hostAddress (c :: cs)) (by decide) (by decide)

/-- The application name ends inside of its buffer; its length fits into a byte. -/
theorem getApplicationName_terminated (env : Env) (buf : CharBuf 64) :
    Terminated (getApplicationName env buf).1
      (UInt8.ofNat (getApplicationName env buf).2).toNat := by
  unfold getApplicationName
  split
  · next c cs _ =>
    have hfits := pschCopyTrimmed_terminated buf (c :: cs) (by decide)
    have hlen : (pschCopyTrimmed buf (some (c :: cs))).2 < 256 := hfits.1.trans (by decide)
    rw [UInt8.toNat_ofNat_of_lt' hlen]
    exact hfits
  · exact terminated_terminate buf (by decide)

end Env

/-- What is known of the session part of an event that was built in `env`; `asked` are the
environments in which the catalogue was asked so far. -/
structure Describes (asked : List Env) (env : Env) (c : ClientContext) : Prop where
  dbid : c.dbid = env.myDatabaseId
  userid : c.userid = env.userid
  datname : Terminated c.datname c.datnameLen.toNat
  username : Terminated c.username c.usernameLen.toNat
  applicationName : Terminated c.applicationName c.applicationNameLen.toNat
  clientAddr : Terminated c.clientAddr c.clientAddrLen.toNat
  database : env.inTransaction = true →
    ∃ env' ∈ asked, c.datname.bytes c.datnameLen.toNat = env'.datnameText
  address : env.inTransaction = true →
    ∃ env' ∈ asked, c.clientAddr.bytes c.clientAddrLen.toNat = env'.addressText
  /-- the name was found for this user, unless there is none -/
  user : env.inTransaction = true →
    (∃ env' ∈ asked, env'.userid = env.userid ∧
      c.username.bytes c.usernameLen.toNat = env'.usernameText) ∨
    env ∈ asked ∧ env.userName env.userid = none

/-- The session part of an event. -/
structure Carries (c : ClientContext) (f : FixedPrefix) : Prop where
  dbid : f.dbid = c.dbid
  userid : f.userid = c.userid
  datname : f.datname = c.datname
  datnameLen : f.datnameLen = c.datnameLen
  username : f.username = c.username
  usernameLen : f.usernameLen = c.usernameLen
  applicationName : f.applicationName = c.applicationName
  applicationNameLen : f.applicationNameLen = c.applicationNameLen
  clientAddr : f.clientAddr = c.clientAddr
  clientAddrLen : f.clientAddrLen = c.clientAddrLen

/-- The texts of an event are in their buffers, with a NUL behind each. -/
structure PschEvent.WellFormed (e : PschEvent) : Prop where
  datname : Terminated e.fixed.datname e.fixed.datnameLen.toNat
  username : Terminated e.fixed.username e.fixed.usernameLen.toNat
  applicationName : Terminated e.fixed.applicationName e.fixed.applicationNameLen.toNat
  clientAddr : Terminated e.fixed.clientAddr e.fixed.clientAddrLen.toNat
  errSqlstate : Terminated e.fixed.errSqlstate 5
  errMessage : Terminated e.errMessage e.errMessageLen.toNat
  query : Terminated e.query e.queryLen.toNat

/-- What is known of an event. -/
structure Built.Good (asked : List Env) (b : Built) : Prop where
  client : ∃ c, Describes asked b.env c ∧ Carries c b.event.fixed
  wellFormed : b.event.WellFormed

/-- The catalogue is only ever asked more. -/
theorem Describes.mono {asked asked' : List Env} {env : Env} {c : ClientContext}
    (h : Describes asked env c) (hsub : asked ⊆ asked') : Describes asked' env c where
  dbid := h.dbid
  userid := h.userid
  datname := h.datname
  username := h.username
  applicationName := h.applicationName
  clientAddr := h.clientAddr
  database := by
    intro htx
    obtain ⟨env', hmem, htext⟩ := h.database htx
    exact ⟨env', hsub hmem, htext⟩
  address := by
    intro htx
    obtain ⟨env', hmem, htext⟩ := h.address htx
    exact ⟨env', hsub hmem, htext⟩
  user := by
    intro htx
    rcases h.user htx with ⟨env', hmem, htext⟩ | ⟨hmem, hnone⟩
    · exact Or.inl ⟨env', hsub hmem, htext⟩
    · -- the catalogue was asked for the user and had no name
      exact Or.inr ⟨hsub hmem, hnone⟩

/-- An event stays good. -/
theorem Built.Good.mono {asked asked' : List Env} {b : Built} (h : b.Good asked)
    (hsub : asked ⊆ asked') : b.Good asked' := by
  obtain ⟨⟨c, hdescribes, hcarries⟩, hwell⟩ := h
  exact ⟨⟨c, hdescribes.mono hsub, hcarries⟩, hwell⟩

namespace BackendHooks

/-! ## The invariant -/

/-- The cached database name was found in this session. -/
def Database (s : BackendHooks) : Prop :=
  ∃ env ∈ s.asked,
    s.backendState.datname.bytes s.backendState.datnameLen.toNat = env.datnameText

/-- The cached address is that of a client of this session. -/
def Address (s : BackendHooks) : Prop :=
  ∃ env ∈ s.asked,
    s.backendState.clientAddr.bytes s.backendState.clientAddrLen.toNat = env.addressText

/-- The cached user name was found for the cached user. -/
def User (s : BackendHooks) : Prop :=
  ∃ env ∈ s.asked, env.userid = s.backendState.cachedUserid ∧
    s.backendState.username.bytes s.backendState.usernameLen.toNat = env.usernameText

/-- The cached names are the catalogue's once the cache is filled, they are texts in their buffers
from the start, and so it is with what was built from them. -/
structure Inv (s : BackendHooks) : Prop where
  datname : Terminated s.backendState.datname s.backendState.datnameLen.toNat
  username : Terminated s.backendState.username s.backendState.usernameLen.toNat
  clientAddr : Terminated s.backendState.clientAddr s.backendState.clientAddrLen.toNat
  database : s.backendState.initialized = true → Database s
  address : s.backendState.initialized = true → Address s
  user : s.backendState.initialized = true → User s
  built : ∀ b ∈ s.built, b.Good s.asked

/-- The event of a log message. -/
def Logged (b : Built) : Prop := b.event.fixed.queryid = 0 ∧ b.event.queryText = []

/-- What a call into PostgreSQL leaves as it was, or only adds to. -/
structure Frame (s s' : BackendHooks) : Prop where
  executor : s'.executor = s.executor
  cache : s'.backendState.normalizeCache = s.backendState.normalizeCache
  calls : s'.calls = s.calls
  asked : s.asked ⊆ s'.asked
  initialized : s.backendState.initialized = true → s'.backendState.initialized = true
  database : Database s → Database s'
  address : Address s → Address s'
  built : ∀ b ∈ s'.built, b ∈ s.built ∨ Logged b

/-- Nothing was done. -/
theorem Frame.refl (s : BackendHooks) : Frame s s :=
  ⟨rfl, rfl, rfl, fun _ => id, id, id, id, fun _ => Or.inl⟩

/-- Calls one after the other. -/
theorem Frame.trans {s s' s'' : BackendHooks} (h : Frame s s') (h' : Frame s' s'') :
    Frame s s'' where
  executor := h'.executor.trans h.executor
  cache := h'.cache.trans h.cache
  calls := h'.calls.trans h.calls
  asked := fun _ hmem => h'.asked (h.asked hmem)
  initialized := fun hinit => h'.initialized (h.initialized hinit)
  database := fun hdb => h'.database (h.database hdb)
  address := fun haddr => h'.address (h.address haddr)
  built := by
    intro b hb
    rcases h'.built b hb with hb | hb
    · exact h.built b hb
    · exact Or.inr hb

/-- How an ERROR leaves the state. -/
def Failed (s : BackendHooks) (e : Raised) (s' : BackendHooks) : Prop :=
  e = .error ∧ Inv s' ∧ Frame s s'

/-- A call was made, and the next one raised an `ERROR`. -/
theorem Failed.trans {s s' s'' : BackendHooks} {e : Raised} (h : Frame s s')
    (h' : Failed s' e s'') : Failed s e s'' :=
  ⟨h'.1, h'.2.1, h.trans h'.2.2⟩

/-- The program keeps the invariant, whether it returns or raises an ERROR. -/
def Keeps (x : M Unit) : Prop :=
  ∀ s, Inv s → wp x (fun _ s' => Inv s' ∧ Frame s s') (Failed s) s

variable {s : BackendHooks} {env : Env}

/-! ## The cached names -/

/-- Asking the catalogue changes no cached name. -/
theorem Inv.ask (h : Inv s) (env : Env) :
    Inv { s with asked := s.asked ++ [env] } ∧ Frame s { s with asked := s.asked ++ [env] } := by
  have hsub : s.asked ⊆ s.asked ++ [env] := List.subset_append_left _ _
  have hdb : Database s → Database { s with asked := s.asked ++ [env] } := by
    rintro ⟨env', hmem, htext⟩
    exact ⟨env', hsub hmem, htext⟩
  have haddr : Address s → Address { s with asked := s.asked ++ [env] } := by
    rintro ⟨env', hmem, htext⟩
    exact ⟨env', hsub hmem, htext⟩
  constructor
  · refine ⟨h.datname, h.username, h.clientAddr, fun hinit => hdb (h.database hinit),
      fun hinit => haddr (h.address hinit), fun hinit => ?_, fun b hb => (h.built b hb).mono hsub⟩
    obtain ⟨env', hmem, hid, htext⟩ := h.user hinit
    exact ⟨env', hsub hmem, hid, htext⟩
  · exact ⟨rfl, rfl, rfl, hsub, id, hdb, haddr, fun _ => Or.inl⟩

/-- A lookup in the catalogue, with all that happens during it. -/
theorem wp_ask {during : M Unit} (hduring : Keeps during) (h : Inv s) :
    wp (ask env during) (fun _ s' => Inv s' ∧ Frame s s' ∧ env ∈ s'.asked) (Failed s) s := by
  rw [ask, wp_bind]
  refine wp_mono (hduring s h) ?_ fun _ _ => id
  rintro - s₁ ⟨h₁, hframe⟩
  -- what happens during the lookup comes before its answer
  obtain ⟨h₂, hframe₂⟩ := h₁.ask env
  exact ⟨h₂, hframe.trans hframe₂, by simp⟩

/-- The name of the user is copied; it is the one found in `env`. -/
theorem wp_setUsername (h : Inv s) (hask : env ∈ s.asked) {name : List UInt8}
    (hname : name.take 63 = env.usernameText) :
    wp (setUsername env.userid name)
      (fun _ s' => Inv s' ∧ Frame s s' ∧ User s' ∧ s'.backendState.cachedUserid = env.userid)
      (fun _ _ => False) s := by
  rw [setUsername, wp_modify]
  obtain ⟨hterm, htext⟩ :=
    pschCopyName_spec s.backendState.username name (by decide) (by decide)
  have huser : User { s with
      backendState.username := (pschCopyName s.backendState.username name).1
      backendState.usernameLen := (pschCopyName s.backendState.username name).2
      backendState.cachedUserid := env.userid } :=
    ⟨env, hask, rfl, htext.trans hname⟩
  refine ⟨⟨h.datname, hterm, h.clientAddr, h.database, h.address, fun _ => huser, h.built⟩,
    ⟨rfl, rfl, rfl, fun _ => id, id, id, id, fun _ => Or.inl⟩, huser, rfl⟩

/-- The name is that of the user, unless the catalogue has none and there is no fallback. -/
theorem wp_cacheUsername {fallbackOnNull : Bool} {during : M Unit} (hduring : Keeps during)
    (h : Inv s) :
    wp (cacheUsername env fallbackOnNull during)
      (fun _ s' => Inv s' ∧ Frame s s' ∧
        (User s' ∧ s'.backendState.cachedUserid = env.userid ∨
          fallbackOnNull = false ∧ env ∈ s'.asked ∧ env.userName env.userid = none))
      (Failed s) s := by
  rw [cacheUsername, wp_bind]
  refine wp_mono (wp_ask hduring h) ?_ fun _ _ => id
  rintro - s₁ ⟨h₁, hframe, hask⟩
  -- the name that is set, be it the one found or the fallback
  have hset : ∀ name : List UInt8, name.take 63 = env.usernameText →
      wp (setUsername env.userid name)
        (fun _ s' => Inv s' ∧ Frame s s' ∧
          (User s' ∧ s'.backendState.cachedUserid = env.userid ∨
            fallbackOnNull = false ∧ env ∈ s'.asked ∧ env.userName env.userid = none))
        (Failed s) s₁ := by
    intro name hname
    refine wp_mono (wp_setUsername h₁ hask hname) ?_ fun _ _ => False.elim
    rintro - s₂ ⟨h₂, hframe₂, hnamed⟩
    exact ⟨h₂, hframe.trans hframe₂, Or.inl hnamed⟩
  split
  · next name hfound =>
    apply hset
    simp [Env.usernameText, hfound]
  · next hnone =>
    split
    · apply hset
      simp [Env.usernameText, hnone]
    · next hfallback =>
      refine ⟨h₁, hframe, Or.inr ⟨?_, hask, hnone⟩⟩
      simpa using hfallback

/-- `InitBackendCache` sets its flag last: what the lookups capture before still finds the cache
unfilled. -/
theorem wp_initBackendCache {datname username : M Unit} (hdatname : Keeps datname)
    (husername : Keeps username) (h : Inv s) :
    wp (initBackendCache env datname username)
      (fun _ s' => Inv s' ∧ Frame s s' ∧ s'.backendState.initialized = true ∧
        s'.backendState.cachedUserid = env.userid)
      (Failed s) s := by
  rw [initBackendCache, wp_bind]
  refine wp_mono (wp_ask hdatname h) ?_ fun _ _ => id
  rintro - s₁ ⟨h₁, hframe₁, hask⟩
  rw [wp_bind, wp_modify, wp_bind]
  -- the database and the address are those of `env` now
  obtain ⟨hdbTerm, hdbText⟩ := pschCopyName_spec s₁.backendState.datname
    ((env.databaseName env.myDatabaseId).getD unknownName) (by decide) (by decide)
  obtain ⟨haddrTerm, haddrText⟩ := env.getClientAddress_spec s₁.backendState.clientAddr
  generalize hs₂ : ({ s₁ with
    backendState.datname := _, backendState.datnameLen := _
    backendState.clientAddr := _, backendState.clientAddrLen := _ } : BackendHooks) = s₂
  have hdb : Database s₂ := by
    subst hs₂
    exact ⟨env, hask, hdbText⟩
  have haddr : Address s₂ := by
    subst hs₂
    exact ⟨env, hask, haddrText⟩
  have h₂ : Inv s₂ := by
    subst hs₂
    exact ⟨hdbTerm, h₁.username, haddrTerm, fun _ => hdb, fun _ => haddr, h₁.user, h₁.built⟩
  have hframe₂ : Frame s₁ s₂ := by
    subst hs₂
    exact ⟨rfl, rfl, rfl, fun _ => id, id, fun _ => hdb, fun _ => haddr, fun _ => Or.inl⟩
  refine wp_mono (wp_cacheUsername husername h₂) ?_
    fun _ _ hfailed => hfailed.trans (hframe₁.trans hframe₂)
  rintro - s₃ ⟨h₃, hframe₃, ⟨huser, hid⟩ | ⟨hfalse, -⟩⟩
  · refine ⟨⟨h₃.datname, h₃.username, h₃.clientAddr, fun _ => hframe₃.database hdb,
      fun _ => hframe₃.address haddr, fun _ => huser, h₃.built⟩,
      (hframe₁.trans hframe₂).trans (hframe₃.trans ?_), rfl, hid⟩
    exact ⟨rfl, rfl, rfl, fun _ => id, fun _ => rfl, id, id, fun _ => Or.inl⟩
  · -- with a fallback there is always a name
    cases hfalse

/-- In a transaction the cache is filled, with the name of the current user if there is one. -/
theorem wp_ensureBackendCache {datname username : M Unit} (hdatname : Keeps datname)
    (husername : Keeps username) (h : Inv s) :
    wp (ensureBackendCache env datname username)
      (fun _ s' => Inv s' ∧ Frame s s' ∧ (env.inTransaction = true →
        s'.backendState.initialized = true ∧ (s'.backendState.cachedUserid = env.userid ∨
          env ∈ s'.asked ∧ env.userName env.userid = none)))
      (Failed s) s := by
  rw [ensureBackendCache, wp_bind, wp_get]
  split
  · split
    · -- the cache is filled now
      refine wp_mono (wp_initBackendCache hdatname husername h) ?_ fun _ _ => id
      rintro - s' ⟨h', hframe, hinit, hid⟩
      exact ⟨h', hframe, fun _ => ⟨hinit, Or.inl hid⟩⟩
    · next htx => exact ⟨h, Frame.refl s, fun htx' => absurd htx' htx⟩
  · next hinit =>
    have hinit : s.backendState.initialized = true := by simpa using hinit
    split
    · -- the role has changed since, and can be looked up
      refine wp_mono (wp_cacheUsername husername h) ?_ fun _ _ => id
      rintro - s' ⟨h', hframe, ⟨-, hid⟩ | ⟨-, hask, hnone⟩⟩
      · exact ⟨h', hframe, fun _ => ⟨hframe.initialized hinit, Or.inl hid⟩⟩
      · exact ⟨h', hframe, fun _ => ⟨hframe.initialized hinit, Or.inr ⟨hask, hnone⟩⟩⟩
    · next hsame =>
      refine ⟨h, Frame.refl s, fun htx => ⟨hinit, Or.inl ?_⟩⟩
      -- otherwise the role is the cached one
      by_contra hne
      exact hsame ⟨hne, htx⟩

/-- A cached name fits into the buffer of an event. -/
theorem wp_memcpyText {n : ℕ} {dst src : CharBuf n} {len : UInt8}
    {Q : CharBuf n → BackendHooks → Prop} {E : Raised → BackendHooks → Prop}
    (hsrc : Terminated src len.toNat)
    (h : ∀ b, Terminated b len.toNat → b.bytes len.toNat = src.bytes len.toNat → Q b s) :
    wp (memcpyText dst src len) Q E s := by
  obtain ⟨hterm, htext⟩ := write_bytes dst src hsrc
  rw [memcpyText, if_pos (Nat.succ_le_of_lt hsrc.1), wp_pure]
  exact h _ hterm htext

/-- The names of the session, as an event gets them. -/
structure Named (s : BackendHooks) (env : Env) (c : ClientContext) : Prop where
  datname : Terminated c.datname c.datnameLen.toNat
  username : Terminated c.username c.usernameLen.toNat
  database : env.inTransaction = true →
    ∃ env' ∈ s.asked, c.datname.bytes c.datnameLen.toNat = env'.datnameText
  user : env.inTransaction = true →
    (∃ env' ∈ s.asked, env'.userid = env.userid ∧
      c.username.bytes c.usernameLen.toNat = env'.usernameText) ∨
    env ∈ s.asked ∧ env.userName env.userid = none

/-- The names that an event gets are the cached ones, or unknown where the cache is not filled: that
can only be outside of a transaction. -/
theorem wp_resolveNames {datname username : M Unit} (hdatname : Keeps datname)
    (husername : Keeps username) (h : Inv s) :
    wp (resolveNames env datname username)
      (fun c s' => Inv s' ∧ Frame s s' ∧ Named s' env c) (Failed s) s := by
  rw [resolveNames, wp_bind]
  refine wp_mono (wp_ensureBackendCache hdatname husername h) ?_ fun _ _ => id
  rintro - s₁ ⟨h₁, hframe, hensured⟩
  rw [wp_bind, wp_get]
  split
  · next hinit =>
    rw [wp_bind]
    refine wp_memcpyText h₁.datname fun db hdbTerm hdbText => ?_
    rw [wp_bind]
    refine wp_memcpyText h₁.username fun user huserTerm huserText => ?_
    rw [wp_pure]
    refine ⟨h₁, hframe, hdbTerm, huserTerm, fun _ => ?_, fun htx => ?_⟩
    · obtain ⟨env', hmem, htext⟩ := h₁.database hinit
      exact ⟨env', hmem, hdbText.trans htext⟩
    · rcases (hensured htx).2 with hid | hnone
      · obtain ⟨env', hmem, hid', htext⟩ := h₁.user hinit
        exact Or.inl ⟨env', hmem, hid'.trans hid, huserText.trans htext⟩
      · exact Or.inr hnone
  · next hinit =>
    -- outside of a transaction nothing is looked up
    have htx : ¬ env.inTransaction = true := fun htx => hinit (hensured htx).1
    rw [resolveFresh, wp_bind, askFresh, if_neg htx, wp_pure, wp_pure]
    exact ⟨h₁, hframe, (pschCopyName_spec _ _ (by decide) (by decide)).1,
      (pschCopyName_spec _ _ (by decide) (by decide)).1, fun htx' => absurd htx' htx,
      fun htx' => absurd htx' htx⟩

/-- The address and the application name are added; the names stay as they are. -/
theorem wp_addClient {datname username : M Unit} {names : ClientContext}
    (hdatname : Keeps datname) (husername : Keeps username) (h : Inv s) :
    wp (addClient env datname username names)
      (fun c s' => Inv s' ∧ Frame s s' ∧
        (c.datname = names.datname ∧ c.datnameLen = names.datnameLen ∧
          c.username = names.username ∧ c.usernameLen = names.usernameLen) ∧
        Terminated c.applicationName c.applicationNameLen.toNat ∧
        Terminated c.clientAddr c.clientAddrLen.toNat ∧
        (env.inTransaction = true →
          ∃ env' ∈ s'.asked, c.clientAddr.bytes c.clientAddrLen.toNat = env'.addressText))
      (Failed s) s := by
  have happ := env.getApplicationName_terminated (.zero 64)
  rw [addClient, wp_bind]
  refine wp_mono (wp_ensureBackendCache hdatname husername h) ?_ fun _ _ => id
  rintro - s₁ ⟨h₁, hframe, hensured⟩
  rw [wp_bind, wp_get]
  split
  · next hinit =>
    rw [wp_bind]
    refine wp_memcpyText h₁.clientAddr fun addr hterm htext => ?_
    refine ⟨h₁, hframe, ⟨rfl, rfl, rfl, rfl⟩, happ, hterm, fun _ => ?_⟩
    obtain ⟨env', hmem, htext'⟩ := h₁.address hinit
    exact ⟨env', hmem, htext.trans htext'⟩
  · next hinit =>
    have htx : ¬ env.inTransaction = true := fun htx => hinit (hensured htx).1
    exact ⟨h₁, hframe, ⟨rfl, rfl, rfl, rfl⟩, happ, (env.getClientAddress_spec _).1,
      fun htx' => absurd htx' htx⟩

/-- The calls for an event all keep the invariant. -/
structure KeptBy (calls : EventCalls (M Unit)) : Prop where
  datname : Keeps calls.datname
  username : Keeps calls.username
  datnameAgain : Keeps calls.datnameAgain
  usernameAgain : Keeps calls.usernameAgain
  guarded : Keeps calls.guarded
  buffered : Keeps calls.buffered

/-- The session part of an event, put together with two fillings of the cache: whatever is captured
in them, it describes the session. -/
theorem wp_clientContext {calls : EventCalls (M Unit)} (hcalls : KeptBy calls) (h : Inv s) :
    wp (clientContext env calls)
      (fun c s' => Inv s' ∧ Frame s s' ∧ Describes s'.asked env c) (Failed s) s := by
  rw [clientContext, wp_bind]
  refine wp_mono (wp_resolveNames hcalls.datname hcalls.username h) ?_ fun _ _ => id
  rintro names s₁ ⟨h₁, hframe₁, hnamed⟩
  rw [wp_bind]
  refine wp_mono (wp_addClient hcalls.datnameAgain hcalls.usernameAgain h₁) ?_
    fun _ _ hfailed => hfailed.trans hframe₁
  rintro ⟨dbid, userid, pid, datname, datnameLen, username, usernameLen, app, appLen, addr, addrLen⟩
    s₂ ⟨h₂, hframe₂, ⟨rfl, rfl, rfl, rfl⟩, happ, haddr, haddrText⟩
  refine ⟨h₂, hframe₁.trans hframe₂, rfl, rfl, hnamed.datname, hnamed.username, happ, haddr,
    fun htx => ?_, haddrText, fun htx => ?_⟩
  · obtain ⟨env', hmem, htext⟩ := hnamed.database htx
    exact ⟨env', hframe₂.asked hmem, htext⟩
  · rcases hnamed.user htx with ⟨env', hmem, htext⟩ | ⟨hmem, hnone⟩
    · exact Or.inl ⟨env', hframe₂.asked hmem, htext⟩
    · exact Or.inr ⟨hframe₂.asked hmem, hnone⟩

end BackendHooks

end PgStatCh
