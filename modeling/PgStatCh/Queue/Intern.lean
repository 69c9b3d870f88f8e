import PgStatCh.Lib.Heap
import PgStatCh.Lib.FinTable
import PgStatCh.Queue.Event

/-!
# Queue.Intern — the string area and the query-text interner

Texts live outside the ring, in a DSA area (psch_dsa.c). An error message has a
block of its own; query texts are shared: a partitioned hash table maps a lossy
key to one reference-counted object (query_intern.c).

`PschQueryInternAcquire` and `ReleaseRef` drop the partition lock in the middle,
so each is modelled as a small program whose steps are what other processes can
observe: one critical section, one allocation or one `dsa_free` per step.
Whatever one step reads, it reads from the state it finds. Reading or freeing a
block that is not allocated, or reading past its end, raises `fault`, which
nothing lowers again.

Taken from PostgreSQL: a critical section under a partition lock is one step,
the hash table is a finite map, and an allocation answers with a block that is
not in use, or not at all.
-/

namespace PgStatCh

open Lib

/-! ## The data -/

/-- `PschQueryInternKey`. -/
structure PschQueryInternKey where
  dbid : UInt32
  queryid : UInt64
  queryHash : UInt64
  queryLen : UInt16
deriving DecidableEq, Repr

/-- `PschQueryInternEntry`, less the key it is stored under. -/
structure PschQueryInternEntry where
  object : DsaPointer
  refcount : UInt32
deriving DecidableEq, Repr

/-- `PSCH_QUERY_INTERN_MAGIC`. -/
def pschQueryInternMagic : UInt32 := 0x51544348

/-- `PschQueryInternObject`: the bytes end with the terminating NUL. -/
structure PschQueryInternObject where
  key : PschQueryInternKey
  magic : UInt32
  query : List UInt8
deriving DecidableEq, Repr

/-- What a block of the string area holds: an error message or an interned query. -/
inductive Body where
  | str (bytes : List UInt8)
  | obj (o : PschQueryInternObject)
deriving DecidableEq, Repr

/-- The string area, the interner's hash table, the out-of-memory counter, and
whether an invalid access has happened. -/
structure Mem where
  dsa : Heap DsaPointer Body := .empty
  table : FinTable PschQueryInternKey PschQueryInternEntry := .empty
  dsaOomCount : UInt64 := 0
  fault : Bool := false

/-- What the queue is set up with. -/
structure Config where
  /-- `psch_shared_state->capacity` -/
  capacity : UInt32
  capacity_pow : ∃ j, capacity.toNat = 2 ^ j
  /-- `hash_any_extended(text, len, 0)` -/
  hash : List UInt8 → UInt64
  /-- May `HASH_ENTER_NULL` find no room for a new key beside this many entries? -/
  mayBeFull : ℕ → Bool
  /-- `MaxBackends`, which PostgreSQL keeps below `2^18` -/
  maxBackends : ℕ
  maxBackends_lt : maxBackends < 2 ^ 18

/-- The places processes run in; an exited process gives its place to a later one. -/
abbrev Config.Proc (cfg : Config) := Fin cfg.maxBackends

/-- A set-up to try things on: the smallest ring that can be set, three processes, a poor hash. -/
def sampleConfig : Config where
  capacity := 1024
  capacity_pow := ⟨10, rfl⟩
  hash := fun text => UInt64.ofNat text.length
  mayBeFull := fun n => decide (1024 ≤ n)
  maxBackends := 3
  maxBackends_lt := by decide

abbrev proc₀ : sampleConfig.Proc := ⟨0, by decide⟩

abbrev proc₁ : sampleConfig.Proc := ⟨1, by decide⟩

abbrev proc₂ : sampleConfig.Proc := ⟨2, by decide⟩

/-- What the environment answers to the step that asks: the block an allocation
returns, and whether a new key finds the hash table full. -/
structure Answer where
  block : Option DsaPointer := none
  tableFull : Bool := false
deriving DecidableEq, Repr

/-! ## The string area -/

namespace Mem

/-- An access to memory that is not the process's to access. -/
def raise (m : Mem) : Mem := { m with fault := true }

/-- `dsa_allocate_extended(.., DSA_ALLOC_NO_OOM)` and filling the block in: the
new block's address, or `InvalidDsaPointer` and one more counted failure. -/
def dsaAllocate (m : Mem) (body : Body) : Option DsaPointer → Option (Mem × DsaPointer)
  | none => some ({ m with dsaOomCount := m.dsaOomCount + 1 }, invalidDsaPointer)
  | some p =>
    if h : p ≠ invalidDsaPointer ∧ m.dsa.live p = none then
      some ({ m with dsa := m.dsa.alloc p body h.2 }, p)
    else none

/-- `dsa_free`. -/
def dsaFree (m : Mem) (p : DsaPointer) : Mem :=
  match m.dsa.body? p with
  | some _ => { m with dsa := m.dsa.free p }
  | none => m.raise

/-- The interned object at an address. -/
def object? (m : Mem) (p : DsaPointer) : Option PschQueryInternObject :=
  match m.dsa.body? p with
  | some (.obj o) => some o
  | _ => none

end Mem

/-- `PschDsaAllocString`: the bytes clamped to the buffer, and a NUL. -/
def pschDsaAllocString (m : Mem) (src : CharBuf pschMaxErrMsgLen) (len : UInt16) (maxLen : ℕ)
    (a : Answer) : Option (Mem × DsaPointer) :=
  if len = 0 then some (m, invalidDsaPointer)
  else m.dsaAllocate (.str (src.bytes (clampLen len maxLen) ++ [0])) a.block

/-! ## The interner -/

/-- `MakeKey`. -/
def makeKey (hash : List UInt8 → UInt64) (dbid : UInt32) (queryid : UInt64)
    (text : List UInt8) : PschQueryInternKey where
  dbid := dbid
  queryid := queryid
  queryHash := hash text
  queryLen := UInt16.ofNat text.length

/-- The key was made from this text (and some database and query id). -/
def KeyFits (hash : List UInt8 → UInt64) (key : PschQueryInternKey) (text : List UInt8) : Prop :=
  key.queryHash = hash text ∧ key.queryLen.toNat = text.length

/-- The object `AllocInternObject` writes. -/
def internObject (key : PschQueryInternKey) (text : List UInt8) : PschQueryInternObject where
  key := key
  magic := pschQueryInternMagic
  query := text ++ [0]

/-- `ObjectMatches`. -/
def objectMatches (o : PschQueryInternObject) (text : List UInt8) : Bool :=
  if o.magic ≠ pschQueryInternMagic then false
  else if o.key.queryLen ≠ UInt16.ofNat text.length then false
  else o.query.take text.length == text

/-- `PschQueryInternAcquire`, between its observable steps. -/
inductive AcquirePc where
  /-- first lookup under the partition lock -/
  | lookup
  /-- hit: the reference is taken, `return entry->object` comes after the unlock;
  `object` is the history of what the lookup saw -/
  | returnHit (object : DsaPointer)
  /-- miss: `AllocInternObject` outside the lock -/
  | allocObject
  /-- re-lock and `HASH_ENTER_NULL` -/
  | enter (newDp : DsaPointer)
  /-- `dsa_free(dsa, new_dp)` before returning `result` -/
  | backOut (newDp result : DsaPointer)
  | done (result : DsaPointer)
deriving DecidableEq, Repr

/-- Take one more reference to the entry found, when its object holds the text;
`hit` and `miss` say where the caller goes on. -/
def takeRef (m : Mem) (key : PschQueryInternKey) (text : List UInt8)
    (entry : PschQueryInternEntry) (hit : DsaPointer → AcquirePc) (miss : AcquirePc) :
    Mem × AcquirePc :=
  match m.object? entry.object with
  | none => (m.raise, miss)
  | some o =>
    if objectMatches o text then
      ({ m with table := m.table.set key { entry with refcount := entry.refcount + 1 } },
        hit entry.object)
    else (m, miss)

/-- One step of `PschQueryInternAcquire` for a text and its key. -/
def acquireStep (cfg : Config) (key : PschQueryInternKey) (text : List UInt8) (m : Mem)
    (a : Answer) : AcquirePc → Option (Mem × AcquirePc)
  | .lookup =>
    match m.table.get key with
    | none => some (m, .allocObject)
    | some entry => some (takeRef m key text entry .returnHit (.done invalidDsaPointer))
  | .returnHit _ =>
    match m.table.get key with
    | none => some (m.raise, .done invalidDsaPointer)
    | some entry => some (m, .done entry.object)
  | .allocObject =>
    (m.dsaAllocate (.obj (internObject key text)) a.block).map fun (m', p) =>
      (m', if p = invalidDsaPointer then .done p else .enter p)
  | .enter newDp =>
    match m.table.get key with
    | some entry =>
      -- lost the insert race: use the winner's object, or back out on a collision
      some (takeRef m key text entry (.backOut newDp) (.backOut newDp invalidDsaPointer))
    | none =>
      if a.tableFull then
        if cfg.mayBeFull m.table.size then some (m, .backOut newDp invalidDsaPointer)
        else none
      else
        some ({ m with table := m.table.set key { object := newDp, refcount := 1 } },
          .done newDp)
  | .backOut newDp result => some (m.dsaFree newDp, .done result)
  | .done _ => none

/-! ## What a producer meets -/

/-- The text of the object that the table has under this key. -/
def Mem.liveText (m : Mem) (key : PschQueryInternKey) : Option (List UInt8) :=
  (m.table.get key).map fun entry =>
    (m.object? entry.object).elim [] fun o => o.query.take o.key.queryLen.toNat

theorem Mem.liveText_eq_none {m : Mem} {key : PschQueryInternKey} :
    m.liveText key = none ↔ m.table.get key = none :=
  Option.map_eq_none_iff

/-- What `PschQueryInternAcquire` meets in a step: the answer to an allocation, or what
is live under the key. This is the environment's side of a run, kept as history; the
code neither computes nor reads it. -/
inductive Met where
  /-- `AllocInternObject` is answered with a block, or not -/
  | alloc (block : Option DsaPointer)
  /-- the first lookup finds this text under the key -/
  | lookup (live : Option (List UInt8))
  /-- `HASH_ENTER_NULL` finds this text under the key; if none, is the table full? -/
  | enter (live : Option (List UInt8)) (tableFull : Bool)
deriving DecidableEq, Repr

/-- What is met in the step from `pc`. -/
def AcquirePc.meets (m : Mem) (key : PschQueryInternKey) (a : Answer) : AcquirePc → List Met
  | .lookup => [.lookup (m.liveText key)]
  | .allocObject => [.alloc a.block]
  | .enter _ => [.enter (m.liveText key) a.tableFull]
  | .returnHit _ | .backOut .. | .done _ => []

/-- A different text is live under the key. -/
def Collides (text : List UInt8) : Option (List UInt8) → Prop
  | none => False
  | some other => other ≠ text

instance (text : List UInt8) : DecidablePred (Collides text)
  | none => inferInstanceAs (Decidable False)
  | some other => inferInstanceAs (Decidable (other ≠ text))

/-- What a text is lost for: there is no block for it, a different text is live under its
key, or its key finds no room in the table. -/
def Met.Loses (text : List UInt8) : Met → Prop
  | .alloc block => block = none
  | .lookup live => Collides text live
  | .enter live tableFull => Collides text live ∨ live = none ∧ tableFull = true

instance (text : List UInt8) : DecidablePred (Met.Loses text)
  | .alloc block => inferInstanceAs (Decidable (block = none))
  | .lookup live => inferInstanceAs (Decidable (Collides text live))
  | .enter live tableFull =>
    inferInstanceAs (Decidable (Collides text live ∨ live = none ∧ tableFull = true))

/-- The text that was found under the key. -/
def Met.live : Met → Option (List UInt8)
  | .alloc _ => none
  | .lookup live => live
  | .enter live _ => live

/-- `ReleaseRef`, between its observable steps. -/
inductive ReleasePc where
  /-- `obj->magic` and `obj->key`, read without a lock -/
  | read
  /-- drop the reference under the partition lock -/
  | drop (key : PschQueryInternKey)
  /-- the last reference is gone and the entry removed: `dsa_free` outside the lock -/
  | free (freedDp : DsaPointer)
  | done
deriving DecidableEq, Repr

/-- One step of `ReleaseRef(ref)`. -/
def releaseStep (m : Mem) (ref : DsaPointer) : ReleasePc → Option (Mem × ReleasePc)
  | .read =>
    if ref = invalidDsaPointer then some (m, .done)
    else
      match m.object? ref with
      | none => some (m.raise, .done)
      | some o => some (m, if o.magic ≠ pschQueryInternMagic then .done else .drop o.key)
  | .drop key =>
    match m.table.get key with
    | none => some (m, .done)
    | some entry =>
      if entry.object = ref then
        if entry.refcount - 1 = 0 then
          some ({ m with table := m.table.erase key }, .free entry.object)
        else
          some ({ m with table := m.table.set key { entry with refcount := entry.refcount - 1 } },
            .done)
      else some (m, .done)
  | .free freedDp => some (m.dsaFree freedDp, .done)
  | .done => none

end PgStatCh
