import PgStatCh.Lib.FinTable
import PgStatCh.Lib.Prog
import PgStatCh.Queue.Event

/-!
# Hooks.Cache — the normalized query texts of a backend

`PschNormalizedQueryCache` (query_normalize_state.c): a hash table from query id to
text, and a list of its entries with the most recently used one in front. The list is
threaded through the entries; here it is the list of their keys.

The two allocations of `PschRememberNormalizedQuery` can fail with a PostgreSQL error,
which leaves the cache as it is at that point. Freeing or reading a text that is not
there, and unlinking an entry that is not linked, is undefined.
-/

namespace PgStatCh

open Lib

/-- How a call can end other than by returning. -/
inductive Abort where
  | outOfMemory
  /-- `enlargeStringInfo` was asked for a negative number of bytes -/
  | invalidEnlargement (needed : ℤ)
  | undefined
  deriving DecidableEq

/-- What `normalized_query` of an entry points to. -/
inductive QueryText where
  /-- nothing was stored yet -/
  | unset
  | live (bytes : List UInt8)
  | freed
  deriving DecidableEq

structure PschNormalizeCacheEntry where
  normalizedQuery : QueryText := .unset
  normalizedLen : ℕ := 0
  deriving DecidableEq

structure PschNormalizedQueryCache where
  /-- null before the first use -/
  htab : Option (FinTable UInt64 PschNormalizeCacheEntry) := none
  lru : List UInt64 := []
  maxEntries : ℤ := 0

/-- Which allocations succeed. -/
structure CacheAlloc where
  init : Bool := true
  enter : Bool := true
  text : Bool := true

/-- `PSCH_MAX_CACHED_QUERY_LEN`. -/
def pschMaxCachedQueryLen : ℕ := 2048

def clampCachedQueryLen (normalizedLen : ℕ) : ℕ :=
  if pschMaxCachedQueryLen ≤ normalizedLen then pschMaxCachedQueryLen - 1 else normalizedLen

namespace PschNormalizedQueryCache

abbrev M := EStateM Abort PschNormalizedQueryCache

def table (c : PschNormalizedQueryCache) : FinTable UInt64 PschNormalizeCacheEntry :=
  c.htab.getD .empty

/-- An allocation. -/
def alloc (ok : Bool) : M Unit :=
  if ok then pure () else throw .outOfMemory

/-- `PschInitNormalizedQueryCache`, when there is no table yet. -/
def ensureInitialized (normalizeCacheMax : ℤ) (a : CacheAlloc) : M Unit := do
  let c ← get
  if c.htab.isSome then pure ()
  else
    alloc a.init
    modify fun c =>
      { c with htab := some .empty, lru := []
               maxEntries := if 0 < c.maxEntries then c.maxEntries else normalizeCacheMax }

def setEntry (queryId : UInt64) (entry : PschNormalizeCacheEntry) : M Unit :=
  modify fun c => { c with htab := some (c.table.set queryId entry) }

/-- `pfree(entry->normalized_query)`. -/
def freeText (queryId : UInt64) (entry : PschNormalizeCacheEntry) : M Unit :=
  match entry.normalizedQuery with
  | .live _ => setEntry queryId { entry with normalizedQuery := .freed }
  | _ => throw .undefined

/-- `dclist_delete_from`. -/
def unlink (queryId : UInt64) : M Unit := do
  let c ← get
  if queryId ∈ c.lru then modify fun c => { c with lru := c.lru.erase queryId }
  else throw .undefined

def pushEntryToMru (queryId : UInt64) : M Unit :=
  modify fun c => { c with lru := queryId :: c.lru }

def promoteEntryToMru (queryId : UInt64) : M Unit := do
  unlink queryId
  pushEntryToMru queryId

/-- `EvictLru`: the victim is unlinked, its text is freed, and it leaves the table. -/
def evictLru : M Unit := do
  let c ← get
  match c.lru.getLast? with
  | none => throw .undefined
  | some victim =>
    unlink victim
    match c.table.get victim with
    | none => throw .undefined
    | some entry =>
      freeText victim entry
      modify fun c => { c with htab := some (c.table.erase victim) }

/-- After `HASH_ENTER`: an entry that was there loses its text and its place in the list; a
new one may drive out another. -/
def enterKey (queryId : UInt64) : M Unit := do
  let c ← get
  match c.table.get queryId with
  | some entry =>
    freeText queryId entry
    unlink queryId
  | none =>
    setEntry queryId {}
    if c.maxEntries ≤ c.lru.length then evictLru else pure ()

/-- `PschRememberNormalizedQuery`, with a text that is not null. -/
def remember (normalizeCacheMax : ℤ) (a : CacheAlloc) (queryId : UInt64)
    (normalizedQuery : List UInt8) (normalizedLen : ℕ) : M Unit := do
  if queryId = 0 then pure ()
  else
    ensureInitialized normalizeCacheMax a
    alloc a.enter
    enterKey queryId
    let len := clampCachedQueryLen normalizedLen
    alloc a.text
    setEntry queryId { normalizedQuery := .live (normalizedQuery.take len), normalizedLen := len }
    pushEntryToMru queryId

/-- `PschLookupNormalizedQuery` into `dst`: false, or true with the new contents of `dst`
and of `*out_len`. -/
def lookup {n : ℕ} (queryId : UInt64) (dst : CharBuf n) : M (Option (CharBuf n × UInt16)) := do
  let c ← get
  if c.htab.isNone ∨ n = 0 ∨ queryId = 0 then pure none
  else
    match c.table.get queryId with
    | none => pure none
    | some entry =>
      promoteEntryToMru queryId
      match entry.normalizedQuery with
      | .live bytes =>
        let len := min entry.normalizedLen (n - 1)
        pure (some ((dst.write (bytes.take len)).terminate len, UInt16.ofNat len))
      | _ => throw .undefined

end PschNormalizedQueryCache

end PgStatCh
