import PgStatCh.Queue.Intern

/-!
# Queue.Slot — filling a ring slot and reading it back

The two straight-line programs around a slot (shmem.c): what `TryEnqueueLocked`
does between its fullness check and the store of `head + 1`, and what
`PschDequeueEvent` does between its emptiness check and the store of `tail + 1`.
Each is cut at its accesses to the slot and to the string area, so that another
process may act between any two of them. The slot is an argument of every step:
a step works on what the slot holds then.
-/

namespace PgStatCh

open Lib

/-! ## Filling a slot -/

/-- The key the event's query text is interned under. -/
def PschEvent.internKey (e : PschEvent) (hash : List UInt8 → UInt64) : PschQueryInternKey :=
  makeKey hash e.fixed.dbid e.fixed.queryid e.queryText

/-- Where `TryEnqueueLocked` is while it fills the slot. The rest is history: the answer
to the allocation of the error text, and what was met while the query text was
interned. -/
inductive BuildPc where
  /-- `memcpy(slot, event, kFixedPrefixSize)` -/
  | copyPrefix
  /-- `slot->err_message_dsa = PschDsaAllocString(..)` -/
  | allocErr
  /-- `if (event->query_len > 0)` -/
  | query (errBlock : Option DsaPointer)
  /-- inside `PschQueryInternAcquire` -/
  | acquire (errBlock : Option DsaPointer) (met : List Met) (pc : AcquirePc)
  /-- the slot is filled -/
  | ready (errBlock : Option DsaPointer) (met : List Met)
deriving DecidableEq, Repr

/-- One step of filling `slot` with the event. -/
def buildStep (cfg : Config) (e : PschEvent) (a : Answer) (m : Mem) (slot : PschRingEntry) :
    BuildPc → Option (Mem × PschRingEntry × BuildPc)
  | .copyPrefix =>
    some (m, { slot with fixed := e.fixed, errMessageLen := e.errMessageLen,
                         queryLen := e.queryLen }, .allocErr)
  | .allocErr =>
    (pschDsaAllocString m e.errMessage e.errMessageLen pschMaxErrMsgLen a).map fun (m', dp) =>
      if 0 < e.errMessageLen ∧ dp = invalidDsaPointer then
        -- the string is lost, the numbers are kept
        (m', { slot with errMessageDsa := dp, errMessageLen := 0 }, .query a.block)
      else (m', { slot with errMessageDsa := dp }, .query a.block)
  | .query errBlock =>
    if 0 < e.queryLen then some (m, slot, .acquire errBlock [] .lookup)
    else some (m, { slot with queryDsa := invalidDsaPointer }, .ready errBlock [])
  | .acquire errBlock met (.done dp) =>
    if dp = invalidDsaPointer then
      some (m, { slot with queryDsa := dp, queryLen := 0 }, .ready errBlock met)
    else
      some (m, { slot with queryDsa := dp,
                           queryLen := UInt16.ofNat (clampLen e.queryLen pschMaxQueryLen) },
        .ready errBlock met)
  | .acquire errBlock met pc =>
    (acquireStep cfg (e.internKey cfg.hash) e.queryText m a pc).map fun (m', pc') =>
      (m', slot, .acquire errBlock (met ++ pc.meets m (e.internKey cfg.hash) a) pc')
  | .ready _ _ => none

/-! ## Reading a slot back -/

/-- Where `PschDequeueEvent` is while it reads the slot. -/
inductive ConsumePc where
  /-- `memcpy(event, slot, kFixedPrefixSize)` -/
  | copyPrefix
  /-- the copy in `PschDsaResolveString` -/
  | resolveErr
  /-- its `dsa_free(dsa, dp)` -/
  | freeErr
  /-- `PschQueryInternResolveAndRelease`: zero the outputs, `ResolveInto` -/
  | resolveQuery
  /-- its `ReleaseRef(ref)`; when that is done, so is the slot -/
  | release (pc : ReleasePc)
deriving DecidableEq, Repr

/-- The copying half of `PschDsaResolveString`. -/
def resolveErr (m : Mem) (slot : PschRingEntry) (event : PschEvent) :
    Mem × PschEvent × ConsumePc :=
  if slot.errMessageDsa = invalidDsaPointer then
    (m, { event with errMessage := event.errMessage.terminate 0, errMessageLen := 0 },
      .resolveQuery)
  else
    let len := clampLen slot.errMessageLen pschMaxErrMsgLen
    match m.dsa.body? slot.errMessageDsa with
    | some (.str src) =>
      if len ≤ src.length then
        (m, { event with errMessage := (event.errMessage.write (src.take len)).terminate len,
                         errMessageLen := UInt16.ofNat len }, .freeErr)
      else (m.raise, event, .freeErr)
    | _ => (m.raise, event, .freeErr)

/-- `ResolveInto`, on the zeroed outputs. -/
def resolveInto (m : Mem) (ref : DsaPointer) (event : PschEvent) : Mem × PschEvent :=
  if ref = invalidDsaPointer then (m, event)
  else
    match m.object? ref with
    | none => (m.raise, event)
    | some o =>
      if o.magic ≠ pschQueryInternMagic then (m, event)
      else
        let copyLen := clampLen o.key.queryLen pschMaxQueryLen
        if copyLen ≤ o.query.length then
          (m, { event with query := (event.query.write (o.query.take copyLen)).terminate copyLen,
                           queryLen := UInt16.ofNat copyLen })
        else (m.raise, event)

/-- One step of reading `slot` into the caller's event. -/
def consumeStep (m : Mem) (slot : PschRingEntry) (event : PschEvent) :
    ConsumePc → Option (Mem × PschEvent × ConsumePc)
  | .copyPrefix =>
    some (m, { event with fixed := slot.fixed, errMessageLen := slot.errMessageLen,
                          queryLen := slot.queryLen }, .resolveErr)
  | .resolveErr => some (resolveErr m slot event)
  | .freeErr => some (m.dsaFree slot.errMessageDsa, event, .resolveQuery)
  | .resolveQuery =>
    let (m', event') := resolveInto m slot.queryDsa
      { event with queryLen := 0, query := event.query.terminate 0 }
    some (m', event', .release .read)
  | .release .done => none
  | .release pc =>
    (releaseStep m slot.queryDsa pc).map fun (m', pc') => (m', event, .release pc')

/-! ## What is to come out -/

/-- An event in the ring: what was handed in, the slot it was stored in, and as history
the answer to the allocation of its error text and what was met while its query text
was interned. -/
structure Published where
  event : PschEvent
  slot : PschRingEntry
  errBlock : Option DsaPointer
  met : List Met

/-- What costs an event its error text: there is none, or no block for it. -/
def Published.ErrLost (pub : Published) : Prop :=
  pub.event.errMessageLen = 0 ∨ pub.errBlock = none

/-- Something was met for which the text is lost. -/
def LostBy (text : List UInt8) (met : List Met) : Prop := ∃ x ∈ met, x.Loses text

/-- What costs an event its query text: there is none, or something that was met. -/
def Published.QueryLost (pub : Published) : Prop :=
  pub.event.queryLen = 0 ∨ LostBy pub.event.queryText pub.met

instance (pub : Published) : Decidable pub.ErrLost := inferInstanceAs (Decidable (_ ∨ _))

instance (text : List UInt8) (met : List Met) : Decidable (LostBy text met) :=
  inferInstanceAs (Decidable (∃ x ∈ met, x.Loses text))

instance (pub : Published) : Decidable pub.QueryLost := inferInstanceAs (Decidable (_ ∨ _))

/-- A text buffer after the trip through the ring: nothing if the text was lost and
otherwise the whole text, and a NUL at the reported length. -/
structure TextOut {n : ℕ} (text : List UInt8) (lost : Prop) (len : UInt16) (buf : CharBuf n) :
    Prop where
  empty : lost → len = 0
  whole : ¬ lost → len.toNat = text.length ∧ buf.bytes text.length = text
  terminated : buf.byteAt len.toNat = 0

/-- The event that comes out is the event that went in, up to truncation and the
loss of texts. A text that was found under the key of the event's has the same key. -/
structure RoundTrip (hash : List UInt8 → UInt64) (pub : Published) (out : PschEvent) : Prop where
  fixed : out.fixed = pub.event.fixed
  err : TextOut pub.event.errText pub.ErrLost out.errMessageLen out.errMessage
  query : TextOut pub.event.queryText pub.QueryLost out.queryLen out.query
  sameKey : ∀ x ∈ pub.met, ∀ other, x.live = some other →
    KeyFits hash (pub.event.internKey hash) other

end PgStatCh
