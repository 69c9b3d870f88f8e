import Mathlib.Data.List.Basic
import Mathlib.Data.Fin.Basic

/-!
# Queue.Event — telemetry events and ring slots

`PschEvent` (event.h) is what producers hand in and the consumer gets back: a
fixed-size prefix of numbers, names and lengths, and two inline text buffers.
`PschRingEntry` (ring_entry.h) is what a ring slot holds: the same prefix, with
the two buffers replaced by pointers into the string area. Both prefixes have
one layout and are copied with one `memcpy`, so the model gives them one type.
-/

namespace PgStatCh

/-! ## Character arrays -/

/-- A C array `char[n]`. -/
abbrev CharBuf (n : ℕ) := Fin n → UInt8

namespace CharBuf

variable {n : ℕ}

/-- All bytes zero. -/
def zero (n : ℕ) : CharBuf n := fun _ => 0

/-- The byte at index `i`. -/
def byteAt (b : CharBuf n) (i : ℕ) : UInt8 := if h : i < n then b ⟨i, h⟩ else 0

/-- The first `len` bytes. -/
def bytes (b : CharBuf n) (len : ℕ) : List UInt8 := (List.range len).map b.byteAt

/-- `memcpy(b, src, src.length)`. -/
def write (b : CharBuf n) (src : List UInt8) : CharBuf n := fun i => src.getD i (b i)

/-- `b[len] = '\0'`. -/
def terminate (b : CharBuf n) (len : ℕ) : CharBuf n := fun i => if (i : ℕ) = len then 0 else b i

@[simp] theorem bytes_length (b : CharBuf n) (len : ℕ) : (b.bytes len).length = len := by
  simp [bytes]

@[simp] theorem bytes_zero (b : CharBuf n) : b.bytes 0 = [] := rfl

theorem byteAt_write {b : CharBuf n} {src : List UInt8} {i : ℕ} (hi : i < src.length)
    (hn : i < n) : (b.write src).byteAt i = src[i] := by
  simp [byteAt, write, hn, hi]

theorem byteAt_terminate_ne {b : CharBuf n} {len i : ℕ} (hi : i ≠ len) :
    (b.terminate len).byteAt i = b.byteAt i := by
  simp [byteAt, terminate, hi]

theorem byteAt_terminate_self (b : CharBuf n) (len : ℕ) :
    (b.terminate len).byteAt len = 0 := by
  simp [byteAt, terminate]

/-- Copying a text that fits and terminating it leaves exactly that text. -/
theorem bytes_write_terminate (b : CharBuf n) {src : List UInt8} (hsrc : src.length ≤ n) :
    ((b.write src).terminate src.length).bytes src.length = src := by
  apply List.ext_getElem
  · simp
  · intro i hi hi'
    simp only [bytes, List.getElem_map, List.getElem_range]
    rw [byteAt_terminate_ne (by omega), byteAt_write hi' (by omega)]

end CharBuf

/-! ## Events and slots -/

/-- `PSCH_MAX_QUERY_LEN`. -/
def pschMaxQueryLen : ℕ := 2048

/-- `PSCH_MAX_ERR_MSG_LEN`. -/
def pschMaxErrMsgLen : ℕ := 2048

/-- `PschCmdType`. -/
inductive PschCmdType where
  | unknown | select | update | insert | delete | merge | utility | nothing
deriving DecidableEq, Repr

/-- The fields of the fixed prefix that `PschEvent` and `PschRingEntry` share,
less the two text lengths. -/
structure FixedPrefix where
  tsStart : Int64 := 0
  durationUs : UInt64 := 0
  dbid : UInt32 := 0
  userid : UInt32 := 0
  datname : CharBuf 64 := .zero 64
  datnameLen : UInt8 := 0
  username : CharBuf 64 := .zero 64
  usernameLen : UInt8 := 0
  pid : Int32 := 0
  queryid : UInt64 := 0
  topLevel : Bool := false
  cmdType : PschCmdType := .unknown
  rows : UInt64 := 0
  sharedBlksHit : Int64 := 0
  sharedBlksRead : Int64 := 0
  sharedBlksDirtied : Int64 := 0
  sharedBlksWritten : Int64 := 0
  localBlksHit : Int64 := 0
  localBlksRead : Int64 := 0
  localBlksDirtied : Int64 := 0
  localBlksWritten : Int64 := 0
  tempBlksRead : Int64 := 0
  tempBlksWritten : Int64 := 0
  sharedBlkReadTimeUs : Int64 := 0
  sharedBlkWriteTimeUs : Int64 := 0
  localBlkReadTimeUs : Int64 := 0
  localBlkWriteTimeUs : Int64 := 0
  tempBlkReadTimeUs : Int64 := 0
  tempBlkWriteTimeUs : Int64 := 0
  walRecords : Int64 := 0
  walFpi : Int64 := 0
  walBytes : UInt64 := 0
  cpuUserTimeUs : Int64 := 0
  cpuSysTimeUs : Int64 := 0
  jitFunctions : Int32 := 0
  jitGenerationTimeUs : Int32 := 0
  jitDeformTimeUs : Int32 := 0
  jitInliningTimeUs : Int32 := 0
  jitOptimizationTimeUs : Int32 := 0
  jitEmissionTimeUs : Int32 := 0
  parallelWorkersPlanned : Int16 := 0
  parallelWorkersLaunched : Int16 := 0
  errSqlstate : CharBuf 6 := .zero 6
  errElevel : UInt8 := 0
  padding3 : UInt8 := 0
  applicationName : CharBuf 64 := .zero 64
  applicationNameLen : UInt8 := 0
  clientAddr : CharBuf 46 := .zero 46
  clientAddrLen : UInt8 := 0

/-- `PschEvent`: the event with its texts inline. -/
structure PschEvent where
  fixed : FixedPrefix := {}
  errMessageLen : UInt16 := 0
  queryLen : UInt16 := 0
  errMessage : CharBuf pschMaxErrMsgLen := .zero _
  query : CharBuf pschMaxQueryLen := .zero _

/-- `dsa_pointer`. -/
abbrev DsaPointer := UInt64

/-- `InvalidDsaPointer`. -/
def invalidDsaPointer : DsaPointer := 0

/-- `PschRingEntry`: the event as a ring slot holds it. -/
structure PschRingEntry where
  fixed : FixedPrefix := {}
  errMessageLen : UInt16 := 0
  queryLen : UInt16 := 0
  errMessageDsa : DsaPointer := invalidDsaPointer
  queryDsa : DsaPointer := invalidDsaPointer

/-! ## The lengths the queue clamps to -/

/-- `Min(len, (uint16)(max_len - 1))`. -/
def clampLen (len : UInt16) (maxLen : ℕ) : ℕ := min len.toNat (maxLen - 1)

/-- The error text that survives: the first `min(err_message_len, 2047)` bytes. -/
def PschEvent.errText (e : PschEvent) : List UInt8 :=
  e.errMessage.bytes (clampLen e.errMessageLen pschMaxErrMsgLen)

/-- The query text that survives: the first `min(query_len, 2047)` bytes. -/
def PschEvent.queryText (e : PschEvent) : List UInt8 :=
  e.query.bytes (clampLen e.queryLen pschMaxQueryLen)

@[simp] theorem PschEvent.errText_length (e : PschEvent) :
    e.errText.length = clampLen e.errMessageLen pschMaxErrMsgLen := by
  simp [PschEvent.errText]

@[simp] theorem PschEvent.queryText_length (e : PschEvent) :
    e.queryText.length = clampLen e.queryLen pschMaxQueryLen := by
  simp [PschEvent.queryText]

theorem clampLen_lt {len : UInt16} {maxLen : ℕ} (h : 0 < maxLen) :
    clampLen len maxLen < maxLen := by
  unfold clampLen
  omega

end PgStatCh
