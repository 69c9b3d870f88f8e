import PgStatCh.Export.Exporter

/-!
# Export.EventColumns — the columns of a batch

`ExportEventStatsInternal` asks the exporter for 43 columns, keeps them in variables, and then
appends one value per column for every event (stats_exporter.cc). The variables are `Col`; which
factory each is made with, in which order, what is appended to each and in which order are the
four lists of the source. What an exporter makes of a column is up to it.
-/

namespace PgStatCh

/-- The `T` of a `Column<T>`. -/
inductive ElemType where
  | string | stringView | uint8 | int16 | int32 | int64 | uint64
deriving DecidableEq, Repr

/-- The column factories of `StatsExporter`. -/
inductive Factory where
  | statLCString (name : String)
  | statLCUInt8 (name : String)
  | statLCInt16 (name : String)
  | statLCInt32 (name : String)
  | statHCString (name : String)
  | statHCInt64 (name : String)
  | statHCUInt64 (name : String)
  | statTimestamp (name : String)
  | dbNameColumn
  | dbUserColumn
  | dbDurationColumn
  | dbOperationColumn
  | dbQueryTextColumn
deriving DecidableEq, Repr

/-- The type of the column that a factory makes. -/
def Factory.elem : Factory → ElemType
  | .statLCString _ => .string
  | .statLCUInt8 _ => .uint8
  | .statLCInt16 _ => .int16
  | .statLCInt32 _ => .int32
  | .statHCString _ => .stringView
  | .statHCInt64 _ => .int64
  | .statHCUInt64 _ => .uint64
  | .statTimestamp _ => .int64
  | .dbNameColumn => .string
  | .dbUserColumn => .string
  | .dbDurationColumn => .uint64
  | .dbOperationColumn => .string
  | .dbQueryTextColumn => .stringView

/-- A value that is appended to a column. -/
inductive Cell where
  | string (v : List UInt8)
  | stringView (v : List UInt8)
  | uint8 (v : UInt8)
  | int16 (v : Int16)
  | int32 (v : Int32)
  | int64 (v : Int64)
  | uint64 (v : UInt64)
deriving DecidableEq, Repr

def Cell.type : Cell → ElemType
  | .string _ => .string
  | .stringView _ => .stringView
  | .uint8 _ => .uint8
  | .int16 _ => .int16
  | .int32 _ => .int32
  | .int64 _ => .int64
  | .uint64 _ => .uint64

/-- The bytes of a text. -/
def utf8 (s : String) : List UInt8 := s.toUTF8.data.toList

@[simp] theorem length_utf8 (s : String) : (utf8 s).length = s.utf8ByteSize := rfl

theorem utf8_injective : Function.Injective utf8 := by
  intro a b h
  have hdata : a.toUTF8.data = b.toUTF8.data := Array.toList_inj.mp h
  exact String.toByteArray_inj.mp (ByteArray.ext hdata)

theorem utf8_append (a b : String) : utf8 (a ++ b) = utf8 a ++ utf8 b := by
  simp [utf8]

theorem utf8_join (l : List String) : utf8 (String.join l) = (l.map utf8).flatten := by
  induction l with
  | nil => rfl
  | cons a l ih => rw [String.join_cons, utf8_append, ih, List.map_cons, List.flatten_cons]

theorem utf8_intercalate (sep : String) (l : List String) :
    utf8 (sep.intercalate l) = (utf8 sep).intercalate (l.map utf8) := by
  induction l with
  | nil => rfl
  | cons a l ih =>
    cases l with
    | nil => simp
    | cons b l =>
      rw [String.intercalate_cons_of_ne_nil (by simp), utf8_append, utf8_append, ih]
      simp [List.intercalate]

/-- From the epoch of PostgreSQL to that of Unix, in microseconds. -/
def kPostgresEpochOffsetUs : Int64 := 946684800000000

/-- The column variables, `col_ts` and so on. -/
inductive Col where
  | ts | durationUs | dbName | dbUser | pid | queryId | dbOperation | rows | queryText
  | sharedBlksHit | sharedBlksRead | sharedBlksDirtied | sharedBlksWritten | localBlksHit
  | localBlksRead | localBlksDirtied | localBlksWritten | tempBlksRead | tempBlksWritten
  | sharedBlkReadTimeUs | sharedBlkWriteTimeUs | localBlkReadTimeUs | localBlkWriteTimeUs
  | tempBlkReadTimeUs | tempBlkWriteTimeUs | walRecords | walFpi | walBytes | cpuUserTimeUs
  | cpuSysTimeUs | jitFunctions | jitGenerationTimeUs | jitDeformTimeUs | jitInliningTimeUs
  | jitOptimizationTimeUs | jitEmissionTimeUs | parallelWorkersPlanned | parallelWorkersLaunched
  | errSqlstate | errElevel | errMessage | app | clientAddr
deriving DecidableEq, Repr

namespace Col

/-- What the variable is initialized with. -/
def factory : Col → Factory
  | .ts => .statTimestamp "ts"
  | .durationUs => .dbDurationColumn
  | .dbName => .dbNameColumn
  | .dbUser => .dbUserColumn
  | .pid => .statLCInt32 "pid"
  | .queryId => .statHCInt64 "query_id"
  | .dbOperation => .dbOperationColumn
  | .rows => .statHCUInt64 "rows"
  | .queryText => .dbQueryTextColumn
  | .sharedBlksHit => .statHCInt64 "shared_blks_hit"
  | .sharedBlksRead => .statHCInt64 "shared_blks_read"
  | .sharedBlksDirtied => .statHCInt64 "shared_blks_dirtied"
  | .sharedBlksWritten => .statHCInt64 "shared_blks_written"
  | .localBlksHit => .statHCInt64 "local_blks_hit"
  | .localBlksRead => .statHCInt64 "local_blks_read"
  | .localBlksDirtied => .statHCInt64 "local_blks_dirtied"
  | .localBlksWritten => .statHCInt64 "local_blks_written"
  | .tempBlksRead => .statHCInt64 "temp_blks_read"
  | .tempBlksWritten => .statHCInt64 "temp_blks_written"
  | .sharedBlkReadTimeUs => .statHCInt64 "shared_blk_read_time_us"
  | .sharedBlkWriteTimeUs => .statHCInt64 "shared_blk_write_time_us"
  | .localBlkReadTimeUs => .statHCInt64 "local_blk_read_time_us"
  | .localBlkWriteTimeUs => .statHCInt64 "local_blk_write_time_us"
  | .tempBlkReadTimeUs => .statHCInt64 "temp_blk_read_time_us"
  | .tempBlkWriteTimeUs => .statHCInt64 "temp_blk_write_time_us"
  | .walRecords => .statHCInt64 "wal_records"
  | .walFpi => .statHCInt64 "wal_fpi"
  | .walBytes => .statHCUInt64 "wal_bytes"
  | .cpuUserTimeUs => .statHCInt64 "cpu_user_time_us"
  | .cpuSysTimeUs => .statHCInt64 "cpu_sys_time_us"
  | .jitFunctions => .statLCInt32 "jit_functions"
  | .jitGenerationTimeUs => .statLCInt32 "jit_generation_time_us"
  | .jitDeformTimeUs => .statLCInt32 "jit_deform_time_us"
  | .jitInliningTimeUs => .statLCInt32 "jit_inlining_time_us"
  | .jitOptimizationTimeUs => .statLCInt32 "jit_optimization_time_us"
  | .jitEmissionTimeUs => .statLCInt32 "jit_emission_time_us"
  | .parallelWorkersPlanned => .statLCInt16 "parallel_workers_planned"
  | .parallelWorkersLaunched => .statLCInt16 "parallel_workers_launched"
  | .errSqlstate => .statLCString "err_sqlstate"
  | .errElevel => .statLCUInt8 "err_elevel"
  | .errMessage => .statHCString "err_message"
  | .app => .statLCString "app"
  | .clientAddr => .statHCString "client_addr"

/-- The variables in the order in which they are initialized. -/
def created : List Col :=
  [.ts, .durationUs, .dbName, .dbUser, .pid, .queryId, .dbOperation, .rows, .queryText,
   .sharedBlksHit, .sharedBlksRead, .sharedBlksDirtied, .sharedBlksWritten, .localBlksHit,
   .localBlksRead, .localBlksDirtied, .localBlksWritten, .tempBlksRead, .tempBlksWritten,
   .sharedBlkReadTimeUs, .sharedBlkWriteTimeUs, .localBlkReadTimeUs, .localBlkWriteTimeUs,
   .tempBlkReadTimeUs, .tempBlkWriteTimeUs, .walRecords, .walFpi, .walBytes, .cpuUserTimeUs,
   .cpuSysTimeUs, .jitFunctions, .jitGenerationTimeUs, .jitDeformTimeUs, .jitInliningTimeUs,
   .jitOptimizationTimeUs, .jitEmissionTimeUs, .parallelWorkersPlanned, .parallelWorkersLaunched,
   .errSqlstate, .errElevel, .errMessage, .app, .clientAddr]

/-- What is appended to the column for an event. -/
def cell (ev : PschEvent) : Col → Cell :=
  let f := ev.fixed
  fun
  | .ts => .int64 (f.tsStart + kPostgresEpochOffsetUs)
  | .durationUs => .uint64 f.durationUs
  | .dbName => .string (f.datname.bytes f.datnameLen.toNat)
  | .dbUser => .string (f.username.bytes f.usernameLen.toNat)
  | .pid => .int32 f.pid
  | .queryId => .int64 f.queryid.toInt64
  | .dbOperation => .string (utf8 (pschCmdTypeToString f.cmdType))
  | .rows => .uint64 f.rows
  | .queryText => .stringView (ev.query.bytes (clampFieldLen ev.queryLen.toNat pschMaxQueryLen))
  | .sharedBlksHit => .int64 f.sharedBlksHit
  | .sharedBlksRead => .int64 f.sharedBlksRead
  | .sharedBlksDirtied => .int64 f.sharedBlksDirtied
  | .sharedBlksWritten => .int64 f.sharedBlksWritten
  | .localBlksHit => .int64 f.localBlksHit
  | .localBlksRead => .int64 f.localBlksRead
  | .localBlksDirtied => .int64 f.localBlksDirtied
  | .localBlksWritten => .int64 f.localBlksWritten
  | .tempBlksRead => .int64 f.tempBlksRead
  | .tempBlksWritten => .int64 f.tempBlksWritten
  | .sharedBlkReadTimeUs => .int64 f.sharedBlkReadTimeUs
  | .sharedBlkWriteTimeUs => .int64 f.sharedBlkWriteTimeUs
  | .localBlkReadTimeUs => .int64 f.localBlkReadTimeUs
  | .localBlkWriteTimeUs => .int64 f.localBlkWriteTimeUs
  | .tempBlkReadTimeUs => .int64 f.tempBlkReadTimeUs
  | .tempBlkWriteTimeUs => .int64 f.tempBlkWriteTimeUs
  | .walRecords => .int64 f.walRecords
  | .walFpi => .int64 f.walFpi
  | .walBytes => .uint64 f.walBytes
  | .cpuUserTimeUs => .int64 f.cpuUserTimeUs
  | .cpuSysTimeUs => .int64 f.cpuSysTimeUs
  | .jitFunctions => .int32 f.jitFunctions
  | .jitGenerationTimeUs => .int32 f.jitGenerationTimeUs
  | .jitDeformTimeUs => .int32 f.jitDeformTimeUs
  | .jitInliningTimeUs => .int32 f.jitInliningTimeUs
  | .jitOptimizationTimeUs => .int32 f.jitOptimizationTimeUs
  | .jitEmissionTimeUs => .int32 f.jitEmissionTimeUs
  | .parallelWorkersPlanned => .int16 f.parallelWorkersPlanned
  | .parallelWorkersLaunched => .int16 f.parallelWorkersLaunched
  | .errSqlstate => .string (f.errSqlstate.bytes (strnlen f.errSqlstate 5))
  | .errElevel => .uint8 f.errElevel
  | .errMessage =>
    .stringView (ev.errMessage.bytes (clampFieldLen ev.errMessageLen.toNat pschMaxErrMsgLen))
  | .app =>
    .string (f.applicationName.bytes (clampFieldLen f.applicationNameLen.toNat pschMaxAppNameLen))
  | .clientAddr =>
    .stringView (f.clientAddr.bytes (clampFieldLen f.clientAddrLen.toNat pschMaxClientAddrLen))

/-- The columns in the order in which an event is appended to them. -/
def appended : List Col :=
  [.ts, .durationUs, .dbName, .dbUser, .pid, .queryId, .dbOperation, .rows, .queryText,
   .sharedBlksHit, .sharedBlksRead, .sharedBlksDirtied, .sharedBlksWritten, .localBlksHit,
   .localBlksRead, .localBlksDirtied, .localBlksWritten, .tempBlksRead, .tempBlksWritten,
   .sharedBlkReadTimeUs, .sharedBlkWriteTimeUs, .localBlkReadTimeUs, .localBlkWriteTimeUs,
   .tempBlkReadTimeUs, .tempBlkWriteTimeUs, .walRecords, .walFpi, .walBytes, .cpuUserTimeUs,
   .cpuSysTimeUs, .jitFunctions, .jitGenerationTimeUs, .jitDeformTimeUs, .jitInliningTimeUs,
   .jitOptimizationTimeUs, .jitEmissionTimeUs, .parallelWorkersPlanned, .parallelWorkersLaunched,
   .errSqlstate, .errElevel, .errMessage, .app, .clientAddr]

/-- Every column is appended to once for an event, in the order of creation. -/
theorem appended_eq_created : appended = created := rfl

theorem nodup_created : created.Nodup := by decide

/-- No column variable is left without its column. -/
theorem mem_created (c : Col) : c ∈ created := by
  cases c <;> decide

/-- What is appended to a column is of the column's type. -/
theorem cell_type (ev : PschEvent) (c : Col) : (c.cell ev).type = c.factory.elem := by
  cases c <;> rfl

end Col

/-- An event with this text. -/
def sampleRow (text : String) : PschEvent where
  queryLen := text.utf8ByteSize.toUInt16
  query := (CharBuf.zero _).write (utf8 text)

end PgStatCh
