import PgStatCh.Export.Attributes
import PgStatCh.Export.Batch
import PgStatCh.Export.EventColumns
import PgStatCh.Lib.Dictionary

/-!
# Export.Arrow — the Arrow batch builder

arrow_batch.cc: one column builder for each field of the schema. The builders are matched to the
fields only by position, over four lists that are written out by hand: the schema, the appends of
an event, the arrays that `Finish` collects, and the resets. They are transcribed here as they
are, and what they have to do with each other is proved.

A builder is a list that is appended to; that of a dictionary column keeps a memo of its values,
which `Finish` and `Reset` leave alone and `ResetFull` clears.
-/

namespace PgStatCh

open Lib

namespace Arrow

/-! ## Values and arrays -/

/-- The types of the fields. -/
inductive DataType where
  | timestampNs | dictionaryUtf8 | utf8 | int32 | uint32 | uint64
deriving DecidableEq, Repr

inductive Value where
  | timestamp (v : Int64)
  | utf8 (v : List UInt8)
  | int32 (v : Int32)
  | uint32 (v : UInt32)
  | uint64 (v : UInt64)
deriving DecidableEq, Repr

/-- What a builder holds, and `Finish` returns. -/
inductive Values where
  | plain (values : List Value)
  | dictionary (values : Dictionary (List UInt8))

namespace Values

def toList : Values → List Value
  | .plain values => values
  | .dictionary values => values.decode.map .utf8

/-- The number of values in the array. -/
def length : Values → ℕ
  | .plain values => values.length
  | .dictionary values => values.indices.length

/-- `Append`. A dictionary builder only takes texts. -/
def append (v : Value) : Values → Values
  | .plain values => .plain (values ++ [v])
  | .dictionary values =>
    match v with
    | .utf8 v => .dictionary (values.append v)
    | _ => .dictionary values

/-- `Reset`, and what `Finish` leaves. -/
def reset : Values → Values
  | .plain _ => .plain []
  | .dictionary values => .dictionary values.clear

/-- `ResetFull`. -/
def resetFull : Values → Values
  | .plain _ => .plain []
  | .dictionary _ => .dictionary .empty

end Values

/-! ## The lists -/

/-- The builders, `ts_builder` and so on. -/
inductive Builder where
  | ts | severity | body | traceId | spanId | queryId | dbName | dbUser | dbOperation | app
  | clientAddr | queryText | pid | errMessage | errSqlstate | errElevel | durationUs | rows
  | sharedBlksHit | sharedBlksRead | sharedBlksWritten | sharedBlksDirtied | sharedBlkReadTimeUs
  | sharedBlkWriteTimeUs | localBlksHit | localBlksRead | localBlksWritten | localBlksDirtied
  | localBlkReadTimeUs | localBlkWriteTimeUs | tempBlksRead | tempBlksWritten | tempBlkReadTimeUs
  | tempBlkWriteTimeUs | walRecords | walBytes | walFpi | cpuUserTimeUs | cpuSysTimeUs
  | jitFunctions | jitGenerationTimeUs | jitInliningTimeUs | jitOptimizationTimeUs
  | jitEmissionTimeUs | jitDeformTimeUs | parallelWorkersPlanned | parallelWorkersLaunched
  | instanceUbid | serverUbid | serverRole | readReplicaType | region | cell | serviceVersion
  | hostId | podName
deriving DecidableEq, Repr

/-- `"%d"`, `"%lu"`. -/
def decimal (n : ℤ) : List UInt8 := (toString n).toList.map fun c => UInt8.ofNat c.toNat

/-- What `snprintf` leaves in a buffer of `size` bytes. -/
def snprintf (size : ℕ) (text : List UInt8) : List UInt8 := text.take (size - 1)

def clampSignedToUint64 (value : Int64) : UInt64 := if value < 0 then 0 else value.toUInt64

def clampSignedToUint32 (value : Int32) : UInt32 := if value < 0 then 0 else value.toUInt32

/-- The fields that `Init` puts into the schema. -/
def schema : List (String × DataType) :=
  [("ts", .timestampNs), ("severity", .dictionaryUtf8), ("body", .utf8), ("trace_id", .utf8),
   ("span_id", .utf8), ("query_id", .dictionaryUtf8), ("db_name", .dictionaryUtf8),
   ("db_user", .dictionaryUtf8), ("db_operation", .dictionaryUtf8), ("app", .dictionaryUtf8),
   ("client_addr", .dictionaryUtf8), ("query_text", .utf8), ("pid", .utf8),
   ("err_message", .utf8), ("err_sqlstate", .dictionaryUtf8), ("err_elevel", .int32),
   ("duration_us", .uint64), ("rows", .uint64), ("shared_blks_hit", .uint64),
   ("shared_blks_read", .uint64), ("shared_blks_written", .uint64),
   ("shared_blks_dirtied", .uint64), ("shared_blk_read_time_us", .uint64),
   ("shared_blk_write_time_us", .uint64), ("local_blks_hit", .uint64),
   ("local_blks_read", .uint64), ("local_blks_written", .uint64), ("local_blks_dirtied", .uint64),
   ("local_blk_read_time_us", .uint64), ("local_blk_write_time_us", .uint64),
   ("temp_blks_read", .uint64), ("temp_blks_written", .uint64),
   ("temp_blk_read_time_us", .uint64), ("temp_blk_write_time_us", .uint64),
   ("wal_records", .uint64), ("wal_bytes", .uint64), ("wal_fpi", .uint64),
   ("cpu_user_time_us", .uint64), ("cpu_sys_time_us", .uint64), ("jit_functions", .uint64),
   ("jit_generation_time_us", .uint64), ("jit_inlining_time_us", .uint64),
   ("jit_optimization_time_us", .uint64), ("jit_emission_time_us", .uint64),
   ("jit_deform_time_us", .uint64), ("parallel_workers_planned", .uint32),
   ("parallel_workers_launched", .uint32), ("instance_ubid", .utf8), ("server_ubid", .utf8),
   ("server_role", .dictionaryUtf8), ("read_replica_type", .dictionaryUtf8),
   ("region", .dictionaryUtf8), ("cell", .dictionaryUtf8), ("service_version", .dictionaryUtf8),
   ("host_id", .utf8), ("pod_name", .utf8)]

namespace Builder

/-- What the builder builds. -/
def type : Builder → DataType
  | .ts => .timestampNs
  | .severity | .queryId | .dbName | .dbUser | .dbOperation | .app
  | .clientAddr | .errSqlstate | .serverRole | .readReplicaType | .region
  | .cell | .serviceVersion => .dictionaryUtf8
  | .body | .traceId | .spanId | .queryText | .pid | .errMessage
  | .instanceUbid | .serverUbid | .hostId | .podName => .utf8
  | .errElevel => .int32
  | .parallelWorkersPlanned | .parallelWorkersLaunched => .uint32
  | _ => .uint64

/-- What `Append` appends to the builder for an event. -/
def value (attrs : ExtraAttrs) (version : List UInt8) (ev : PschEvent) : Builder → Value :=
  let f := ev.fixed
  fun
  | .ts => .timestamp ((f.tsStart + kPostgresEpochOffsetUs) * 1000)
  | .severity => .utf8 []
  | .body => .utf8 []
  | .traceId => .utf8 []
  | .spanId => .utf8 []
  | .queryId => .utf8 (snprintf 24 (decimal f.queryid.toNat))
  | .dbName => .utf8 (f.datname.bytes (clampFieldLen f.datnameLen.toNat 63))
  | .dbUser => .utf8 (f.username.bytes (clampFieldLen f.usernameLen.toNat 63))
  | .dbOperation => .utf8 (utf8 (pschCmdTypeToString f.cmdType))
  | .app =>
    .utf8 (f.applicationName.bytes (clampFieldLen f.applicationNameLen.toNat pschMaxAppNameLen))
  | .clientAddr =>
    .utf8 (f.clientAddr.bytes (clampFieldLen f.clientAddrLen.toNat pschMaxClientAddrLen))
  | .queryText => .utf8 (ev.query.bytes (clampFieldLen ev.queryLen.toNat pschMaxQueryLen))
  | .pid => .utf8 (snprintf 12 (decimal f.pid.toInt))
  | .errMessage =>
    .utf8 (ev.errMessage.bytes (clampFieldLen ev.errMessageLen.toNat pschMaxErrMsgLen))
  | .errSqlstate => .utf8 (f.errSqlstate.bytes (strnlen f.errSqlstate 5))
  | .errElevel => .int32 f.errElevel.toUInt32.toInt32
  | .durationUs => .uint64 f.durationUs
  | .rows => .uint64 f.rows
  | .sharedBlksHit => .uint64 (clampSignedToUint64 f.sharedBlksHit)
  | .sharedBlksRead => .uint64 (clampSignedToUint64 f.sharedBlksRead)
  | .sharedBlksWritten => .uint64 (clampSignedToUint64 f.sharedBlksWritten)
  | .sharedBlksDirtied => .uint64 (clampSignedToUint64 f.sharedBlksDirtied)
  | .sharedBlkReadTimeUs => .uint64 (clampSignedToUint64 f.sharedBlkReadTimeUs)
  | .sharedBlkWriteTimeUs => .uint64 (clampSignedToUint64 f.sharedBlkWriteTimeUs)
  | .localBlksHit => .uint64 (clampSignedToUint64 f.localBlksHit)
  | .localBlksRead => .uint64 (clampSignedToUint64 f.localBlksRead)
  | .localBlksWritten => .uint64 (clampSignedToUint64 f.localBlksWritten)
  | .localBlksDirtied => .uint64 (clampSignedToUint64 f.localBlksDirtied)
  | .localBlkReadTimeUs => .uint64 (clampSignedToUint64 f.localBlkReadTimeUs)
  | .localBlkWriteTimeUs => .uint64 (clampSignedToUint64 f.localBlkWriteTimeUs)
  | .tempBlksRead => .uint64 (clampSignedToUint64 f.tempBlksRead)
  | .tempBlksWritten => .uint64 (clampSignedToUint64 f.tempBlksWritten)
  | .tempBlkReadTimeUs => .uint64 (clampSignedToUint64 f.tempBlkReadTimeUs)
  | .tempBlkWriteTimeUs => .uint64 (clampSignedToUint64 f.tempBlkWriteTimeUs)
  | .walRecords => .uint64 (clampSignedToUint64 f.walRecords)
  | .walBytes => .uint64 f.walBytes
  | .walFpi => .uint64 (clampSignedToUint64 f.walFpi)
  | .cpuUserTimeUs => .uint64 (clampSignedToUint64 f.cpuUserTimeUs)
  | .cpuSysTimeUs => .uint64 (clampSignedToUint64 f.cpuSysTimeUs)
  | .jitFunctions => .uint64 (clampSignedToUint64 f.jitFunctions.toInt64)
  | .jitGenerationTimeUs => .uint64 (clampSignedToUint64 f.jitGenerationTimeUs.toInt64)
  | .jitInliningTimeUs => .uint64 (clampSignedToUint64 f.jitInliningTimeUs.toInt64)
  | .jitOptimizationTimeUs => .uint64 (clampSignedToUint64 f.jitOptimizationTimeUs.toInt64)
  | .jitEmissionTimeUs => .uint64 (clampSignedToUint64 f.jitEmissionTimeUs.toInt64)
  | .jitDeformTimeUs => .uint64 (clampSignedToUint64 f.jitDeformTimeUs.toInt64)
  | .parallelWorkersPlanned => .uint32 (clampSignedToUint32 f.parallelWorkersPlanned.toInt32)
  | .parallelWorkersLaunched => .uint32 (clampSignedToUint32 f.parallelWorkersLaunched.toInt32)
  | .instanceUbid => .utf8 (extraAttr attrs (utf8 "instance_ubid"))
  | .serverUbid => .utf8 (extraAttr attrs (utf8 "server_ubid"))
  | .serverRole => .utf8 (extraAttr attrs (utf8 "server_role"))
  | .readReplicaType => .utf8 (extraAttr attrs (utf8 "read_replica_type"))
  | .region => .utf8 (extraAttr attrs (utf8 "region"))
  | .cell => .utf8 (extraAttr attrs (utf8 "cell"))
  | .serviceVersion => .utf8 version
  | .hostId => .utf8 (extraAttr attrs (utf8 "host_id"))
  | .podName => .utf8 (extraAttr attrs (utf8 "pod_name"))

/-- The builders in the order in which `Append` appends to them. -/
def appended : List Builder :=
  [.ts, .severity, .body, .traceId, .spanId, .queryId, .dbName, .dbUser, .dbOperation, .app,
   .clientAddr, .queryText, .pid, .errMessage, .errSqlstate, .errElevel, .durationUs, .rows,
   .sharedBlksHit, .sharedBlksRead, .sharedBlksWritten, .sharedBlksDirtied, .sharedBlkReadTimeUs,
   .sharedBlkWriteTimeUs, .localBlksHit, .localBlksRead, .localBlksWritten, .localBlksDirtied,
   .localBlkReadTimeUs, .localBlkWriteTimeUs, .tempBlksRead, .tempBlksWritten, .tempBlkReadTimeUs,
   .tempBlkWriteTimeUs, .walRecords, .walBytes, .walFpi, .cpuUserTimeUs, .cpuSysTimeUs,
   .jitFunctions, .jitGenerationTimeUs, .jitInliningTimeUs, .jitOptimizationTimeUs,
   .jitEmissionTimeUs, .jitDeformTimeUs, .parallelWorkersPlanned, .parallelWorkersLaunched,
   .instanceUbid, .serverUbid, .serverRole, .readReplicaType, .region, .cell, .serviceVersion,
   .hostId, .podName]

/-- The builders in the order in which `Finish` takes their arrays. -/
def finished : List Builder :=
  [.ts, .severity, .body, .traceId, .spanId, .queryId, .dbName, .dbUser, .dbOperation, .app,
   .clientAddr, .queryText, .pid, .errMessage, .errSqlstate, .errElevel, .durationUs, .rows,
   .sharedBlksHit, .sharedBlksRead, .sharedBlksWritten, .sharedBlksDirtied, .sharedBlkReadTimeUs,
   .sharedBlkWriteTimeUs, .localBlksHit, .localBlksRead, .localBlksWritten, .localBlksDirtied,
   .localBlkReadTimeUs, .localBlkWriteTimeUs, .tempBlksRead, .tempBlksWritten, .tempBlkReadTimeUs,
   .tempBlkWriteTimeUs, .walRecords, .walBytes, .walFpi, .cpuUserTimeUs, .cpuSysTimeUs,
   .jitFunctions, .jitGenerationTimeUs, .jitInliningTimeUs, .jitOptimizationTimeUs,
   .jitEmissionTimeUs, .jitDeformTimeUs, .parallelWorkersPlanned, .parallelWorkersLaunched,
   .instanceUbid, .serverUbid, .serverRole, .readReplicaType, .region, .cell, .serviceVersion,
   .hostId, .podName]

/-- How a builder is reset. -/
inductive ResetKind where
  | reset | resetFull
deriving DecidableEq, Repr

/-- The builders in the order in which `Reset` resets them. -/
def resets : List (Builder × ResetKind) :=
  [(.ts, .reset), (.severity, .resetFull), (.body, .reset), (.traceId, .reset), (.spanId, .reset),
   (.queryId, .resetFull), (.dbName, .resetFull), (.dbUser, .resetFull),
   (.dbOperation, .resetFull), (.app, .resetFull), (.clientAddr, .resetFull),
   (.queryText, .reset), (.pid, .reset), (.errMessage, .reset), (.errSqlstate, .resetFull),
   (.errElevel, .reset), (.durationUs, .reset), (.rows, .reset), (.sharedBlksHit, .reset),
   (.sharedBlksRead, .reset), (.sharedBlksWritten, .reset), (.sharedBlksDirtied, .reset),
   (.sharedBlkReadTimeUs, .reset), (.sharedBlkWriteTimeUs, .reset), (.localBlksHit, .reset),
   (.localBlksRead, .reset), (.localBlksWritten, .reset), (.localBlksDirtied, .reset),
   (.localBlkReadTimeUs, .reset), (.localBlkWriteTimeUs, .reset), (.tempBlksRead, .reset),
   (.tempBlksWritten, .reset), (.tempBlkReadTimeUs, .reset), (.tempBlkWriteTimeUs, .reset),
   (.walRecords, .reset), (.walBytes, .reset), (.walFpi, .reset), (.cpuUserTimeUs, .reset),
   (.cpuSysTimeUs, .reset), (.jitFunctions, .reset), (.jitGenerationTimeUs, .reset),
   (.jitInliningTimeUs, .reset), (.jitOptimizationTimeUs, .reset), (.jitEmissionTimeUs, .reset),
   (.jitDeformTimeUs, .reset), (.parallelWorkersPlanned, .reset),
   (.parallelWorkersLaunched, .reset), (.instanceUbid, .reset), (.serverUbid, .reset),
   (.serverRole, .resetFull), (.readReplicaType, .resetFull), (.region, .resetFull),
   (.cell, .resetFull), (.serviceVersion, .resetFull), (.hostId, .reset), (.podName, .reset)]

def isDictionary (x : Builder) : Bool := x.type == .dictionaryUtf8

/-- An empty builder. -/
def fresh (x : Builder) : Values := if x.isDictionary then .dictionary .empty else .plain []

/-! ### What the lists have to do with each other -/

theorem nodup_appended : appended.Nodup := by decide

theorem mem_appended (x : Builder) : x ∈ appended := by
  cases x <;> decide

/-- The columns are collected in the order in which they are filled. -/
theorem finished_eq_appended : finished = appended := rfl

theorem nodup_finished : finished.Nodup := by
  rw [finished_eq_appended]
  exact nodup_appended

theorem mem_finished (x : Builder) : x ∈ finished := by
  rw [finished_eq_appended]
  exact mem_appended x

/-- Every builder is reset, and a dictionary in full. -/
theorem resets_eq :
    resets = appended.map fun x => (x, if x.isDictionary then .resetFull else .reset) := rfl

/-- A dictionary builder gets a text. -/
theorem value_of_isDictionary {x : Builder} (h : x.isDictionary = true) (attrs : ExtraAttrs)
    (version : List UInt8) (ev : PschEvent) : ∃ v, x.value attrs version ev = .utf8 v := by
  cases x <;> first | exact ⟨_, rfl⟩ | cases h

end Builder

end Arrow

/-! ## The batch builder -/

open Arrow

/-- A record batch. -/
structure Block where
  schema : List (String × DataType)
  numRows : ℕ
  columns : List Values

/-- `ArrowBatchBuilder::Impl`. -/
structure ArrowImpl where
  extraAttrs : ExtraAttrs
  serviceVersion : List UInt8
  numRows : ℕ := 0
  estimatedBytes : ℕ := 0
  builders : Builder → Values := Builder.fresh
  /-- history: the events that were appended since the last reset -/
  rows : List PschEvent := []

namespace ArrowImpl

/-- `Reset` of one builder. -/
def resetOne (b : ArrowImpl) (x : Builder × Builder.ResetKind) : ArrowImpl :=
  let values :=
    match x.2 with
    | .reset => (b.builders x.1).reset
    | .resetFull => (b.builders x.1).resetFull
  { b with builders := Function.update b.builders x.1 values }

def reset (b : ArrowImpl) : ArrowImpl :=
  { Builder.resets.foldl resetOne b with
      numRows := 0, estimatedBytes := kIpcEnvelopeBytes, rows := [] }

def init (extraAttrs serviceVersion : Option (List UInt8)) : ArrowImpl :=
  reset { extraAttrs := parseExtraAttributes extraAttrs, serviceVersion := serviceVersion.getD [] }

/-- One append of an event. -/
def appendOne (ev : PschEvent) (b : ArrowImpl) (x : Builder) : ArrowImpl :=
  let values := (b.builders x).append (x.value b.extraAttrs b.serviceVersion ev)
  { b with builders := Function.update b.builders x values }

/-- The bytes that every row carries. -/
def extraBytes (b : ArrowImpl) : ℕ :=
  b.serviceVersion.length + (extraAttr b.extraAttrs (utf8 "instance_ubid")).length +
    (extraAttr b.extraAttrs (utf8 "server_ubid")).length +
    (extraAttr b.extraAttrs (utf8 "server_role")).length +
    (extraAttr b.extraAttrs (utf8 "read_replica_type")).length +
    (extraAttr b.extraAttrs (utf8 "region")).length +
    (extraAttr b.extraAttrs (utf8 "cell")).length +
    (extraAttr b.extraAttrs (utf8 "host_id")).length +
    (extraAttr b.extraAttrs (utf8 "pod_name")).length

/-- `Append`, when it fails after `n` of the appends. -/
def appendSome (b : ArrowImpl) (n : ℕ) (ev : PschEvent) : ArrowImpl :=
  (Builder.appended.take n).foldl (appendOne ev) b

/-- `Append`, when it succeeds. -/
def append (b : ArrowImpl) (ev : PschEvent) : ArrowImpl :=
  let b := Builder.appended.foldl (appendOne ev) b
  { b with
    estimatedBytes := b.estimatedBytes + ArrowBatchBuilder.rowBytes b.extraBytes ev
    numRows := b.numRows + 1
    rows := b.rows ++ [ev] }

/-- `Finish` of one builder: its array joins the columns. -/
def finishOne (s : ArrowImpl × List Values) (x : Builder) : ArrowImpl × List Values :=
  ({ s.1 with builders := Function.update s.1.builders x (s.1.builders x).reset },
    s.2 ++ [s.1.builders x])

/-- `Finish`, when it fails after `n` of the arrays. -/
def finishSome (b : ArrowImpl) (n : ℕ) : ArrowImpl :=
  ((Builder.finished.take n).foldl finishOne (b, [])).1

/-- `Finish`, when it succeeds. -/
def finish (b : ArrowImpl) : ArrowImpl × Block :=
  let s := Builder.finished.foldl finishOne (b, [])
  (s.1, ⟨Arrow.schema, b.numRows, s.2⟩)

end ArrowImpl

end PgStatCh
