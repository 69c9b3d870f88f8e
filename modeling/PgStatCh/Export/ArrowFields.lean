import Mathlib.Data.Nat.Digits.Defs
import PgStatCh.Export.Arrow
import PgStatCh.Lib.FinTable

/-!
# Export.ArrowFields — what a block holds

A block is built from the events that were appended since the last reset, and from nothing else:
a reset leaves the builder as `Init` does. Its columns are as long as there are rows, and under
the name of each field of the schema stands what `expectedFields` says of the event, or of the
configuration.
-/

namespace PgStatCh

open Lib Arrow

namespace Arrow

namespace Values

def isDictionary : Values → Bool
  | .plain _ => false
  | .dictionary _ => true

theorem length_toList (a : Values) : a.toList.length = a.length := by
  cases a with
  | plain values => rfl
  | dictionary values => rw [toList, List.length_map, Dictionary.length_decode, length]

@[simp] theorem isDictionary_append (a : Values) (v : Value) :
    (a.append v).isDictionary = a.isDictionary := by
  cases a with
  | plain values => rfl
  | dictionary values => cases v <;> rfl

@[simp] theorem isDictionary_reset (a : Values) : a.reset.isDictionary = a.isDictionary := by
  cases a <;> rfl

/-- An append adds one value, if a dictionary gets a text. -/
theorem toList_append {a : Values} {v : Value}
    (h : a.isDictionary = true → ∃ t, v = .utf8 t) : (a.append v).toList = a.toList ++ [v] := by
  cases a with
  | plain values => rfl
  | dictionary values =>
    obtain ⟨t, rfl⟩ := h rfl
    rw [append, toList, toList, Dictionary.decode_append, List.map_append, List.map_singleton]

/-- A dictionary has no values but those of its rows. -/
def Tight : Values → Prop
  | .plain _ => True
  | .dictionary values => ∀ w ∈ values.memo, w ∈ values.decode

theorem Tight.append {a : Values} (h : a.Tight) (v : Value) : (a.append v).Tight := by
  cases a with
  | plain values => trivial
  | dictionary values =>
    cases v with
    | utf8 t =>
      intro w hw
      rw [Dictionary.decode_append, List.mem_append, List.mem_singleton]
      exact (Dictionary.mem_extend.mp hw).imp_left (h w)
    | _ => exact h

end Values

namespace Builder

theorem isDictionary_fresh (x : Builder) : x.fresh.isDictionary = x.isDictionary := by
  unfold fresh
  split
  · next h => exact h.symm
  · next h => exact (Bool.eq_false_iff.mpr h).symm

theorem toList_fresh (x : Builder) : x.fresh.toList = [] := by
  unfold fresh
  split <;> rfl

theorem tight_fresh (x : Builder) : x.fresh.Tight := by
  unfold fresh
  split
  · exact nofun
  · trivial

end Builder

end Arrow

namespace ArrowImpl

open Builder

/-! ## The loops over the builders -/

/-- The same with other builders. -/
def setBuilders (b : ArrowImpl) (builders : Builder → Values) : ArrowImpl :=
  { b with builders := builders }

@[simp] theorem builders_setBuilders (b : ArrowImpl) (builders : Builder → Values) :
    (b.setBuilders builders).builders = builders := rfl

theorem foldl_appendOne (ev : PschEvent) (xs : List Builder) (b : ArrowImpl) :
    xs.foldl (appendOne ev) b = b.setBuilders (xs.foldl (fun f x =>
      Function.update f x ((f x).append (x.value b.extraAttrs b.serviceVersion ev)))
        b.builders) := by
  induction xs generalizing b with
  | nil => rfl
  | cons x xs ih => exact ih _

theorem foldl_finishOne_fst (xs : List Builder) (b : ArrowImpl) (cols : List Values) :
    (xs.foldl finishOne (b, cols)).1 =
      b.setBuilders (xs.foldl (fun f x => Function.update f x (f x).reset) b.builders) := by
  induction xs generalizing b cols with
  | nil => rfl
  | cons x xs ih => exact ih _ _

/-- Each builder gives its own array, when none comes twice. -/
theorem foldl_finishOne_snd {xs : List Builder} (h : xs.Nodup) (b : ArrowImpl)
    (cols : List Values) : (xs.foldl finishOne (b, cols)).2 = cols ++ xs.map b.builders := by
  induction xs generalizing b cols with
  | nil => exact (List.append_nil _).symm
  | cons x xs ih =>
    obtain ⟨hx, hxs⟩ := List.nodup_cons.mp h
    have hrest : xs.map (Function.update b.builders x (b.builders x).reset) =
        xs.map b.builders := by
      refine List.map_congr_left fun y hy => Function.update_of_ne ?_ _ _
      rintro rfl
      exact hx hy
    rw [List.foldl_cons, List.map_cons, List.append_cons, ← hrest]
    exact ih hxs _ _

/-- How a builder is reset. -/
def resetBuilder (x : Builder) (a : Values) : Values :=
  if x.isDictionary then a.resetFull else a.reset

theorem foldl_resetOne (xs : List Builder) (b : ArrowImpl) :
    (xs.map fun x => (x, if x.isDictionary then .resetFull else ResetKind.reset)).foldl resetOne b =
      b.setBuilders (xs.foldl (fun f x => Function.update f x (resetBuilder x (f x)))
        b.builders) := by
  induction xs generalizing b with
  | nil => rfl
  | cons x xs ih =>
    have hone : resetOne b (x, if x.isDictionary then .resetFull else .reset) =
        b.setBuilders (Function.update b.builders x (resetBuilder x (b.builders x))) := by
      unfold resetOne resetBuilder
      cases x.isDictionary <;> rfl
    rw [List.map_cons, List.foldl_cons, hone, ih]
    rfl

/-! ## The builder between two resets -/

/-- Every builder is of its kind. -/
def WellTyped (b : ArrowImpl) : Prop := ∀ x, (b.builders x).isDictionary = x.isDictionary

theorem resetBuilder_eq_fresh {x : Builder} {a : Values} (h : a.isDictionary = x.isDictionary) :
    resetBuilder x a = x.fresh := by
  unfold resetBuilder fresh
  rw [← h]
  cases a <;> rfl

/-- A reset leaves nothing of the rows before it, in a dictionary neither. -/
theorem reset_eq {b : ArrowImpl} (h : b.WellTyped) :
    b.reset = { extraAttrs := b.extraAttrs, serviceVersion := b.serviceVersion
                estimatedBytes := kIpcEnvelopeBytes } := by
  have hfresh : appended.foldl (fun f x => Function.update f x (resetBuilder x (f x)))
      b.builders = fresh := by
    funext x
    rw [foldl_update resetBuilder nodup_appended, if_pos (mem_appended x),
      resetBuilder_eq_fresh (h x)]
  rw [reset, resets_eq, foldl_resetOne, hfresh]
  rfl

variable (extraAttrs serviceVersion : Option (List UInt8))

theorem init_eq :
    init extraAttrs serviceVersion =
      { extraAttrs := parseExtraAttributes extraAttrs, serviceVersion := serviceVersion.getD []
        estimatedBytes := kIpcEnvelopeBytes } :=
  reset_eq isDictionary_fresh

/-- The builder after the appends of these events. -/
def built (rows : List PschEvent) : ArrowImpl := rows.foldl append (init extraAttrs serviceVersion)

/-- What a builder holds after the appends of these events. -/
def builtValues (rows : List PschEvent) (x : Builder) : Values :=
  rows.foldl (fun a ev => a.append (x.value (parseExtraAttributes extraAttrs)
    (serviceVersion.getD []) ev)) x.fresh

/-- The bytes that every row of a block carries. -/
def configBytes : ℕ := (init extraAttrs serviceVersion).extraBytes

/-- `estimated_bytes` after the appends of these events. -/
def blockEstimate (rows : List PschEvent) : ℕ :=
  kIpcEnvelopeBytes +
    (rows.map (ArrowBatchBuilder.rowBytes (configBytes extraAttrs serviceVersion))).sum

/-- Each builder is appended to once for each event. -/
theorem built_eq (rows : List PschEvent) :
    built extraAttrs serviceVersion rows =
      { extraAttrs := parseExtraAttributes extraAttrs, serviceVersion := serviceVersion.getD []
        numRows := rows.length
        estimatedBytes := blockEstimate extraAttrs serviceVersion rows
        builders := builtValues extraAttrs serviceVersion rows
        rows := rows } := by
  induction rows using List.reverseRecOn with
  | nil => exact init_eq extraAttrs serviceVersion
  | append_singleton rows ev ih =>
    have hbuilders : appended.foldl (fun f x => Function.update f x ((f x).append
        (x.value (parseExtraAttributes extraAttrs) (serviceVersion.getD []) ev)))
          (builtValues extraAttrs serviceVersion rows) =
        builtValues extraAttrs serviceVersion (rows ++ [ev]) := by
      funext x
      rw [foldl_update _ nodup_appended, if_pos (mem_appended x), builtValues, builtValues,
        List.foldl_concat]
    have hestimate : blockEstimate extraAttrs serviceVersion (rows ++ [ev]) =
        blockEstimate extraAttrs serviceVersion rows +
          ArrowBatchBuilder.rowBytes (configBytes extraAttrs serviceVersion) ev := by
      simp [blockEstimate, Nat.add_assoc]
    rw [built, List.foldl_concat, ← built, ih, append, foldl_appendOne, ← hbuilders, hestimate,
      configBytes, init_eq, List.length_append]
    rfl

variable {extraAttrs serviceVersion} {rows : List PschEvent}

theorem isDictionary_builtValues (x : Builder) :
    (builtValues extraAttrs serviceVersion rows x).isDictionary = x.isDictionary := by
  induction rows using List.reverseRecOn with
  | nil => exact isDictionary_fresh x
  | append_singleton rows ev ih =>
    rw [builtValues, List.foldl_concat, Values.isDictionary_append]
    exact ih

/-- A builder holds the values of its events, in order. -/
theorem toList_builtValues (x : Builder) :
    (builtValues extraAttrs serviceVersion rows x).toList =
      rows.map (x.value (parseExtraAttributes extraAttrs) (serviceVersion.getD [])) := by
  induction rows using List.reverseRecOn with
  | nil => exact toList_fresh x
  | append_singleton rows ev ih =>
    rw [builtValues, List.foldl_concat, ← builtValues, Values.toList_append, ih, List.map_append,
      List.map_singleton]
    intro hdict
    rw [isDictionary_builtValues] at hdict
    exact value_of_isDictionary hdict _ _ _

theorem tight_builtValues (x : Builder) : (builtValues extraAttrs serviceVersion rows x).Tight := by
  induction rows using List.reverseRecOn with
  | nil => exact tight_fresh x
  | append_singleton rows ev ih =>
    rw [builtValues, List.foldl_concat]
    exact ih.append _

variable (extraAttrs serviceVersion rows)

/-- The block that `Finish` makes of these events. -/
def blockOf : Block := (built extraAttrs serviceVersion rows).finish.2

theorem blockOf_eq :
    blockOf extraAttrs serviceVersion rows =
      ⟨Arrow.schema, rows.length, finished.map (builtValues extraAttrs serviceVersion rows)⟩ := by
  have hcolumns := foldl_finishOne_snd nodup_finished (built extraAttrs serviceVersion rows) []
  rw [built_eq, List.nil_append] at hcolumns
  rw [blockOf, built_eq]
  exact congrArg (Block.mk Arrow.schema rows.length) hcolumns

/-- After `Finish` and `Reset` the builder is as after `Init`. -/
theorem reset_finish :
    (built extraAttrs serviceVersion rows).finish.1.reset = init extraAttrs serviceVersion := by
  have hfinish : (built extraAttrs serviceVersion rows).finish.1 =
      (built extraAttrs serviceVersion rows).setBuilders (finished.foldl (fun f x =>
        Function.update f x (f x).reset) (built extraAttrs serviceVersion rows).builders) :=
    foldl_finishOne_fst _ _ _
  rw [hfinish, reset_eq, init_eq, built_eq]
  · rfl
  · intro x
    rw [builders_setBuilders, foldl_update (fun _ => Values.reset) nodup_finished,
      if_pos (mem_finished x), built_eq, Values.isDictionary_reset]
    exact isDictionary_builtValues x

end ArrowImpl

/-! ## The fields -/

/-- What a value says, whatever its type. -/
inductive Datum where
  | text (v : List UInt8)
  | number (v : ℤ)
deriving DecidableEq, Repr

def Arrow.Value.datum : Value → Datum
  | .timestamp v => .number v.toInt
  | .utf8 v => .text v
  | .int32 v => .number v.toInt
  | .uint32 v => .number v.toNat
  | .uint64 v => .number v.toNat

/-- The start of the event in nanoseconds since the epoch of Unix, if 64 bits can hold it. -/
def unixNanos (ev : PschEvent) : Option ℤ :=
  let ns := (ev.fixed.tsStart.toInt + 946684800000000) * 1000
  if -2 ^ 63 ≤ ns ∧ ns < 2 ^ 63 then some ns else none

/-- What a row says of an event under each name, if anything is said of it: counters that are not
negative, texts of at most the size of their buffers, ids in decimal, and the configuration. -/
def expectedFields (attrs : ExtraAttrs) (version : List UInt8) (ev : PschEvent) :
    List (String × Option Datum) :=
  let f := ev.fixed
  [("ts", (unixNanos ev).map .number),
   ("severity", some (.text [])),
   ("body", some (.text [])),
   ("trace_id", some (.text [])),
   ("span_id", some (.text [])),
   ("query_id", some (.text (decimal f.queryid.toNat))),
   ("db_name", some (.text (f.datname.bytes (min f.datnameLen.toNat 63)))),
   ("db_user", some (.text (f.username.bytes (min f.usernameLen.toNat 63)))),
   ("db_operation", some (.text (utf8 (pschCmdTypeToString f.cmdType)))),
   ("app", some (.text (f.applicationName.bytes (min f.applicationNameLen.toNat pschMaxAppNameLen)))),
   ("client_addr", some (.text (f.clientAddr.bytes (min f.clientAddrLen.toNat pschMaxClientAddrLen)))),
   ("query_text", some (.text (ev.query.bytes (min ev.queryLen.toNat pschMaxQueryLen)))),
   ("pid", some (.text (decimal f.pid.toInt))),
   ("err_message", some (.text (ev.errMessage.bytes (min ev.errMessageLen.toNat pschMaxErrMsgLen)))),
   ("err_sqlstate", some (.text (f.errSqlstate.bytes (strnlen f.errSqlstate 5)))),
   ("err_elevel", some (.number f.errElevel.toNat)),
   ("duration_us", some (.number f.durationUs.toNat)),
   ("rows", some (.number f.rows.toNat)),
   ("shared_blks_hit", some (.number (max 0 f.sharedBlksHit.toInt))),
   ("shared_blks_read", some (.number (max 0 f.sharedBlksRead.toInt))),
   ("shared_blks_written", some (.number (max 0 f.sharedBlksWritten.toInt))),
   ("shared_blks_dirtied", some (.number (max 0 f.sharedBlksDirtied.toInt))),
   ("shared_blk_read_time_us", some (.number (max 0 f.sharedBlkReadTimeUs.toInt))),
   ("shared_blk_write_time_us", some (.number (max 0 f.sharedBlkWriteTimeUs.toInt))),
   ("local_blks_hit", some (.number (max 0 f.localBlksHit.toInt))),
   ("local_blks_read", some (.number (max 0 f.localBlksRead.toInt))),
   ("local_blks_written", some (.number (max 0 f.localBlksWritten.toInt))),
   ("local_blks_dirtied", some (.number (max 0 f.localBlksDirtied.toInt))),
   ("local_blk_read_time_us", some (.number (max 0 f.localBlkReadTimeUs.toInt))),
   ("local_blk_write_time_us", some (.number (max 0 f.localBlkWriteTimeUs.toInt))),
   ("temp_blks_read", some (.number (max 0 f.tempBlksRead.toInt))),
   ("temp_blks_written", some (.number (max 0 f.tempBlksWritten.toInt))),
   ("temp_blk_read_time_us", some (.number (max 0 f.tempBlkReadTimeUs.toInt))),
   ("temp_blk_write_time_us", some (.number (max 0 f.tempBlkWriteTimeUs.toInt))),
   ("wal_records", some (.number (max 0 f.walRecords.toInt))),
   ("wal_bytes", some (.number f.walBytes.toNat)),
   ("wal_fpi", some (.number (max 0 f.walFpi.toInt))),
   ("cpu_user_time_us", some (.number (max 0 f.cpuUserTimeUs.toInt))),
   ("cpu_sys_time_us", some (.number (max 0 f.cpuSysTimeUs.toInt))),
   ("jit_functions", some (.number (max 0 f.jitFunctions.toInt))),
   ("jit_generation_time_us", some (.number (max 0 f.jitGenerationTimeUs.toInt))),
   ("jit_inlining_time_us", some (.number (max 0 f.jitInliningTimeUs.toInt))),
   ("jit_optimization_time_us", some (.number (max 0 f.jitOptimizationTimeUs.toInt))),
   ("jit_emission_time_us", some (.number (max 0 f.jitEmissionTimeUs.toInt))),
   ("jit_deform_time_us", some (.number (max 0 f.jitDeformTimeUs.toInt))),
   ("parallel_workers_planned", some (.number (max 0 f.parallelWorkersPlanned.toInt))),
   ("parallel_workers_launched", some (.number (max 0 f.parallelWorkersLaunched.toInt))),
   ("instance_ubid", some (.text (extraAttr attrs (utf8 "instance_ubid")))),
   ("server_ubid", some (.text (extraAttr attrs (utf8 "server_ubid")))),
   ("server_role", some (.text (extraAttr attrs (utf8 "server_role")))),
   ("read_replica_type", some (.text (extraAttr attrs (utf8 "read_replica_type")))),
   ("region", some (.text (extraAttr attrs (utf8 "region")))),
   ("cell", some (.text (extraAttr attrs (utf8 "cell")))),
   ("service_version", some (.text version)),
   ("host_id", some (.text (extraAttr attrs (utf8 "host_id")))),
   ("pod_name", some (.text (extraAttr attrs (utf8 "pod_name"))))]

/-- Row `i` of a block: the names of the fields with the values in the columns. -/
def Block.record (b : Block) (i : ℕ) : List (String × Option Value) :=
  List.zipWith (fun field column => (field.1, column.toList[i]?)) b.schema b.columns

/-- The row has these names, and under each of them a value that says what is expected. -/
def Matches : List (String × Option Value) → List (String × Option Datum) → Prop :=
  List.Forall₂ fun a e => a.1 = e.1 ∧ ∃ v, a.2 = some v ∧ ∀ d, e.2 = some d → v.datum = d

/-! ### Numbers -/

theorem toNat_clampSignedToUint64 (v : Int64) :
    ((clampSignedToUint64 v).toNat : ℤ) = max 0 v.toInt := by
  have hcond : v.toInt = if 2 * v.toBitVec.toNat < 2 ^ 64 then (v.toBitVec.toNat : ℤ)
      else v.toBitVec.toNat - (2 ^ 64 : ℕ) := BitVec.toInt_eq_toNat_cond _
  have hbound := v.toBitVec.isLt
  have hlt : v < 0 ↔ v.toInt < 0 := Int64.lt_iff_toInt_lt
  unfold clampSignedToUint64
  split
  · next h =>
    rw [hlt] at h
    rw [max_eq_left (Int.le_of_lt h)]
    rfl
  · next h =>
    rw [hlt] at h
    rw [max_eq_right (by omega)]
    change (v.toBitVec.toNat : ℤ) = v.toInt
    split at hcond <;> omega

theorem toNat_clampSignedToUint32 (v : Int32) :
    ((clampSignedToUint32 v).toNat : ℤ) = max 0 v.toInt := by
  have hcond : v.toInt = if 2 * v.toBitVec.toNat < 2 ^ 32 then (v.toBitVec.toNat : ℤ)
      else v.toBitVec.toNat - (2 ^ 32 : ℕ) := BitVec.toInt_eq_toNat_cond _
  have hbound := v.toBitVec.isLt
  have hlt : v < 0 ↔ v.toInt < 0 := Int32.lt_iff_toInt_lt
  unfold clampSignedToUint32
  split
  · next h =>
    rw [hlt] at h
    rw [max_eq_left (Int.le_of_lt h)]
    rfl
  · next h =>
    rw [hlt] at h
    rw [max_eq_right (by omega)]
    change (v.toBitVec.toNat : ℤ) = v.toInt
    split at hcond <;> omega

theorem length_decimal_natCast {n e : ℕ} (he : 0 < e) (h : n < 10 ^ e) :
    (decimal n).length ≤ e := by
  rw [decimal, List.length_map]
  exact Nat.repr_length n e he h

theorem length_decimal_negSucc {n e : ℕ} (he : 0 < e) (h : n + 1 < 10 ^ e) :
    (decimal (Int.negSucc n)).length ≤ e + 1 := by
  have htext : toString (Int.negSucc n) = "-" ++ Nat.repr (n + 1) := rfl
  have hlength : (Nat.repr (n + 1)).toList.length ≤ e := Nat.repr_length (n + 1) e he h
  rw [decimal, List.length_map, htext, String.toList_append, List.length_append]
  exact (Nat.add_comm ..).trans_le (Nat.add_le_add_right hlength 1)

/-- The buffer for a query id is large enough. -/
theorem snprintf_queryid (x : UInt64) : snprintf 24 (decimal x.toNat) = decimal x.toNat := by
  have hlength : (decimal x.toNat).length ≤ 20 :=
    length_decimal_natCast (by decide) (Nat.lt_trans x.toNat_lt (by decide))
  exact List.take_of_length_le (by omega)

/-- The buffer for a process id is large enough. -/
theorem snprintf_pid (x : Int32) : snprintf 12 (decimal x.toInt) = decimal x.toInt := by
  have hlo := x.le_toInt
  have hhi := x.toInt_lt
  have hlength : (decimal x.toInt).length ≤ 11 := by
    cases hx : x.toInt with
    | ofNat n =>
      have hn : x.toInt = n := hx
      exact length_decimal_natCast (by decide) (by omega)
    | negSucc n => exact length_decimal_negSucc (by decide) (by omega)
  exact List.take_of_length_le hlength

theorem toInt_elevel (v : UInt8) : v.toUInt32.toInt32.toInt = v.toNat := by
  have hbits : v.toUInt32.toInt32.toInt = v.toUInt32.toBitVec.toInt := rfl
  have hnat : v.toUInt32.toBitVec.toNat = v.toNat := UInt8.toNat_toUInt32 v
  have hlt := v.toNat_lt
  rw [hbits, BitVec.toInt_eq_toNat_cond, hnat, if_pos (by omega)]

/-- Neither the sum nor the product overflows, when the result fits. -/
theorem toInt_unixNanos {ev : PschEvent} {ns : ℤ} (h : unixNanos ev = some ns) :
    ((ev.fixed.tsStart + kPostgresEpochOffsetUs) * 1000).toInt = ns := by
  have hoffset : kPostgresEpochOffsetUs.toInt = 946684800000000 := by decide
  have hthousand : (1000 : Int64).toInt = 1000 := by decide
  simp only [unixNanos] at h
  split at h
  · next hfits =>
    obtain rfl := Option.some.inj h
    rw [Int64.toInt_mul, Int64.toInt_add, hoffset, hthousand,
      Int.bmod_eq_of_le (n := ev.fixed.tsStart.toInt + _), Int.bmod_eq_of_le]
    all_goals omega
  · cases h

/-- Each column has the values of the field that the schema names at its place. -/
theorem matches_value (attrs : ExtraAttrs) (version : List UInt8) (ev : PschEvent) :
    Matches (List.zipWith (fun field x => (field.1, some (x.value attrs version ev))) Arrow.schema
      Builder.finished) (expectedFields attrs version ev) := by
  unfold Matches expectedFields Arrow.schema Builder.finished
  simp only [List.zipWith_cons_cons, List.zipWith_nil_left, List.forall₂_cons]
  refine ⟨⟨trivial, _, rfl, ?_⟩, ?_⟩
  · intro d hd
    obtain ⟨ns, hns, rfl⟩ := Option.map_eq_some_iff.mp hd
    exact congrArg Datum.number (toInt_unixNanos hns)
  · simp only [Option.some.injEq, exists_eq_left', forall_eq', true_and, Builder.value,
      Value.datum, snprintf_queryid, snprintf_pid, toInt_elevel, toNat_clampSignedToUint64,
      toNat_clampSignedToUint32, clampFieldLen_eq_min, Int32.toInt_toInt64, Int16.toInt_toInt32,
      List.forall₂_nil_left_iff]

/-! ## The block -/

/-- The block has a row for each of the events: the columns of the schema, each with a value for
every row and dictionaries with no other values, and under the names of row `i` what event `i`
says. -/
structure Block.Holds (extraAttrs serviceVersion : Option (List UInt8)) (rows : List PschEvent)
    (b : Block) : Prop where
  schema : b.schema = Arrow.schema
  numRows : b.numRows = rows.length
  columns : b.columns.length = b.schema.length
  rectangular : ∀ column ∈ b.columns, column.length = b.numRows
  tight : ∀ column ∈ b.columns, column.Tight
  fields : ∀ i ev, rows[i]? = some ev → Matches (b.record i)
    (expectedFields (parseExtraAttributes extraAttrs) (serviceVersion.getD []) ev)

theorem ArrowImpl.blockOf_holds (extraAttrs serviceVersion : Option (List UInt8))
    (rows : List PschEvent) :
    (blockOf extraAttrs serviceVersion rows).Holds extraAttrs serviceVersion rows := by
  rw [blockOf_eq]
  refine ⟨rfl, rfl, rfl, ?_, ?_, fun i ev hev => ?_⟩
  · intro column hcolumn
    obtain ⟨x, -, rfl⟩ := List.mem_map.mp hcolumn
    rw [← Values.length_toList, toList_builtValues, List.length_map]
  · intro column hcolumn
    obtain ⟨x, -, rfl⟩ := List.mem_map.mp hcolumn
    exact tight_builtValues x
  · have hrecord : Block.record ⟨Arrow.schema, rows.length,
        Builder.finished.map (builtValues extraAttrs serviceVersion rows)⟩ i =
        List.zipWith (fun field x => (field.1, some (x.value (parseExtraAttributes extraAttrs)
          (serviceVersion.getD []) ev))) Arrow.schema Builder.finished := by
      rw [Block.record, List.zipWith_map_right]
      simp only [toList_builtValues, List.getElem?_map, hev, Option.map_some]
    rw [hrecord]
    exact matches_value _ _ ev

end PgStatCh
