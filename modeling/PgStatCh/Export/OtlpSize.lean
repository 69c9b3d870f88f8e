import Mathlib.Algebra.Group.Action.Defs
import Mathlib.Algebra.Order.BigOperators.Group.List
import PgStatCh.Export.OtlpChunks

/-!
# Export.OtlpSize — the estimate of a request's size

`chunk_bytes_` is an estimate of what the request takes in the wire format. It is on the safe
side: an attribute takes less than the 24 bytes beyond its key and value, a record less than the
128 beyond its attributes. What is left of those makes up for the length prefixes of the messages
around the records, which grow with the request.
-/

namespace PgStatCh

open Lib Wire Prog StatsExporter

namespace Otlp

/-! ## Attributes -/

theorem length_delimited_short {field : ℕ} {payload : List UInt8} (hfield : field < 16)
    (hlen : payload.length < 128) :
    (delimitedField field payload).length = payload.length + 2 := by
  rw [length_delimitedField hfield, length_varint_of_lt hlen]
  omega

theorem length_delimited_le {field : ℕ} {payload : List UInt8} (hfield : field < 16)
    (hlen : payload.length < 2 ^ 21) :
    (delimitedField field payload).length ≤ payload.length + 4 := by
  have hprefix : (varint payload.length).length ≤ 2 + 1 := length_varint_le hlen
  rw [length_delimitedField hfield]
  omega

/-- An attribute takes its key, its value and ten bytes. -/
theorem length_attribute_le {field : ℕ} {key : String} {value : AnyValue} (hfield : field < 16)
    (hkey : key.utf8ByteSize < 128) (hvalue : value.encode.length < 2 ^ 20) :
    (delimitedField field (KeyValue.encode ⟨key, value⟩)).length ≤
      key.utf8ByteSize + value.encode.length + 10 := by
  have hname : (delimitedField 1 (utf8 key)).length = key.utf8ByteSize + 2 :=
    length_delimited_short (by decide) hkey
  have hval : (delimitedField 2 value.encode).length ≤ value.encode.length + 4 :=
    length_delimited_le (by decide) (Nat.lt_trans hvalue (by decide))
  have hdefault := length_unlessDefault_le (key == "") (delimitedField 1 (utf8 key))
  have hkv : (KeyValue.encode ⟨key, value⟩).length ≤
      key.utf8ByteSize + value.encode.length + 6 := by
    simp only [KeyValue.encode, List.length_append]
    omega
  have hattr : (delimitedField field (KeyValue.encode ⟨key, value⟩)).length ≤
      (KeyValue.encode ⟨key, value⟩).length + 4 :=
    length_delimited_le hfield (by omega)
  omega

theorem length_setString_le {field : ℕ} (hfield : field < 16) (key : String)
    (val : List UInt8) (hkey : key.utf8ByteSize < 128) (hval : val.length < 2 ^ 16) :
    (delimitedField field (setString key val).encode).length ≤
      key.utf8ByteSize + val.length + 14 := by
  have hvalue : (AnyValue.string val).encode.length ≤ val.length + 4 :=
    length_delimited_le (by decide) (Nat.lt_trans hval (by decide))
  have hattr : (delimitedField field (setString key val).encode).length ≤ _ :=
    length_attribute_le hfield hkey (Nat.lt_of_le_of_lt hvalue (by omega))
  omega

/-- A number takes up to ten bytes, when it is negative. -/
theorem length_setInt_le {field : ℕ} {key : String} (hfield : field < 16)
    (hkey : key.utf8ByteSize < 128) (val : Int64) :
    (delimitedField field (setInt key val).encode).length ≤ key.utf8ByteSize + 21 := by
  have hvarint := length_varint_uint64 val.toUInt64
  have hvalue : (AnyValue.int val).encode.length = 1 + (varint val.toUInt64.toNat).length :=
    length_varintField (by decide) _
  have hattr : (delimitedField field (setInt key val).encode).length ≤ _ :=
    length_attribute_le hfield hkey (by omega)
  omega

theorem length_setDouble_le {field : ℕ} {key : String} (hfield : field < 16)
    (hkey : key.utf8ByteSize < 128) (val : Float) :
    (delimitedField field (setDouble key val).encode).length ≤ key.utf8ByteSize + 19 := by
  have hvalue : (AnyValue.double val).encode.length = 9 := length_fixed64Field (by decide) _
  have hattr : (delimitedField field (setDouble key val).encode).length ≤ _ :=
    length_attribute_le hfield hkey (by omega)
  omega

/-! ## Records -/

theorem length_encode_addAttr (r : LogRecord) (kv : KeyValue) :
    (r.addAttr kv).encode.length = r.encode.length + (delimitedField 6 kv.encode).length := by
  simp only [LogRecord.encode, LogRecord.addAttr, List.flatMap_append, List.flatMap_singleton,
    List.length_append, Nat.add_assoc]

/-- The time of a record takes nine bytes. -/
theorem length_encode_setTime (r : LogRecord) (t : UInt64) :
    ({ r with timeUnixNano := t } : LogRecord).encode.length ≤ r.encode.length + 9 := by
  have htime := length_unlessDefault_le (t == 0) (fixed64Field 1 t)
  rw [length_fixed64Field (by decide)] at htime
  simp only [LogRecord.encode, List.length_append]
  omega

/-- The name that the attribute of a column gets. -/
def Column.key : Column → String
  | .intColumn name => name
  | .svColumn name => name
  | .strColumn name => name
  | .dateTimeCol name => name
  | .durationCol => "duration_us"

/-- An append does not add more to the record than to the estimate. -/
theorem length_encode_write_le {c : Column} {v : Cell} (hkey : c.key.utf8ByteSize < 128)
    (hval : (toBytes v).length < 2 ^ 16) (r : LogRecord) :
    (c.write v r).encode.length ≤ r.encode.length + c.estimate v := by
  have hsix : 6 < 16 := by decide
  cases c with
  | intColumn name =>
    have hname : name.utf8ByteSize < 128 := hkey
    have hint := length_setInt_le hsix hname (toInt64 v)
    simp only [Column.write, Column.estimate, estimateScalarAttrBytes, kAttrOverheadBytes]
    split
    · exact Nat.le_refl _
    · rw [length_encode_addAttr]
      omega
  | svColumn name =>
    have hname : name.utf8ByteSize < 128 := hkey
    have hstring := length_setString_le hsix name _ hname hval
    simp only [Column.write, Column.estimate, estimateStringAttrBytes, kAttrOverheadBytes]
    rw [length_encode_addAttr]
    omega
  | strColumn name =>
    have hname : name.utf8ByteSize < 128 := hkey
    have hstring := length_setString_le hsix name _ hname hval
    simp only [Column.write, Column.estimate, estimateStringAttrBytes, kAttrOverheadBytes]
    rw [length_encode_addAttr]
    omega
  | dateTimeCol name =>
    have hname : name.utf8ByteSize < 128 := hkey
    have hint := length_setInt_le hsix hname (toInt64 v)
    have htime := length_encode_setTime r ((toInt64 v).toUInt64 * 1000)
    simp only [Column.write, Column.estimate, estimateScalarAttrBytes, kAttrOverheadBytes]
    rw [length_encode_addAttr]
    omega
  | durationCol =>
    have hname : "duration_us".utf8ByteSize < 128 := hkey
    have hname' : "db.client.operation.duration".utf8ByteSize < 128 := by decide
    have hint := length_setInt_le hsix hname (toInt64 v)
    have hdouble := length_setDouble_le hsix hname' ((toInt64 v).toUInt64.toFloat / 1e6)
    simp only [Column.write, Column.estimate, estimateScalarAttrBytes, kAttrOverheadBytes]
    rw [length_encode_addAttr, length_encode_addAttr]
    omega

theorem Column.estimate_le {c : Column} {v : Cell} (hkey : c.key.utf8ByteSize < 128)
    (hval : (toBytes v).length < 2 ^ 16) : c.estimate v ≤ 2 ^ 17 := by
  cases c with
  | intColumn name =>
    have hname : name.utf8ByteSize < 128 := hkey
    simp only [Column.estimate, estimateScalarAttrBytes, kAttrOverheadBytes]
    split <;> omega
  | svColumn name =>
    have hname : name.utf8ByteSize < 128 := hkey
    simp only [Column.estimate, estimateStringAttrBytes, kAttrOverheadBytes]
    omega
  | strColumn name =>
    have hname : name.utf8ByteSize < 128 := hkey
    simp only [Column.estimate, estimateStringAttrBytes, kAttrOverheadBytes]
    omega
  | dateTimeCol name =>
    have hname : name.utf8ByteSize < 128 := hkey
    simp only [Column.estimate, estimateScalarAttrBytes, kAttrOverheadBytes]
    omega
  | durationCol =>
    change estimateScalarAttrBytes "db.client.operation.duration" +
      estimateScalarAttrBytes "duration_us" ≤ 2 ^ 17
    decide

end Otlp

namespace OtlpExporter

open Otlp

theorem clampFieldLen_le (len max : ℕ) : clampFieldLen len max ≤ max := by
  unfold clampFieldLen
  split
  · assumption
  · exact Nat.le_refl _

theorem strnlen_le {n : ℕ} (b : CharBuf n) (max : ℕ) : strnlen b max ≤ max := by
  have hle := (List.takeWhile_prefix (p := fun i => b.byteAt i != 0) (l := List.range max)).length_le
  rwa [List.length_range] at hle

/-- The texts of an event are short. -/
theorem length_toBytes_cell (ev : PschEvent) (c : Col) : (toBytes (c.cell ev)).length < 2 ^ 16 := by
  have hclamp : ∀ len max, max < 2 ^ 16 → clampFieldLen len max < 2 ^ 16 := fun len max =>
    Nat.lt_of_le_of_lt (clampFieldLen_le len max)
  cases c <;>
    simp only [Col.cell, toBytes, List.length_nil, CharBuf.bytes_length, length_utf8, Nat.two_pow_pos]
  case dbName => exact Nat.lt_trans ev.fixed.datnameLen.toNat_lt (by decide)
  case dbUser => exact Nat.lt_trans ev.fixed.usernameLen.toNat_lt (by decide)
  case dbOperation => cases ev.fixed.cmdType <;> decide
  case queryText => exact hclamp _ _ (by decide)
  case errSqlstate => exact Nat.lt_of_le_of_lt (strnlen_le _ _) (by decide)
  case errMessage => exact hclamp _ _ (by decide)
  case app => exact hclamp _ _ (by decide)
  case clientAddr => exact hclamp _ _ (by decide)

theorem key_makeColumn (c : Col) : (makeColumn c.factory).key.utf8ByteSize < 128 := by
  cases c <;> decide

theorem length_encode_logRecordUpTo_le (ev : PschEvent) (cs : List Col) :
    (logRecordUpTo ev cs).encode.length ≤ estimateUpTo ev cs := by
  induction cs using List.reverseRecOn with
  | nil => exact Nat.le_refl 0
  | append_singleton cs c ih =>
    have hwrite := length_encode_write_le (key_makeColumn c) (length_toBytes_cell ev c)
      (logRecordUpTo ev cs)
    simp only [logRecordUpTo, List.foldl_append, List.foldl_cons, List.foldl_nil, estimateUpTo,
      List.map_append, List.map_singleton, List.sum_append, List.sum_singleton] at hwrite ih ⊢
    omega

/-- The record of an event, or a part of it, takes less than eight megabytes. -/
theorem estimateUpTo_lt (ev : PschEvent) {cs : List Col} (h : cs <+: Col.appended) :
    estimateUpTo ev cs < 2 ^ 23 := by
  have hlength : cs.length ≤ 43 := h.length_le
  have hsum : estimateUpTo ev cs ≤ cs.length * 2 ^ 17 := by
    rw [← smul_eq_mul, ← List.length_map fun c => (makeColumn c.factory).estimate (c.cell ev)]
    refine List.sum_le_card_nsmul _ _ fun x hx => ?_
    obtain ⟨c, -, rfl⟩ := List.mem_map.mp hx
    exact Column.estimate_le (key_makeColumn c) (length_toBytes_cell ev c)
  omega

/-! ## Requests -/

/-- The fields of the records together, with `123` bytes to spare for each. -/
theorem length_records_le {parts : Parts} (h : ∀ p ∈ parts, p.2 <+: Col.appended) :
    (parts.flatMap fun p => delimitedField 2 (logRecordUpTo p.1 p.2).encode).length +
        123 * parts.length ≤
      (parts.map fun p => kLogRecordOverheadBytes + estimateUpTo p.1 p.2).sum ∧
    (parts.map fun p => kLogRecordOverheadBytes + estimateUpTo p.1 p.2).sum ≤
      2 ^ 24 * parts.length := by
  induction parts with
  | nil => exact ⟨Nat.le_refl 0, Nat.le_refl 0⟩
  | cons p parts ih =>
    obtain ⟨hfields, hbound⟩ := ih fun q hq => h q (List.mem_cons_of_mem p hq)
    have hrecord := length_encode_logRecordUpTo_le p.1 p.2
    have hestimate := estimateUpTo_lt p.1 (h p List.mem_cons_self)
    have hprefix : (varint (logRecordUpTo p.1 p.2).encode.length).length ≤ 3 + 1 :=
      length_varint_le (by omega)
    have hfield := length_delimitedField (by decide : 2 < 16) (logRecordUpTo p.1 p.2).encode
    simp only [List.flatMap_cons, List.length_append, List.map_cons, List.sum_cons,
      List.length_cons, kLogRecordOverheadBytes] at hfields hbound ⊢
    omega

variable {o : OtlpExporter}

theorem length_resource_le (hversion : o.version.length ≤ 64) (hhostname : o.hostname.length ≤ 255)
    (parts : Parts) : (requestOf o parts).encodeResource.length ≤ 407 := by
  have hone : 1 < 16 := by decide
  have hservice := length_setString_le hone "service.name" (utf8 "pg_stat_ch") (by decide)
    (by decide)
  have hserviceVersion := length_setString_le hone "service.version" o.version (by decide)
    (by omega)
  have hhost := length_setString_le hone "host.name" o.hostname (by decide) (by omega)
  simp only [Request.encodeResource, requestOf, newRequest, populateResource, List.flatMap_cons,
    List.flatMap_nil, List.length_append, List.length_nil]
  have hkeys : "service.name".utf8ByteSize + "service.version".utf8ByteSize +
    "host.name".utf8ByteSize + (utf8 "pg_stat_ch").length = 46 := by decide
  omega

theorem length_scope_le (hversion : o.version.length ≤ 64) (parts : Parts) :
    (requestOf o parts).encodeScope.length ≤ 78 := by
  have hname : (delimitedField 1 (utf8 "pg_stat_ch")).length = 12 := by
    rw [length_delimited_short (by decide) (by decide)]
    decide
  have hver : (delimitedField 2 o.version).length = o.version.length + 2 :=
    length_delimited_short (by decide) (by omega)
  have hname' := length_unlessDefault_le ("pg_stat_ch" == "") (delimitedField 1 (utf8 "pg_stat_ch"))
  have hver' := length_unlessDefault_le o.version.isEmpty (delimitedField 2 o.version)
  simp only [Request.encodeScope, requestOf, newRequest, List.length_append]
  omega

/-- The request in the wire format is not longer than its estimate. -/
theorem length_encode_requestOf_le (hversion : o.version.length ≤ 64)
    (hhostname : o.hostname.length ≤ 255) {parts : Parts}
    (h : ∀ p ∈ parts, p.2 <+: Col.appended) :
    (requestOf o parts).encode.length ≤ chunkEstimate parts := by
  obtain ⟨hrecords, hbound⟩ := length_records_le h
  have hresource : (delimitedField 1 (requestOf o parts).encodeResource).length ≤ 411 := by
    have hle := length_resource_le hversion hhostname parts
    refine Nat.le_trans (length_delimited_le (by decide) (by omega)) (by omega)
  have hscope : (delimitedField 1 (requestOf o parts).encodeScope).length ≤ 80 := by
    have hle := length_scope_le hversion parts
    rw [length_delimited_short (by decide) (by omega)]
    omega
  have hscopeLogs : (requestOf o parts).encodeScopeLogs.length ≤ 80 +
      (parts.flatMap fun p => delimitedField 2 (logRecordUpTo p.1 p.2).encode).length := by
    rw [Request.encodeScopeLogs, List.length_append, requestOf, List.flatMap_map]
    exact Nat.add_le_add_right hscope _
  -- the two prefixes that grow with the request
  have hprefix := length_varint_le_add (requestOf o parts).encodeScopeLogs.length 4
  have hprefix' := length_varint_le_add (requestOf o parts).encodeResourceLogs.length 4
  have hresourceLogs : (requestOf o parts).encodeResourceLogs.length ≤ 411 + (1 +
      (varint (requestOf o parts).encodeScopeLogs.length).length +
        (requestOf o parts).encodeScopeLogs.length) := by
    rw [Request.encodeResourceLogs, List.length_append, ← length_delimitedField (by decide : 2 < 16)]
    exact Nat.add_le_add_right hresource _
  rw [Request.encode, length_delimitedField (by decide), chunkEstimate, kRequestOverheadBytes]
  omega

/-! ## The batch -/

variable {plan : Plan} {s : ExportState OtlpExporter}

/-- The request at hand takes no more than its estimate, and each of the requests sent takes less
than the limit and the estimate of its last record. -/
structure Conservative (events : List PschEvent) (s s' : ExportState OtlpExporter) : Prop where
  atHand : ∀ m, s'.exporter.message = some m → m.encode.length ≤ s'.exporter.chunkBytes
  sent : ∃ new, s'.exporter.requests = s.exporter.requests ++ new ∧ ∀ m ∈ new, ∃ ev ∈ events,
    m.logRecords.getLast? = some (logRecord ev) ∧
      m.encode.length < s.exporter.maxChunkBytes + (kLogRecordOverheadBytes + appendBytes ev)

theorem AtHand.length_le {s' : ExportState OtlpExporter} (h : AtHand s.exporter s')
    (hversion : s.exporter.version.length ≤ 64) (hhostname : s.exporter.hostname.length ≤ 255)
    {m : Request} (hm : s'.exporter.message = some m) :
    m.encode.length ≤ s'.exporter.chunkBytes := by
  rcases h with hnone | ⟨parts, hbuilt, happended⟩
  · rw [hnone] at hm
    cases hm
  · rw [hbuilt.message] at hm
    obtain rfl := Option.some.inj hm
    rw [hbuilt.bytes]
    exact length_encode_requestOf_le hversion hhostname happended

/-- The requests that a batch makes are below the limit and the estimate of one record. -/
theorem length_encode_chunk_lt {events c : List PschEvent} (hnil : o.rowsFull [] = false)
    (hversion : o.version.length ≤ 64) (hhostname : o.hostname.length ≤ 255)
    (hc : c ∈ o.chunks events) :
    ∃ ev ∈ events, (requestOf o (whole c)).logRecords.getLast? = some (logRecord ev) ∧
      (requestOf o (whole c)).encode.length <
        o.maxChunkBytes + (kLogRecordOverheadBytes + appendBytes ev) := by
  obtain ⟨hne, -, hroom⟩ := mem_chunks hnil hc
  have hmem : c.getLast hne ∈ events := by
    have hflatten : (o.chunks events).flatten = events := flatten_greedy events
    rw [← hflatten]
    exact List.mem_flatten_of_mem hc (List.getLast_mem hne)
  have hsplit := whole_concat c.dropLast (c.getLast hne)
  rw [List.dropLast_append_getLast hne] at hsplit
  refine ⟨c.getLast hne, hmem, ?_, ?_⟩
  · rw [requestOf, hsplit, List.map_append, List.map_singleton, List.getLast?_concat]
    rfl
  · have hencode : (requestOf o (whole c)).encode.length ≤ chunkEstimate (whole c) := by
      refine length_encode_requestOf_le hversion hhostname fun p hp => ?_
      obtain ⟨ev, -, rfl⟩ := List.mem_map.mp hp
      exact List.prefix_refl _
    have hlast : chunkEstimate (whole c) = rowsEstimate c.dropLast +
        (kLogRecordOverheadBytes + appendBytes (c.getLast hne)) := by
      rw [hsplit, chunkEstimate_concat, estimateUpTo_appended]
      rfl
    omega

theorem conservative_of_sent {events : List PschEvent} {s' : ExportState OtlpExporter}
    {pre : List (List PschEvent)} (hnil : s.exporter.rowsFull [] = false)
    (hversion : s.exporter.version.length ≤ 64) (hhostname : s.exporter.hostname.length ≤ 255)
    (hpre : pre <+: s.exporter.chunks events)
    (hrequests : s'.exporter.requests = s.exporter.requests ++
      (s.exporter.handed pre).map fun c => requestOf s.exporter (whole c))
    (hhand : AtHand s.exporter s') : Conservative events s s' := by
  refine ⟨fun m hm => hhand.length_le hversion hhostname hm, _, hrequests, fun m hm => ?_⟩
  obtain ⟨c, hc, rfl⟩ := List.mem_map.mp hm
  have hmem : c ∈ pre := by
    unfold handed at hc
    split at hc
    · exact hc
    · exact absurd hc List.not_mem_nil
  exact length_encode_chunk_lt hnil hversion hhostname (hpre.subset hmem)

/-- Whatever the events hold, and wherever an exception or an ERROR strikes from the first row on: the
request at hand takes at most `chunk_bytes_` bytes in the wire format, and so each request that
was sent is below the limit and the estimate of one record. -/
theorem chunkBytes_conservative (hbegin : plan.Served [.log .buildingRows, .run .beginBatch])
    (hrecords : 1 ≤ s.exporter.maxChunkRecords)
    (hbytes : kMinBytesPerRecord ≤ s.exporter.maxChunkBytes)
    (hversion : s.exporter.version.length ≤ 64) (hhostname : s.exporter.hostname.length ≤ 255)
    (events : List PschEvent) :
    wp (exportAndCommit plan events) (fun _ s' => Conservative events s s')
      (fun _ s' => Conservative events s s') s := by
  have hnil := rowsFull_nil hrecords hbytes
  refine wp_mono (wp_exportAndCommit hnil events hbegin) (fun ret s' h => ?_) ?_
  · cases h with
    | all h _ hhand =>
      exact conservative_of_sent hnil hversion hhostname (List.prefix_refl _) h.requests hhand
    | rejected pre c post heq h =>
      have hrequests := h.requests
      rw [← handed_of_stub h.stub (pre ++ [c])] at hrequests
      refine conservative_of_sent hnil hversion hhostname ⟨post, ?_⟩ hrequests (Or.inl h.message)
      rw [← heq, List.append_assoc, List.singleton_append]
    | broken pre hpre h =>
      exact conservative_of_sent hnil hversion hhostname hpre h.requests h.atHand
  · rintro e s' ⟨pre, hpre, h⟩
    exact conservative_of_sent hnil hversion hhostname hpre h.requests h.atHand

/-- Of the five events two are in a request that is taken, and two in one that is rejected. -/
theorem chunkBytes_conservative_refusing :
    ∃ s', exportAndCommit refusing fiveRows twoAtATime = .ok false s' ∧
      s'.exporter.requests.length = 2 ∧ Conservative fiveRows twoAtATime s' := by
  have hwp := chunkBytes_conservative (s := twoAtATime) (served_begin refusing_noExit) (by decide)
    (by decide) (by decide) (by decide) fiveRows
  obtain ⟨ret, s', hrun, hends⟩ := exists_ends refusing_noExit (s := twoAtATime) (by decide) fiveRows
  obtain ⟨hrequests, -, hret, -⟩ := hends.exact refusing_noExit rfl
  have hone : acceptedChunks refusing twoAtATime fiveRows = 1 := by decide +kernel
  have hthree : (twoAtATime.exporter.chunks fiveRows).length = 3 := by decide +kernel
  rw [hone, hthree] at hret
  obtain rfl : ret = false := hret
  refine ⟨s', hrun, ?_, wp_of_ok (Q := fun _ s' => Conservative fiveRows twoAtATime s') hrun hwp⟩
  rw [hrequests, hone, List.length_append, List.length_map, List.length_take, hthree]
  rfl

end OtlpExporter

end PgStatCh
