import PgStatCh.Lib.Utf8
import PgStatCh.Hooks.CacheLru
import PgStatCh.Hooks.Executor
import PgStatCh.Hooks.Normalize
import PgStatCh.Queue.Ring
import PgStatCh.Export.Exporter

/-!
# Hooks.Truncation — what the cuts do to a text

A query text is cut to 2047 bytes when it is remembered, when it is looked up, and again
in the ring; an error message when `CaptureLogEvent` copies it, and again in the ring. The
exporters then read as many bytes as the event says. All cuts are at the same byte, so the
first decides. It does not look at the bytes: the text that arrives is valid UTF-8 exactly
if it was lost on the way or a character began at byte 2047 (`columns_valid_iff`).

`isspace` is the one of the C locale; in a UTF-8 locale it also has no byte above 127.
-/

namespace PgStatCh

open Lib Tla Prog

/-! ## Copying C strings -/

section Copying

variable {n : ℕ}

/-- `strlcpy`, into a buffer that is not empty; `src` is the text before the NUL. -/
def strlcpy (dst : CharBuf n) (src : List UInt8) : CharBuf n :=
  (dst.write (src.take (n - 1))).terminate (min src.length (n - 1))

/-- `PschTrimTrailing`: the buffer and the new length. -/
def pschTrimTrailing (str : CharBuf n) : ℕ → CharBuf n × ℕ
  | 0 => (str.terminate 0, 0)
  | len + 1 =>
    if isspace (str.byteAt len) then pschTrimTrailing str len
    else (str.terminate (len + 1), len + 1)

/-- `PschCopyTrimmed`: the buffer and the length of the text in it. -/
def pschCopyTrimmed (dst : CharBuf n) (src : Option (List UInt8)) : CharBuf n × ℕ :=
  match src with
  | none => (dst.terminate 0, 0)
  | some src =>
    if n = 0 then (dst, 0)
    else
      let src := src.dropWhile isspace
      pschTrimTrailing (strlcpy dst src) (min src.length (n - 1))

theorem bytes_succ (b : CharBuf n) (len : ℕ) :
    b.bytes (len + 1) = b.bytes len ++ [b.byteAt len] := by
  simp [CharBuf.bytes, List.range_succ]

/-- What is behind the text does not matter for it. -/
theorem bytes_terminate (b : CharBuf n) (len : ℕ) : (b.terminate len).bytes len = b.bytes len := by
  apply List.map_congr_left
  intro i hi
  exact CharBuf.byteAt_terminate_ne (List.mem_range.mp hi).ne

theorem pschTrimTrailing_eq (str : CharBuf n) (len : ℕ) :
    (pschTrimTrailing str len).1.bytes (pschTrimTrailing str len).2 =
        (str.bytes len).rdropWhile isspace ∧
      (pschTrimTrailing str len).2 ≤ len := by
  induction len with
  | zero => exact ⟨rfl, le_rfl⟩
  | succ len ih =>
    rw [pschTrimTrailing, bytes_succ, List.rdropWhile_concat]
    split
    · exact ⟨ih.1, ih.2.trans (Nat.le_succ len)⟩
    · refine ⟨?_, le_rfl⟩
      rw [bytes_terminate, bytes_succ]

/-- The text in the buffer is what fits of the source, without white space around it. -/
theorem pschCopyTrimmed_eq (dst : CharBuf n) (src : List UInt8) (hn : n ≠ 0) :
    (pschCopyTrimmed dst (some src)).1.bytes (pschCopyTrimmed dst (some src)).2 =
        ((src.dropWhile isspace).take (n - 1)).rdropWhile isspace ∧
      (pschCopyTrimmed dst (some src)).2 ≤ n - 1 := by
  simp only [pschCopyTrimmed, if_neg hn]
  have htrim := pschTrimTrailing_eq (strlcpy dst (src.dropWhile isspace))
    (min (src.dropWhile isspace).length (n - 1))
  have hfits : ((src.dropWhile isspace).take (n - 1)).length ≤ n :=
    (List.length_take_le _ _).trans (Nat.sub_le n 1)
  have hcopy := dst.bytes_write_terminate hfits
  rw [List.length_take, min_comm] at hcopy
  rw [strlcpy, hcopy] at htrim
  exact ⟨htrim.1, htrim.2.trans (min_le_right _ _)⟩

theorem isspace_lt {b : UInt8} (h : isspace b = true) : b < 128 := by
  simp only [isspace, Bool.or_eq_true, beq_iff_eq, Bool.and_eq_true, decide_eq_true_eq] at h
  rcases h with rfl | h
  · decide
  · exact UInt8.lt_of_le_of_lt h.2 (by decide)

/-- Trimming around the cut, of a text that was valid before. -/
theorem validUtf8_trimmed_iff {t : List UInt8} (ht : ValidUtf8 t) (k : ℕ) :
    ValidUtf8 (((t.dropWhile isspace).take k).rdropWhile isspace) ↔
      BoundaryAt (t.dropWhile isspace) k := by
  have hspace : ∀ b, isspace b = true → b < 128 := fun b => isspace_lt
  rw [validUtf8_rdropWhile hspace]
  exact validUtf8_take_iff ((validUtf8_dropWhile hspace t).mpr ht) k

end Copying

/-! ## Captured messages -/

/-- The fields of `ErrorData` that `CaptureLogEvent` reads. -/
structure ErrorData where
  sqlerrcode : Int32 := 0
  elevel : Int32 := 21
  message : Option (List UInt8) := none

/-- `PGUNSIXBIT`. -/
def pgUnsixbit (val : Int32) : UInt8 := ((val &&& 0x3F) + 48).toInt8.toUInt8

/-- The loop of `UnpackSqlState`. -/
def sixbits : ℕ → Int32 → List UInt8
  | 0, _ => []
  | left + 1, sqlState => pgUnsixbit sqlState :: sixbits left (sqlState >>> 6)

def unpackSqlState (sqlState : Int32) (buf : CharBuf 6) : CharBuf 6 :=
  (buf.write (sixbits 5 sqlState)).terminate 5

/-- The event that `CaptureLogEvent` builds; `errMessage` and `query` are what the stack had in
the place of the two buffers. -/
def captureLogEvent (client : ClientContext) (now : Int64) (nestingLevel : ℤ)
    (errMessage : CharBuf pschMaxErrMsgLen) (query : CharBuf pschMaxQueryLen) (edata : ErrorData) :
    PschEvent :=
  let base := initBaseEvent client now (nestingLevel = 0) .unknown
  let fixed := copyClientContext client
    { base with
      errSqlstate := unpackSqlState edata.sqlerrcode base.errSqlstate
      errElevel := edata.elevel.toInt8.toUInt8 }
  match edata.message with
  | none => { fixed, errMessage := errMessage.terminate 0, query := query.terminate 0 }
  | some message =>
    let copied := pschCopyTrimmed (errMessage.terminate 0) (some message)
    { fixed, errMessage := copied.1, errMessageLen := UInt16.ofNat copied.2
      query := query.terminate 0 }

theorem captureLogEvent_errText {client : ClientContext} {now : Int64} {nestingLevel : ℤ}
    {errMessage : CharBuf pschMaxErrMsgLen} {query : CharBuf pschMaxQueryLen} {edata : ErrorData}
    {t : List UInt8} (h : edata.message = some t) :
    (captureLogEvent client now nestingLevel errMessage query edata).errText =
      ((t.dropWhile isspace).take 2047).rdropWhile isspace := by
  obtain ⟨hbytes, hle⟩ := pschCopyTrimmed_eq (errMessage.terminate 0) t (by decide)
  have hlen : clampLen (UInt16.ofNat (pschCopyTrimmed (errMessage.terminate 0) (some t)).2)
      pschMaxErrMsgLen = (pschCopyTrimmed (errMessage.terminate 0) (some t)).2 := by
    rw [clampLen, UInt16.toNat_ofNat_of_lt' (hle.trans_lt (by decide))]
    exact min_eq_left hle
  simp only [captureLogEvent, h, PschEvent.errText, hlen]
  exact hbytes

/-! ## Remembered texts -/

section Remembered

open PschNormalizedQueryCache

variable {normalizeCacheMax : ℤ} {m : ℕ} {r : Recall} {c c' : PschNormalizedQueryCache}
  {queryId : UInt64} {dst : CharBuf pschMaxQueryLen} {found : CharBuf pschMaxQueryLen × UInt16}

/-- A hit was a hit of an id that is on the list. -/
theorem lookup_found {n : ℕ} {dst : CharBuf n} {found : CharBuf n × UInt16}
    (h : Refines normalizeCacheMax m r c) (hfound : lookup queryId dst c = .ok (some found) c') :
    queryId ≠ 0 ∧ queryId ∈ c.lru := by
  refine ⟨?_, ?_⟩
  · intro hid
    have hnone : wp (lookup queryId dst) (fun out _ => out = none) (fun _ _ => False) c := by
      unfold lookup
      simp only [wp_bind, wp_get]
      rw [if_pos (Or.inr (Or.inr hid))]
      exact rfl
    cases wp_of_ok hfound hnone
  · by_contra hmem
    rw [lookup_absent dst h.holds hmem] at hfound
    cases hfound

/-- The event of a statement has what the cut leaves of the text last remembered. -/
theorem copyQueryText_queryText (h : Refines normalizeCacheMax m r c)
    (hfound : lookup queryId dst c = .ok (some found) c') (f : FixedPrefix) :
    (copyQueryText (some found) f).queryText =
      (r.texts queryId).text.take (min (r.texts queryId).len 2047) := by
  obtain ⟨hid, hmem⟩ := lookup_found h hfound
  rw [lookup_present dst h.holds hid (by decide) hmem rfl] at hfound
  cases hfound
  obtain ⟨hbytes, -, hlen⟩ := (r.texts queryId).copied dst
  have hclamp : ∀ len : UInt16,
      len.toNat = min (r.texts queryId).len (min 2047 (pschMaxQueryLen - 1)) →
      clampLen len pschMaxQueryLen = min (r.texts queryId).len 2047 := by
    intro len hlen
    rw [clampLen, hlen, pschMaxQueryLen]
    omega
  simp only [copyQueryText, PschEvent.queryText]
  rw [hclamp _ hlen]
  exact hbytes

end Remembered

/-! ## The columns -/

/-- The string that goes to `query_text`. -/
def PschEvent.queryTextColumn (ev : PschEvent) : List UInt8 :=
  ev.query.bytes (clampFieldLen ev.queryLen.toNat pschMaxQueryLen)

/-- The string that goes to `err_message`. -/
def PschEvent.errMessageColumn (ev : PschEvent) : List UInt8 :=
  ev.errMessage.bytes (clampFieldLen ev.errMessageLen.toNat pschMaxErrMsgLen)

/-- A text that is not lost is read as it was, one that is lost as nothing. -/
theorem bytes_of_textOut {n max : ℕ} {text : List UInt8} {lost : Prop} [Decidable lost]
    {len : UInt16} {buf : CharBuf n} (h : TextOut text lost len buf) (hlen : text.length ≤ max) :
    buf.bytes (clampFieldLen len.toNat max) = if lost then [] else text := by
  split
  · next hlost =>
    have hnothing : clampFieldLen len.toNat max = 0 := by
      rw [h.empty hlost]
      exact if_pos (Nat.zero_le max)
    rw [hnothing, CharBuf.bytes_zero]
  · next hkept =>
    obtain ⟨hout, hbytes⟩ := h.whole hkept
    rw [hout, clampFieldLen, if_pos hlen]
    exact hbytes

theorem validUtf8_column_iff {text : List UInt8} {lost : Prop} [Decidable lost] :
    ValidUtf8 (if lost then [] else text) ↔ lost ∨ ValidUtf8 text := by
  split
  · next hlost => exact iff_of_true validUtf8_nil (Or.inl hlost)
  · next hkept => simp [hkept]

/-! ## From end to end -/

section Ends

open PschNormalizedQueryCache

/-- An event of a statement whose text was found: `t` is the text last remembered of its id,
among any calls of the cache. -/
inductive Remembered (t : List UInt8) : PschEvent → Prop where
  | found {normalizeCacheMax maxEntries : ℤ} {m : ℕ} {calls : List CacheCall}
      {c c' : PschNormalizedQueryCache} {queryId : UInt64} {dst : CharBuf pschMaxQueryLen}
      {query : CharBuf pschMaxQueryLen × UInt16} (f : FixedPrefix) (hm : 1 ≤ m)
      (hmax : (if 0 < maxEntries then maxEntries else normalizeCacheMax) = m)
      (hrun : execAll normalizeCacheMax calls { maxEntries } = .ok () c)
      (htext : (calls.foldl (Recall.step m) {}).texts queryId = ⟨t, t.length, le_rfl⟩)
      (hfound : lookup queryId dst c = .ok (some query) c') :
      Remembered t (copyQueryText (some query) f)

/-- An event of a log message with this text. -/
inductive Captured (t : List UInt8) : PschEvent → Prop where
  | message (client : ClientContext) (now : Int64) (nestingLevel : ℤ)
      (errMessage : CharBuf pschMaxErrMsgLen) (query : CharBuf pschMaxQueryLen)
      {edata : ErrorData} (h : edata.message = some t) :
      Captured t (captureLogEvent client now nestingLevel errMessage query edata)

/-- An event that was put into the ring, and what came out for it. -/
def Passed (cfg : Config) (pub : Published) (out : PschEvent) : Prop :=
  ∃ s, (Queue.machine cfg).toSpec.Reachable s ∧
    ∃ i : ℕ, s.shmem.published[i]? = some pub ∧ s.shmem.returned[i]? = some out

variable {cfg : Config} {pub : Published} {out e : PschEvent} {t : List UInt8}

theorem Remembered.queryText (h : Remembered t e) : e.queryText = t.take 2047 := by
  cases h with
  | found f hm hmax hrun htext hfound =>
    have hrefines := wp_of_ok hrun (wp_execAll (refines_init hmax) hm _)
    rw [copyQueryText_queryText hrefines hfound, htext, min_comm]
    exact List.take_eq_take_min.symm

theorem Captured.errText (h : Captured t e) :
    e.errText = ((t.dropWhile isspace).take 2047).rdropWhile isspace := by
  cases h with
  | message client now nestingLevel errMessage query h => exact captureLogEvent_errText h

theorem Passed.roundTrip (h : Passed cfg pub out) : RoundTrip cfg.hash pub out := by
  obtain ⟨s, hs, i, hpub, hout⟩ := h
  exact Queue.roundTrip_of_getElem? hs hpub hout

theorem Passed.queryTextColumn (h : Passed cfg pub out) :
    out.queryTextColumn = if pub.QueryLost then [] else pub.event.queryText := by
  refine bytes_of_textOut h.roundTrip.query ?_
  rw [PschEvent.queryText_length]
  exact (clampLen_lt (by decide)).le

theorem Passed.errMessageColumn (h : Passed cfg pub out) :
    out.errMessageColumn = if pub.ErrLost then [] else pub.event.errText := by
  refine bytes_of_textOut h.roundTrip.err ?_
  rw [PschEvent.errText_length]
  exact (clampLen_lt (by decide)).le

theorem queryTextColumn_valid_iff (h : Passed cfg pub out) (ht : ValidUtf8 t)
    (hremembered : Remembered t pub.event) :
    ValidUtf8 out.queryTextColumn ↔ pub.QueryLost ∨ BoundaryAt t 2047 := by
  rw [h.queryTextColumn, validUtf8_column_iff, hremembered.queryText, validUtf8_take_iff ht]

theorem errMessageColumn_valid_iff (h : Passed cfg pub out) (ht : ValidUtf8 t)
    (hcaptured : Captured t pub.event) :
    ValidUtf8 out.errMessageColumn ↔
      pub.ErrLost ∨ BoundaryAt (t.dropWhile isspace) 2047 := by
  rw [h.errMessageColumn, validUtf8_column_iff, hcaptured.errText, validUtf8_trimmed_iff ht]

/-! ## Samples -/

/-- What a lookup finds of a text that was remembered. -/
def lookedUp (t : List UInt8) : CharBuf pschMaxQueryLen × UInt16 :=
  let size := min (clampCachedQueryLen t.length) (pschMaxQueryLen - 1)
  (((CharBuf.zero _).write ((t.take (clampCachedQueryLen t.length)).take size)).terminate size,
    UInt16.ofNat size)

/-- The event of a statement with this text. -/
def statementEvent (t : List UInt8) : PschEvent := copyQueryText (some (lookedUp t)) {}

/-- The event of a message with this text. -/
def messageEvent (t : List UInt8) : PschEvent :=
  captureLogEvent {} 0 0 (.zero _) (.zero _) { message := some t }

theorem remembered_statementEvent (t : List UInt8) : Remembered t (statementEvent t) := by
  have hmax : (if (0 : ℤ) < 0 then 0 else 64) = ((64 : ℕ) : ℤ) := rfl
  have hone : 1 ≤ 64 := by decide
  have hwp := wp_execAll (refines_init hmax) hone [.remember 1 ⟨t, t.length, le_rfl⟩]
  obtain ⟨⟨⟩, c, hrun⟩ := exists_ok hwp
  have h := wp_of_ok hrun hwp
  have hhits : (([.remember 1 ⟨t, t.length, le_rfl⟩] : List CacheCall).foldl
      (Recall.step 64) {}).Hits 64 1 := by
    refine ⟨List.mem_cons_self, ?_⟩
    change (since [1] 1).card < 64
    decide
  exact .found {} hone hmax hrun rfl
    (lookup_present (.zero _) h.holds (by decide) (by decide) (h.mem_lru_iff.mpr hhits) rfl)

theorem captured_messageEvent (t : List UInt8) : Captured t (messageEvent t) :=
  .message {} 0 0 (.zero _) (.zero _) rfl

/-- A queue that an event went through. -/
def through (e : PschEvent) : Queue sampleConfig :=
  (Queue.machine sampleConfig).run Queue.sample (Queue.enqueueOne proc₀ 8 e ++ Queue.dequeueOne)

/-- The event goes through, its allocations are answered and no other text is in its way. -/
def PassesUnharmed (e : PschEvent) : Prop :=
  ∃ pub out, Passed sampleConfig pub out ∧ pub.event = e ∧ pub.errBlock ≠ none ∧
    ∀ text, ¬ LostBy text pub.met

/-- What is met for the first text of all. -/
def metFirst : List Met := [.lookup none, .alloc (some 8), .enter none false]

theorem not_lostBy_metFirst {met : List Met} (h : met ⊆ metFirst) (text : List UInt8) :
    ¬ LostBy text met := by
  rintro ⟨x, hx, hloses⟩
  have hmem := h hx
  simp only [metFirst, List.mem_cons, List.not_mem_nil, or_false] at hmem
  rcases hmem with rfl | rfl | rfl
  · exact hloses
  · cases hloses
  · simp [Met.Loses, Collides] at hloses

theorem passesUnharmed_of_through {met : List Met} (hmet : met ⊆ metFirst)
    (hpub : (through e).shmem.published.map (fun pub => (pub.event, pub.errBlock, pub.met)) =
      [(e, some 8, met)])
    (hout : (through e).shmem.returned.length = 1) : PassesUnharmed e := by
  obtain ⟨pub, hlist, heq⟩ := List.map_eq_singleton_iff.mp hpub
  obtain ⟨out, hreturned⟩ := List.length_eq_one_iff.mp hout
  simp only [Prod.mk.injEq] at heq
  obtain ⟨rfl, hblock, rfl⟩ := heq
  refine ⟨pub, out, ⟨through pub.event, ?_, 0, ?_, ?_⟩, rfl, by simp [hblock],
    not_lostBy_metFirst hmet⟩
  · exact (Queue.machine sampleConfig).run_reachable _ (.init Queue.sample_init) _
  · rw [hlist]
    rfl
  · rw [hreturned]
    rfl

/-- `TABLE t --aaa…aéb`, with so many `a`. -/
def commented (n : ℕ) : List UInt8 := ascii "TABLE t --" ++ List.replicate n 97 ++ [0xC3, 0xA9, 98]

theorem commented_valid (n : ℕ) : ValidUtf8 (commented n) := by
  refine ValidUtf8.append (ValidUtf8.append ?_ ?_) ?_
  · decide
  · apply validUtf8_of_forall_lt
    intro b hb
    rw [List.eq_of_mem_replicate hb]
    decide
  · decide

theorem statementEvent_short : PassesUnharmed (statementEvent (commented 2)) :=
  passesUnharmed_of_through (List.Subset.refl metFirst) rfl (by decide +kernel)

theorem messageEvent_short : PassesUnharmed (messageEvent (commented 2)) :=
  passesUnharmed_of_through (List.nil_subset metFirst) rfl (by decide +kernel)

set_option maxRecDepth 20000 in
theorem statementEvent_long : PassesUnharmed (statementEvent (commented 2036)) :=
  passesUnharmed_of_through (List.Subset.refl metFirst) rfl (by decide +kernel)

set_option maxRecDepth 20000 in
theorem messageEvent_long : PassesUnharmed (messageEvent (commented 2036)) :=
  passesUnharmed_of_through (List.nil_subset metFirst) rfl (by decide +kernel)

theorem not_queryLost (h : ∀ text, ¬ LostBy text pub.met) (he : pub.event = e)
    (hlen : e.queryLen ≠ 0) : ¬ pub.QueryLost :=
  not_or.mpr ⟨he ▸ hlen, h _⟩

theorem not_errLost (h : pub.errBlock ≠ none) (he : pub.event = e) (hlen : e.errMessageLen ≠ 0) :
    ¬ pub.ErrLost :=
  not_or.mpr ⟨he ▸ hlen, h⟩

/-! ## Result -/

/-- Cutting a valid text leaves a valid one exactly where it is cut in front of a character. A
query text is cut at byte 2047, and an error message at byte 2047 behind its leading
white space; what is lost on the way arrives empty. -/
theorem columns_valid_iff (h : Passed cfg pub out) (ht : ValidUtf8 t) :
    (Remembered t pub.event →
      (ValidUtf8 out.queryTextColumn ↔ pub.QueryLost ∨ BoundaryAt t 2047)) ∧
    (Captured t pub.event →
      (ValidUtf8 out.errMessageColumn ↔
        pub.ErrLost ∨ BoundaryAt (t.dropWhile isspace) 2047)) :=
  ⟨queryTextColumn_valid_iff h ht, errMessageColumn_valid_iff h ht⟩

/-- A text that fits arrives whole. -/
theorem columns_valid_iff_short :
    (∃ pub out, Passed sampleConfig pub out ∧ Remembered (commented 2) pub.event ∧
      ¬ pub.QueryLost ∧ ValidUtf8 out.queryTextColumn) ∧
    (∃ pub out, Passed sampleConfig pub out ∧ Captured (commented 2) pub.event ∧
      ¬ pub.ErrLost ∧ ValidUtf8 out.errMessageColumn) := by
  refine ⟨?_, ?_⟩
  · obtain ⟨pub, out, hpassed, he, -, hmet⟩ := statementEvent_short
    have hremembered : Remembered (commented 2) pub.event := he ▸ remembered_statementEvent _
    refine ⟨pub, out, hpassed, hremembered, not_queryLost hmet he (by decide +kernel), ?_⟩
    exact ((columns_valid_iff hpassed (commented_valid 2)).1 hremembered).mpr
      (Or.inr (boundaryAt_of_length_le (by decide)))
  · obtain ⟨pub, out, hpassed, he, hblock, -⟩ := messageEvent_short
    have hcaptured : Captured (commented 2) pub.event := he ▸ captured_messageEvent _
    refine ⟨pub, out, hpassed, hcaptured, not_errLost hblock he (by decide +kernel), ?_⟩
    exact ((columns_valid_iff hpassed (commented_valid 2)).2 hcaptured).mpr
      (Or.inr (boundaryAt_of_length_le (by decide)))

/-- The two bytes of the `é` are on both sides of the cut. -/
theorem commented_not_boundaryAt : ¬ BoundaryAt (commented 2036) 2047 := by
  intro h
  have hbyte : (commented 2036)[2047]? = some 0xA9 := by decide +kernel
  exact absurd (h _ hbyte) (by decide)

/-- A statement without constants, and a message, of 2049 bytes, all of them valid UTF-8. Both
arrive with half a character at the end. -/
theorem columns_broken :
    ValidUtf8 (commented 2036) ∧
    pschCopyTrimmedStatement (commented 2036) 2049 = some (commented 2036) ∧
    (∃ pub out, Passed sampleConfig pub out ∧ Remembered (commented 2036) pub.event ∧
      ¬ ValidUtf8 out.queryTextColumn) ∧
    (∃ pub out, Passed sampleConfig pub out ∧ Captured (commented 2036) pub.event ∧
      ¬ ValidUtf8 out.errMessageColumn) := by
  have hvalid := commented_valid 2036
  refine ⟨hvalid, by decide +kernel, ?_, ?_⟩
  · obtain ⟨pub, out, hpassed, he, -, hmet⟩ := statementEvent_long
    have hremembered : Remembered (commented 2036) pub.event := he ▸ remembered_statementEvent _
    refine ⟨pub, out, hpassed, hremembered, ?_⟩
    rw [queryTextColumn_valid_iff hpassed hvalid hremembered, not_or]
    exact ⟨not_queryLost hmet he (by decide +kernel), commented_not_boundaryAt⟩
  · obtain ⟨pub, out, hpassed, he, hblock, -⟩ := messageEvent_long
    have hcaptured : Captured (commented 2036) pub.event := he ▸ captured_messageEvent _
    refine ⟨pub, out, hpassed, hcaptured, ?_⟩
    rw [errMessageColumn_valid_iff hpassed hvalid hcaptured, not_or]
    have hfront : (commented 2036).dropWhile isspace = commented 2036 := by decide +kernel
    rw [hfront]
    exact ⟨not_errLost hblock he (by decide +kernel), commented_not_boundaryAt⟩

end Ends

end PgStatCh
