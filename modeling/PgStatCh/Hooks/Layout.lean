import PgStatCh.Hooks.Statement
import PgStatCh.Hooks.Constants

/-!
# Hooks.Layout — the normalized text has the layout of its shape

On a statement whose jumbling marks tokens and lists that do not overlap,
`PschNormalizeQuery` never fails and returns the text that `layout` describes
(`normalizeQuery_layout`). The bytes of its pieces are a statement with its tokens
(`Statement.toScanned`), the marks are recorded spans of it (`Jumble.records`), and replacing
these gives the layout, piece by piece (`replaceSpans_layout`).
-/

namespace PgStatCh

open Lib

theorem Shape.lt_length_of_isToken {sh : Shape} {k : ℕ} (h : sh.isToken k = true) :
    k < sh.length := by
  obtain ⟨p, hp, -⟩ := (Option.any_eq_true _ _).mp h
  exact (List.getElem?_eq_some_iff.mp hp).1

namespace Statement

variable {ps : Statement}

/-! ## Scanning -/

theorem shape_length : ps.shape.length = ps.length := List.length_map _

theorem shape_getElem? (k : ℕ) : ps.shape[k]? = ps[k]?.map Piece.shape := List.getElem?_map ..

theorem lt_length_of_isToken {k : ℕ} (h : ps.shape.isToken k = true) : k < ps.length := by
  rw [← shape_length]
  exact Shape.lt_length_of_isToken h

theorem text_getElem?_offset {k : ℕ} (hk : k < ps.length) (after : List UInt8) :
    (ps.text ++ after)[ps.offset k]? = ps[k].bytes.head? := by
  have htext : ps.text = text (ps.take k) ++ (ps[k].bytes ++ text (ps.drop (k + 1))) := by
    rw [← text_cons, ← List.drop_eq_getElem_cons hk, ← text_append, List.take_append_drop]
  have hoff : ps.offset k = (text (ps.take k)).length := rfl
  rw [htext, List.append_assoc, hoff, List.getElem?_append_right (Nat.le_refl _), Nat.sub_self]
  cases hb : ps[k].bytes with
  | nil => exact absurd hb ps[k].nonempty
  | cons b bs => rfl

/-- The loop looks for a minus sign at the first byte of the constant. -/
theorem minus_iff {k : ℕ} (hk : k < ps.length) (after : List UInt8) :
    (ps.text ++ after)[ps.offset k]? = some minusSign ↔ ps.shape.isMinus k = true := by
  rw [text_getElem?_offset hk, Shape.isMinus, shape_getElem?, List.getElem?_eq_getElem hk]
  simp only [Option.map_some, Option.bind_some, beq_iff_eq, Piece.shape]
  split
  · next hlit => simpa using ps[k].unsigned hlit
  · rfl

/-! ## Finding a constant -/

theorem tokensFrom_of_isToken {k : ℕ} (h : ps.shape.isToken k = true) :
    ps.tokensFrom k = ps.tokenAt k :: ps.tokensFrom (k + 1) := by
  have hk := lt_length_of_isToken h
  have hlen : ps.length - k = (ps.length - (k + 1)) + 1 := by omega
  rw [tokensFrom, hlen, List.range'_succ, List.filter_cons_of_pos h]
  rfl

theorem tokensFrom_of_not_isToken {k : ℕ} (h : ¬ ps.shape.isToken k = true) :
    ps.tokensFrom k = ps.tokensFrom (k + 1) := by
  rcases Nat.lt_or_ge k ps.length with hk | hk
  · have hlen : ps.length - k = (ps.length - (k + 1)) + 1 := by omega
    rw [tokensFrom, hlen, List.range'_succ, List.filter_cons_of_neg h]
    rfl
  · have hzero : ps.length - k = 0 := by omega
    have hzero' : ps.length - (k + 1) = 0 := by omega
    rw [tokensFrom, tokensFrom, hzero, hzero']
    rfl

/-- The scanner skips what stands between tokens. -/
theorem tokensFrom_nextToken (k : ℕ) :
    ps.tokensFrom (k + 1) = ps.tokensFrom (ps.shape.nextToken k) := by
  -- one gap after the other
  have hskip : ∀ (n c : ℕ), (∀ i, c ≤ i → i < c + n → ¬ ps.shape.isToken i = true) →
      ps.tokensFrom c = ps.tokensFrom (c + n) := by
    intro n
    induction n with
    | zero => intro c _; rfl
    | succ n ih =>
      intro c hgap
      rw [tokensFrom_of_not_isToken (hgap c (Nat.le_refl c) (by omega)),
        ih (c + 1) fun i hi hlt => hgap i (by omega) (by omega)]
      congr 1
      omega
  refine hskip _ (k + 1) fun i hi hlt => ?_
  intro htoken
  obtain ⟨p, hp, hkind⟩ := (Option.any_eq_true _ _).mp htoken
  obtain ⟨d, rfl⟩ : ∃ d, i = k + 1 + d := ⟨i - (k + 1), by omega⟩
  have hd : d < ((ps.shape.drop (k + 1)).takeWhile fun p => decide (p.1 = .gap)).length := by omega
  have hgap := List.mem_takeWhile_imp (List.getElem_mem hd)
  obtain ⟨_, hget⟩ := List.getElem?_eq_some_iff.mp hp
  rw [(List.takeWhile_prefix _).getElem hd, List.getElem_drop, hget] at hgap
  simp only [decide_eq_true_eq] at hgap hkind
  exact hkind hgap

theorem constantStop_skip {c k : ℕ} (hck : c ≤ k) (hk : ps.shape.isToken k = true)
    (query : List UInt8) :
    constantStop query (ps.offset k) (ps.tokensFrom c) =
      constantStop query (ps.offset k) (ps.tokensFrom k) := by
  induction hck using Nat.decreasingInduction with
  | self => rfl
  | of_succ c hlt ih =>
    rw [← ih]
    by_cases hc : ps.shape.isToken c = true
    · rw [tokensFrom_of_isToken hc, constantStop_of_ne]
      exact (offset_lt hlt (lt_length_of_isToken hk).le).ne
    · rw [tokensFrom_of_not_isToken hc]

/-- The constant at a mark stops where the mark says. -/
theorem constantStop_mark {m : Mark} (hfits : m.Fits ps.shape) (hlist : m.squashed = false)
    (after : List UInt8) :
    constantStop (ps.text ++ after) (ps.offset m.start) ps.tokens =
      some (ps.offset (m.stop ps.shape)) := by
  have htoken := hfits.token hlist
  have hminus := minus_iff (lt_length_of_isToken htoken) after
  have hloc : (ps.tokenAt m.start).loc = ps.offset m.start := rfl
  rw [tokens, constantStop_skip (Nat.zero_le _) htoken, tokensFrom_of_isToken htoken,
    constantStop, if_pos hloc]
  simp only [Mark.stop, hlist, Bool.false_eq_true, if_false, hminus]
  by_cases hneg : ps.shape.isMinus m.start = true
  · rw [if_pos hneg, if_pos hneg, tokensFrom_nextToken,
      tokensFrom_of_isToken (hfits.number hlist hneg)]
    rfl
  · rw [if_neg hneg, if_neg hneg]
    rfl

theorem tokens_lexed (ps : Statement) : Lexed ps.tokens where
  nonempty := by
    intro t ht
    simp only [tokens, tokensFrom, List.mem_map, List.mem_filter] at ht
    obtain ⟨k, ⟨-, hk⟩, rfl⟩ := ht
    exact offset_lt (Nat.lt_succ_self k) (lt_length_of_isToken hk)
  inOrder := by
    refine List.pairwise_map.mpr (List.Pairwise.filter _ ?_)
    exact (List.pairwise_lt_range' ..).imp fun hlt => offset_mono hlt

/-- The statement in its source text. -/
def toScanned (ps : Statement) (after : List UInt8) (queryLoc : ℤ) : Scanned where
  text := ps.text
  after := after
  queryLoc := queryLoc
  tokens := ps.tokens
  noNul := zero_notMem_text
  lexed := ps.tokens_lexed

end Statement

/-! ## Marks in order -/

namespace Mark.Fits

variable {sh : Shape} {m : Mark}

theorem start_le_stop (h : m.Fits sh) : m.start ≤ m.stop sh := by
  unfold Mark.stop
  split
  · next hlist => exact (h.list hlist).1
  · split
    · simp only [Shape.nextToken]
      omega
    · exact Nat.le_succ _

theorem stop_le (h : m.Fits sh) : m.stop sh ≤ sh.length := by
  unfold Mark.stop
  split
  · next hlist => exact (h.list hlist).2
  · next hlist =>
    rw [Bool.not_eq_true] at hlist
    split
    · next hminus => exact Shape.lt_length_of_isToken (h.number hlist hminus)
    · exact Shape.lt_length_of_isToken (h.token hlist)

theorem stop_le_length {ps : Statement} (h : m.Fits ps.shape) : m.stop ps.shape ≤ ps.length :=
  h.stop_le.trans_eq Statement.shape_length

theorem start_le_length {ps : Statement} (h : m.Fits ps.shape) : m.start ≤ ps.length :=
  h.start_le_stop.trans h.stop_le_length

end Mark.Fits

/-! ## The bytes of a layout -/

namespace Segment

variable {ps : Statement}

theorem raws_self (k : ℕ) : raws k k = [] := by simp [raws]

theorem raws_succ {k j : ℕ} (h : k ≤ j) : raws k (j + 1) = raws k j ++ [.raw j] := by
  have hlen : j + 1 - k = (j - k) + 1 := by omega
  have hlast : k + (j - k) = j := by omega
  rw [raws, hlen, List.range'_concat, List.map_append, Nat.one_mul, hlast]
  rfl

theorem raws_bytes {k j : ℕ} (h : k ≤ j) (hj : j ≤ ps.length) :
    (raws k j).flatMap (bytes ps) = Statement.text ((ps.take j).drop k) := by
  induction j, h using Nat.le_induction with
  | base =>
    rw [raws_self, List.drop_eq_nil_of_le (by simp)]
    rfl
  | succ j hkj ih =>
    have hlt : j < ps.length := hj
    have hk : k ≤ (ps.take j).length := by
      rw [List.length_take]
      omega
    rw [raws_succ hkj, List.flatMap_append, ih hlt.le, List.take_succ_eq_append_getElem hlt,
      List.drop_append_of_le_length hk, Statement.text_append]
    simp [bytes, Statement.pieceBytes, hlt, Statement.text]

end Segment

/-- These marks lie one behind the other, from piece `k` on. -/
def Spaced (sh : Shape) : ℕ → List Mark → Prop
  | _, [] => True
  | k, m :: ms =>
    k ≤ m.start ∧ m.start ≤ m.stop sh ∧ m.stop sh ≤ sh.length ∧ Spaced sh (m.stop sh) ms

/-- The part of the statement that a mark stands for. -/
def Mark.span (ps : Statement) (m : Mark) : Span :=
  ⟨ps.offset m.start, ps.offset (m.stop ps.shape), m.squashed⟩

/-- The bytes between two places of the statement. -/
theorem take_drop_text {ps : Statement} {k j : ℕ} (h : k ≤ j) (hj : j ≤ ps.length) :
    (ps.text.drop (ps.offset k)).take (ps.offset j - ps.offset k) =
      (Segment.raws k j).flatMap (Segment.bytes ps) := by
  rw [Segment.raws_bytes h hj, ← Statement.slice_text h [], List.append_nil]

/-- Replacing the marks of a statement gives its layout. -/
theorem replaceSpans_layout {ps : Statement} {k : ℕ} {ms : List Mark} (hk : k ≤ ps.length)
    (h : Spaced ps.shape k ms) (n : ℕ) :
    replaceSpans ps.text (ps.offset k) n (ms.map (Mark.span ps)) =
      (Segment.layoutFrom ps.shape k n ms).flatMap (Segment.bytes ps) := by
  induction ms generalizing k n with
  | nil =>
    rw [Segment.layoutFrom, Statement.shape_length, ← take_drop_text hk le_rfl,
      Statement.offset_length, List.map_nil, replaceSpans, List.take_of_length_le (by simp)]
  | cons m ms ih =>
    obtain ⟨hstart, hle, hstop, hrest⟩ := h
    rw [Statement.shape_length] at hstop
    rw [Segment.layoutFrom, List.flatMap_append, List.flatMap_cons,
      ← take_drop_text hstart (hle.trans hstop), ← ih hstop hrest, List.map_cons, replaceSpans,
      List.append_assoc]
    rfl

/-! ## The marks as recorded spans -/

theorem spaced_of_ahead {sh : Shape} {prev : Option ℕ} {k : ℕ} {ms : List Mark}
    (hfits : ∀ m ∈ ms, m.Fits sh) (h : Ahead Mark.start (Mark.stop sh) prev k ms)
    (keep : Mark → Bool) : Spaced sh k ((firsts Mark.start prev ms).filter keep) := by
  induction ms generalizing prev k with
  | nil => trivial
  | cons m ms ih =>
    have hm := hfits m List.mem_cons_self
    have hfits' : ∀ m' ∈ ms, m'.Fits sh := fun m' hm' => hfits m' (List.mem_cons_of_mem _ hm')
    rw [firsts]
    split
    · exact ih hfits' h.skip
    · next hprev =>
      rw [List.filter_cons]
      split
      · exact ⟨h.le_start hprev, hm.start_le_stop, hm.stop_le, ih hfits' h.pass⟩
      · exact ih hfits' h.skip

namespace Jumble

variable {ps : Statement} {after : List UInt8} {queryLoc : ℤ} {J : Jumble}

theorem start_locationLen (m : Mark) :
    (ps.toScanned after queryLoc).start (locationLen ps queryLoc m) = ps.offset m.start := by
  change (queryLoc + (ps.offset m.start : ℤ) - queryLoc).toNat = _
  omega

theorem span_locationLen {m : Mark} (hm : m.Fits ps.shape) :
    (ps.toScanned after queryLoc).span (locationLen ps queryLoc m) = m.span ps := by
  have hstop : (ps.toScanned after queryLoc).stop (locationLen ps queryLoc m) =
      ps.offset (m.stop ps.shape) := by
    have hsquashed : (locationLen ps queryLoc m).squashed = m.squashed := rfl
    rw [Scanned.stop, start_locationLen, hsquashed]
    by_cases hlist : m.squashed = true
    · have hle : ps.offset m.start ≤ ps.offset m.listStop := Statement.offset_mono (hm.list hlist).1
      have hlen : (locationLen ps queryLoc m).length =
          (ps.offset m.listStop : ℤ) - ps.offset m.start := if_pos hlist
      rw [if_pos hlist, hlen, Mark.stop, if_pos hlist]
      omega
    · rw [if_neg hlist]
      exact congrArg (Option.getD · 0)
        (Statement.constantStop_mark hm (by simpa using hlist) after)
  rw [Scanned.span, start_locationLen, hstop]
  rfl

theorem stop_locationLen {m : Mark} (hm : m.Fits ps.shape) :
    (ps.toScanned after queryLoc).stop (locationLen ps queryLoc m) = ps.offset (m.stop ps.shape) :=
  congrArg Span.stop (span_locationLen hm)

/-- What the jumbling has marked is recorded in the source text. -/
theorem records (hJ : J.Fits ps.shape) :
    (ps.toScanned after queryLoc).Records (J.toJumbleState ps queryLoc).clocations where
  fits := by
    intro l hl
    obtain ⟨m, hm, rfl⟩ := List.mem_map.mp hl
    have hfits := hJ.fits m hm
    refine ⟨?_, ?_, ?_, ?_⟩
    · change queryLoc ≤ queryLoc + (ps.offset m.start : ℤ)
      omega
    · rw [stop_locationLen hfits]
      exact Statement.offset_le_length _
    · intro hlist
      have hle : ps.offset m.start ≤ ps.offset m.listStop :=
        Statement.offset_mono (hfits.list hlist).1
      have hlen : (locationLen ps queryLoc m).length =
          (ps.offset m.listStop : ℤ) - ps.offset m.start := if_pos hlist
      omega
    · intro hlist
      rw [start_locationLen]
      exact Option.isSome_iff_exists.mpr ⟨_, Statement.constantStop_mark hfits hlist after⟩
  apart := by
    intro l hl l' hl' hlt
    obtain ⟨m, hm, rfl⟩ := List.mem_map.mp hl
    obtain ⟨m', hm', rfl⟩ := List.mem_map.mp hl'
    rw [start_locationLen, start_locationLen] at hlt
    rw [stop_locationLen (hJ.fits m hm), start_locationLen]
    have hmarks : m.start < m'.start := by
      by_contra hle
      exact absurd (Statement.offset_mono (Nat.le_of_not_lt hle)) (Nat.not_le.mpr hlt)
    exact Statement.offset_mono (hJ.apart m hm m' hm' hmarks)

/-! ## The whole text -/

/-- Locations compare as the pieces they stand before. -/
theorem compLocation_marks {m m' : Mark} (hm : m.start ≤ ps.length) (hm' : m'.start ≤ ps.length) :
    compLocation (locationLen ps queryLoc m) (locationLen ps queryLoc m') =
      compare (m.start : ℤ) m'.start := by
  have hloc : (locationLen ps queryLoc m).location = queryLoc + ps.offset m.start := rfl
  have hloc' : (locationLen ps queryLoc m').location = queryLoc + ps.offset m'.start := rfl
  rw [compLocation_eq]
  rcases Nat.lt_trichotomy m.start m'.start with hlt | heq | hgt
  · have hoff := Statement.offset_lt hlt hm'
    rw [compare_lt_iff_lt.mpr (by omega), compare_lt_iff_lt.mpr (by omega)]
  · rw [hloc, hloc', heq, compare_eq_iff_eq.mpr rfl, compare_eq_iff_eq.mpr rfl]
  · have hoff := Statement.offset_lt hgt hm
    rw [compare_gt_iff_gt.mpr (by omega), compare_gt_iff_gt.mpr (by omega)]

theorem sort_clocations (hfits : ∀ m ∈ J.marks, m.Fits ps.shape) (qsort : Sorting) :
    sortLocations qsort (J.toJumbleState ps queryLoc).clocations =
      (J.sortedMarks qsort).map (locationLen ps queryLoc) := by
  change sortLocations qsort (J.marks.map (locationLen ps queryLoc)) = _
  rw [sortLocations, List.length_map, sortedMarks]
  split
  · exact qsort.map _ _ _ _ fun m hm m' hm' =>
      compLocation_marks (hfits m hm).start_le_length (hfits m' hm').start_le_length
  · rfl

theorem mem_sortedMarks {qsort : Sorting} {m : Mark} :
    m ∈ J.sortedMarks qsort ↔ m ∈ J.marks := by
  rw [sortedMarks]
  split
  · exact qsort.mem_sort
  · rfl

theorem sortedMarks_ahead {sh : Shape} (hJ : J.Fits sh) (qsort : Sorting) :
    Ahead Mark.start (Mark.stop sh) none 0 (J.sortedMarks qsort) where
  sorted := by
    rw [sortedMarks]
    split
    · exact (qsort.sorted (fun m => (m.start : ℤ)) J.marks).imp fun h => Int.ofNat_le.mp h
    · next hlen => exact pairwise_of_not_one_lt hlen
  apart := fun m hm m' hm' => hJ.apart m (mem_sortedMarks.mp hm) m' (mem_sortedMarks.mp hm')
  prev_le := fun p hp => by cases hp
  ahead := fun _ _ => Or.inr (Nat.zero_le _)

/-- The first mark of a piece has the first location there. -/
theorem firsts_locationLen {ms : List Mark} (hfits : ∀ m ∈ ms, m.Fits ps.shape) :
    firsts (ps.toScanned after queryLoc).start none (ms.map (locationLen ps queryLoc)) =
      (firsts Mark.start none ms).map (locationLen ps queryLoc) := by
  refine firsts_map none (fun m _ => start_locationLen m) ?_
  rintro m hm _ (hnone | ⟨m', hm', rfl⟩)
  · cases hnone
  · exact Statement.offset_inj (hfits m' hm').start_le_length (hfits m hm).start_le_length

end Jumble

/-- The normalized text has the layout of the shape and the marks. -/
theorem normalizeQuery_layout {core : PgCore} {ps : Statement} {J : Jumble}
    (hJ : J.Fits ps.shape) (hne : J.marks ≠ []) {after : List UInt8} {more : List Token}
    (hlex : core.lex (ps.text ++ after) = ps.tokens ++ more) (queryLoc : ℤ) :
    pschNormalizeQuery core (ps.text ++ after) queryLoc ps.text.length
        (some (J.toJumbleState ps queryLoc)) =
      .ok (some ((layout core.qsort ps.shape J).flatMap (Segment.bytes ps))) := by
  have hfits : ∀ m ∈ J.sortedMarks core.qsort, m.Fits ps.shape :=
    fun m hm => hJ.fits m (Jumble.mem_sortedMarks.mp hm)
  have hscanned : (ps.toScanned after queryLoc).ScannedBy core := ⟨more, hlex⟩
  have hnormalized := Scanned.normalizeQuery_eq hscanned (Jumble.records hJ)
    (j := J.toJumbleState ps queryLoc) (by simpa [Jumble.toJumbleState] using hne)
  have hspaced := spaced_of_ahead hfits (Jumble.sortedMarks_ahead hJ core.qsort)
    fun m => !J.preserves m
  have hspans : ((firsts Mark.start none (J.sortedMarks core.qsort)).filter fun m =>
      !J.preserves m).map ((ps.toScanned after queryLoc).span ∘ Jumble.locationLen ps queryLoc) =
      ((firsts Mark.start none (J.sortedMarks core.qsort)).filter fun m =>
        !J.preserves m).map (Mark.span ps) := by
    refine List.map_congr_left fun m hm => Jumble.span_locationLen (hfits m ?_)
    exact (firsts_sublist _ _ _).subset (List.mem_of_mem_filter hm)
  rw [layout, Jumble.replacedMarks, ← replaceSpans_layout (Nat.zero_le _) hspaced,
    Statement.offset_zero, ← hspans]
  rw [Jumble.sort_clocations hJ.fits, Jumble.firsts_locationLen hfits, List.filter_map,
    List.map_map] at hnormalized
  exact hnormalized

/-! ## What the layout copies -/

namespace Spaced

variable {sh : Shape} {k : ℕ} {ms : List Mark}

theorem le_start (h : Spaced sh k ms) : ∀ m ∈ ms, k ≤ m.start := by
  induction ms generalizing k with
  | nil => nofun
  | cons m ms ih =>
    obtain ⟨hk, hstop, -, hrest⟩ := h
    intro m' hm'
    rcases List.mem_cons.mp hm' with rfl | hm'
    · exact hk
    · exact (hk.trans hstop).trans (ih hrest m' hm')

theorem raw_mem_raws {k j i : ℕ} : Segment.raw i ∈ Segment.raws k j ↔ k ≤ i ∧ i < j := by
  simp only [Segment.raws, List.mem_map, Segment.raw.injEq, exists_eq_right, List.mem_range'_1]
  omega

/-- The layout copies what no mark covers. -/
theorem raw_mem (h : Spaced sh k ms) {n i : ℕ} :
    Segment.raw i ∈ Segment.layoutFrom sh k n ms ↔
      k ≤ i ∧ i < sh.length ∧ ∀ m ∈ ms, ¬ (m.start ≤ i ∧ i < m.stop sh) := by
  induction ms generalizing k n with
  | nil => simp [Segment.layoutFrom, raw_mem_raws]
  | cons m ms ih =>
    obtain ⟨hk, hstop, hlen, hrest⟩ := h
    have hbehind := hrest.le_start
    simp only [Segment.layoutFrom, List.mem_append, List.mem_cons, reduceCtorEq, false_or,
      raw_mem_raws, ih hrest]
    constructor
    · rintro (⟨hki, hi⟩ | ⟨hi, hilen, hno⟩)
      · refine ⟨hki, by omega, ?_⟩
        rintro m' (rfl | hm')
        · omega
        · have := hbehind m' hm'
          omega
      · refine ⟨by omega, hilen, ?_⟩
        rintro m' (rfl | hm')
        · omega
        · exact hno m' hm'
    · rintro ⟨hki, hilen, hno⟩
      have hm := hno m (Or.inl rfl)
      rcases Nat.lt_or_ge i m.start with hi | hi
      · exact Or.inl ⟨hki, hi⟩
      · exact Or.inr ⟨by omega, hilen, fun m' hm' => hno m' (Or.inr hm')⟩

/-- Placeholders are numbered from `n + 1` on. -/
theorem lt_of_placeholder_mem {n i : ℕ} {squashed : Bool}
    (h : Segment.placeholder i squashed ∈ Segment.layoutFrom sh k n ms) : n < i := by
  induction ms generalizing k n with
  | nil => simp [Segment.layoutFrom, Segment.raws] at h
  | cons m ms ih =>
    simp only [Segment.layoutFrom, List.mem_append, List.mem_cons] at h
    rcases h with h | h | h
    · simp [Segment.raws] at h
    · cases h
      exact Nat.lt_succ_self n
    · exact (Nat.lt_succ_self n).trans (ih h)

theorem nodup (h : Spaced sh k ms) (n : ℕ) : (Segment.layoutFrom sh k n ms).Nodup := by
  have hraws : ∀ k j, (Segment.raws k j).Nodup := fun k j =>
    (List.nodup_range' 1 (Nat.one_pos)).map fun i j hij => Segment.raw.inj hij
  induction ms generalizing k n with
  | nil => exact hraws _ _
  | cons m ms ih =>
    obtain ⟨hk, hstop, hlen, hrest⟩ := h
    rw [Segment.layoutFrom, List.nodup_append]
    refine ⟨hraws _ _, List.nodup_cons.mpr ⟨fun hmem => ?_, ih hrest (n + 1)⟩, ?_⟩
    · exact absurd (lt_of_placeholder_mem hmem) (Nat.lt_irrefl _)
    · rintro s hs _ hs' rfl
      cases s with
      | placeholder i squashed => simp [Segment.raws] at hs
      | raw i =>
        rcases List.mem_cons.mp hs' with heq | hmem
        · cases heq
        · have hlt := (raw_mem_raws.mp hs).2
          have hge := (hrest.raw_mem.mp hmem).1
          omega

end Spaced

end PgStatCh
