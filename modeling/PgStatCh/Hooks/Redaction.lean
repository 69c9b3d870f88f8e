import PgStatCh.Hooks.Layout
import PgStatCh.Lib.Chunks

/-!
# Hooks.Redaction — which literals reach the exported text

Two statements of one shape differ in their literals only. What the hook stores for them
is the same when every literal in which they differ lies in a constant or a list that
the jumbling has recorded, or behind the 2047 bytes that are kept; and, up to literals
that begin with one another, only then (`stored_same_iff_hidden`).

Of a utility statement the jumbling records nothing, and its literals are stored as
they are (`password_stored`).
-/

namespace PgStatCh

open Lib Prog

/-! ## The cache -/

namespace PschNormalizedQueryCache

theorem take_clamp (text : List UInt8) :
    text.take (clampCachedQueryLen text.length) = text.take 2047 := by
  rw [clampCachedQueryLen, pschMaxCachedQueryLen]
  split
  · rfl
  · rw [List.take_length, List.take_of_length_le (by omega)]

theorem clamp_eq (text : List UInt8) :
    clampCachedQueryLen text.length = (text.take 2047).length := by
  rw [clampCachedQueryLen, pschMaxCachedQueryLen, List.length_take]
  split <;> omega

/-- The cache keeps 2047 bytes. -/
theorem remember_congr {text text' : List UInt8} (h : text.take 2047 = text'.take 2047)
    (normalizeCacheMax : ℤ) (a : CacheAlloc) (queryId : UInt64) :
    remember normalizeCacheMax a queryId text text.length =
      remember normalizeCacheMax a queryId text' text'.length := by
  simp only [remember, take_clamp]
  rw [clamp_eq, clamp_eq, h]

/-- The entry of this id has this text. -/
def Stored (queryId : UInt64) (text : List UInt8) (c : PschNormalizedQueryCache) : Prop :=
  ∃ entry, c.table.get queryId = some entry ∧ entry.normalizedQuery = .live text

theorem Stored.unique {queryId : UInt64} {text text' : List UInt8} {c : PschNormalizedQueryCache}
    (h : Stored queryId text c) (h' : Stored queryId text' c) : text = text' := by
  obtain ⟨entry, hget, hlive⟩ := h
  obtain ⟨entry', hget', hlive'⟩ := h'
  rw [hget] at hget'
  cases hget'
  rw [hlive] at hlive'
  exact QueryText.live.inj hlive'

theorem wp_remember {queryId : UInt64} (hid : queryId ≠ 0) (normalizeCacheMax : ℤ)
    (a : CacheAlloc) (text : List UInt8) (c : PschNormalizedQueryCache) :
    wp (remember normalizeCacheMax a queryId text text.length)
      (fun _ => Stored queryId (text.take 2047)) (fun _ _ => True) c := by
  unfold remember
  rw [if_neg hid]
  simp only [take_clamp]
  refine wp_bind_last fun _ c₁ => ?_
  refine wp_bind_last fun _ c₂ => ?_
  refine wp_bind_last fun _ c₃ => ?_
  refine wp_bind_last fun _ c₄ => ?_
  exact ⟨_, FinTable.get_set_self _ _ _, rfl⟩

end PschNormalizedQueryCache

/-! ## The exported text -/

/-- The layout of the exported text, also of a statement without recorded constants. -/
def exportLayout (qsort : Sorting) (sh : Shape) : Option Jumble → List Segment
  | none => Segment.raws 0 sh.length
  | some J => layout qsort sh J

/-- No constants are recorded. -/
def unmarked (J : Option Jumble) : Bool := J.all fun J => J.marks.isEmpty

/-- The hook is called for the statement `ps`: `CleanQuerytext` finds it in the source text
and has removed the white space around it, the scanner takes it apart into these pieces,
and the jumbling has recorded `J`. -/
inductive Parsed (core : PgCore) (query : AnalyzedQuery) (jstate : Option JumbleState)
    (ps : Statement) (J : Option Jumble) : Prop where
  | mk (after : List UInt8) (queryLoc : ℤ) (more : List Token) :
    core.cleanQuerytext query.sourceText query.stmtLocation query.stmtLen =
      (ps.text ++ after, queryLoc, (ps.text.length : ℤ)) →
    core.lex (ps.text ++ after) = ps.tokens ++ more →
    ps.text.head?.any isspace = false → ps.text.getLast?.any isspace = false →
    jstate = J.map (fun J => J.toJumbleState ps queryLoc) →
    Parsed core query jstate ps J

/-- A statement without recorded constants is copied as it is. -/
theorem copyTrimmedStatement_text {ps : Statement}
    (hhead : ps.text.head?.any isspace = false) (hlast : ps.text.getLast?.any isspace = false)
    (after : List UInt8) :
    pschCopyTrimmedStatement (ps.text ++ after) ps.text.length =
      if ps = [] then none else some ps.text := by
  rw [pschCopyTrimmedStatement]
  by_cases hempty : ps = []
  · simp [hempty, Statement.text]
  · have hne := Statement.text_ne_nil hempty
    have hpos := List.length_pos_iff.mpr hne
    have hdrop : ps.text.dropWhile isspace = ps.text := by
      cases htext : ps.text with
      | nil => rfl
      | cons c cs =>
        rw [htext] at hhead
        exact List.dropWhile_cons_of_neg (by simpa using hhead)
    rw [if_neg (by omega), if_neg hempty, Int.toNat_natCast, List.take_left, hdrop,
      List.rdropWhile_eq_self_iff.mpr]
    intro hne'
    rw [List.getLast?_eq_some_getLast hne'] at hlast
    simpa using hlast

theorem strlen_text (ps : Statement) : strlen ps.text = ps.text.length := by
  rw [strlen, List.takeWhile_eq_self_iff.mpr]
  intro b hb
  simpa using fun h0 : b = 0 => Statement.zero_notMem_text (h0 ▸ hb)

/-- What is stored of a statement. -/
def exportedText (qsort : Sorting) (ps : Statement) (J : Option Jumble) : List UInt8 :=
  (exportLayout qsort ps.shape J).flatMap (Segment.bytes ps)

theorem exportedText_unmarked {qsort : Sorting} {ps : Statement} {J : Option Jumble}
    (h : unmarked J = true) : exportedText qsort ps J = ps.text := by
  have hraws : exportLayout qsort ps.shape J = Segment.raws 0 ps.length := by
    cases J with
    | none => rw [exportLayout, Statement.shape_length]
    | some J =>
      have hmarks : J.marks = [] := List.isEmpty_iff.mp h
      have hnone : J.replacedMarks qsort = [] := by
        simp [Jumble.replacedMarks, Jumble.sortedMarks, firsts, hmarks]
      rw [exportLayout, layout, hnone, Segment.layoutFrom, Statement.shape_length]
  rw [exportedText, hraws, Segment.raws_bytes (Nat.zero_le _) (Nat.le_refl _), List.take_length,
    List.drop_zero]

theorem exportedQuery_layout {core : PgCore} {query : AnalyzedQuery} {jstate : Option JumbleState}
    {ps : Statement} {J : Option Jumble} (h : Parsed core query jstate ps J)
    (hJ : ∀ J', J = some J' → J'.Fits ps.shape) :
    exportedQuery core query jstate = .ok (
      if ps = [] ∧ unmarked J = true then none
      else some (exportedText core.qsort ps J, (exportedText core.qsort ps J).length)) := by
  obtain ⟨after, queryLoc, more, hclean, hlex, hhead, hlast, rfl⟩ := h
  simp only [exportedQuery, hclean]
  cases hmarks : unmarked J with
  | true =>
    have hno : ¬ ((J.map fun J => J.toJumbleState ps queryLoc).any
        fun j => decide (0 < j.clocations.length)) = true := by
      cases J with
      | none => simp
      | some J => simpa [unmarked, Jumble.toJumbleState] using hmarks
    rw [if_neg hno, copyTrimmedStatement_text hhead hlast, exportedText_unmarked hmarks]
    by_cases hempty : ps = []
    · rw [if_pos hempty, if_pos ⟨hempty, rfl⟩]
      rfl
    · rw [if_neg hempty, if_neg fun hboth => hempty hboth.1, Option.map_some, strlen_text]
      rfl
  | false =>
    obtain ⟨J, rfl⟩ : ∃ J', J = some J' := by
      cases J with
      | none => cases hmarks
      | some J => exact ⟨J, rfl⟩
    have hne : J.marks ≠ [] := by simpa [unmarked] using hmarks
    have hyes : ((some J).map fun J => J.toJumbleState ps queryLoc).any
        (fun j => decide (0 < j.clocations.length)) = true := by
      simpa [Jumble.toJumbleState, List.length_pos_iff] using hne
    rw [if_pos hyes, Option.map_some, normalizeQuery_layout (hJ J rfl) hne hlex,
      if_neg (by simp)]
    rfl

/-! ## Two statements of one shape -/

/-- Piece `k` lies in a constant or a list that a placeholder takes the place of. -/
def Replaced (qsort : Sorting) (sh : Shape) (J : Option Jumble) (k : ℕ) : Prop :=
  ∃ J', J = some J' ∧ ∃ m ∈ J'.replacedMarks qsort, m.start ≤ k ∧ k < m.stop sh

/-- How many bytes of the exported text come before piece `k`. -/
def exportedBefore (qsort : Sorting) (ps : Statement) (J : Option Jumble) (k : ℕ) : ℕ :=
  (((exportLayout qsort ps.shape J).takeWhile (· ≠ .raw k)).flatMap (Segment.bytes ps)).length

/-- Every piece in which the statements differ is replaced, or differs behind the bytes
that are kept. -/
def Hidden (qsort : Sorting) (ps ps' : Statement) (J : Option Jumble) : Prop :=
  ∀ k < ps.length, ps.pieceBytes k ≠ ps'.pieceBytes k → Replaced qsort ps.shape J k ∨
    2047 ≤ exportedBefore qsort ps J k + commonLen (ps.pieceBytes k) (ps'.pieceBytes k)

section Layout

variable {qsort : Sorting} {ps ps' : Statement} {J : Option Jumble}

theorem exportLayout_spaced (qsort : Sorting) (hJ : ∀ J', J = some J' → J'.Fits ps.shape) :
    ∃ n ms, exportLayout qsort ps.shape J = Segment.layoutFrom ps.shape 0 n ms ∧
      Spaced ps.shape 0 ms ∧
      ∀ k, (Replaced qsort ps.shape J k ↔ ∃ m ∈ ms, m.start ≤ k ∧ k < m.stop ps.shape) := by
  cases J with
  | none => exact ⟨0, [], rfl, trivial, fun k => by simp [Replaced]⟩
  | some J =>
    refine ⟨_, _, rfl, ?_, fun k => ?_⟩
    · have hfits : ∀ m ∈ J.sortedMarks qsort, m.Fits ps.shape :=
        fun m hm => (hJ J rfl).fits m (Jumble.mem_sortedMarks.mp hm)
      exact spaced_of_ahead hfits (Jumble.sortedMarks_ahead (hJ J rfl) qsort) _
    · simp [Replaced]

/-- Copied is what is not replaced. -/
theorem raw_mem_exportLayout (hJ : ∀ J', J = some J' → J'.Fits ps.shape) {k : ℕ} :
    .raw k ∈ exportLayout qsort ps.shape J ↔ k < ps.length ∧ ¬ Replaced qsort ps.shape J k := by
  obtain ⟨n, ms, hlayout, hspaced, hreplaced⟩ := exportLayout_spaced qsort hJ
  rw [hlayout, hspaced.raw_mem, hreplaced, Statement.shape_length]
  simp

theorem exportedBefore_eq (hJ : ∀ J', J = some J' → J'.Fits ps.shape) {before behind : List Segment}
    {k : ℕ} (h : exportLayout qsort ps.shape J = before ++ .raw k :: behind) :
    exportedBefore qsort ps J k = (before.flatMap (Segment.bytes ps)).length := by
  obtain ⟨n, ms, hlayout, hspaced, -⟩ := exportLayout_spaced qsort hJ
  have hnodup := hspaced.nodup n
  rw [← hlayout, h, List.nodup_append] at hnodup
  have hbefore : ∀ s ∈ before, decide (s ≠ Segment.raw k) = true := by
    intro s hs
    simpa using hnodup.2.2 s hs (.raw k) List.mem_cons_self
  rw [exportedBefore, h, List.takeWhile_append_of_pos hbefore]
  simp

/-- The kept bytes are the same when the differences are hidden. -/
theorem take_exportedText (hshape : ps.shape = ps'.shape)
    (hJ : ∀ J', J = some J' → J'.Fits ps.shape) (h : Hidden qsort ps ps' J) :
    (exportedText qsort ps J).take 2047 = (exportedText qsort ps' J).take 2047 := by
  rw [exportedText, exportedText, ← hshape]
  refine take_flatMap_congr ?_
  rintro before (k | ⟨n, squashed⟩) behind hlayout hdiffer
  · have hmem : Segment.raw k ∈ exportLayout qsort ps.shape J := by
      rw [hlayout]
      exact List.mem_append_right _ List.mem_cons_self
    obtain ⟨hk, hnot⟩ := (raw_mem_exportLayout hJ).mp hmem
    rw [← exportedBefore_eq hJ hlayout]
    exact (h k hk hdiffer).resolve_left hnot
  · exact absurd rfl hdiffer

/-- They are the same only then, up to literals that begin with one another. -/
theorem hidden_of_take_exportedText (hshape : ps.shape = ps'.shape)
    (hJ : ∀ J', J = some J' → J'.Fits ps.shape)
    (hfree : ∀ k, ps.pieceBytes k = ps'.pieceBytes k ∨
      ¬ ps.pieceBytes k <+: ps'.pieceBytes k ∧ ¬ ps'.pieceBytes k <+: ps.pieceBytes k)
    (h : (exportedText qsort ps J).take 2047 = (exportedText qsort ps' J).take 2047) :
    Hidden qsort ps ps' J := by
  intro k hk hdiffer
  by_cases hreplaced : Replaced qsort ps.shape J k
  · exact Or.inl hreplaced
  · rw [exportedText, exportedText, ← hshape] at h
    have hmem : Segment.raw k ∈ exportLayout qsort ps.shape J :=
      (raw_mem_exportLayout hJ).mpr ⟨hk, hreplaced⟩
    obtain ⟨before, behind, hlayout⟩ := List.append_of_mem hmem
    have hagree := agreesTo_of_take_flatMap (fun s _ => ?_) h before _ behind hlayout hdiffer
    · rw [exportedBefore_eq hJ hlayout]
      exact Or.inr hagree
    · cases s with
      | raw k => exact hfree k
      | placeholder n squashed => exact Or.inl rfl

end Layout

/-! ## The hook -/

/-- The hook is called, and not switched off. -/
def BackendSettings.Active (settings : BackendSettings) : Prop :=
  settings.pschEnabled = true ∧ settings.parallelWorker = false

theorem postParseAnalyze_stored {core : PgCore} {settings : BackendSettings} {a : CacheAlloc}
    {query : AnalyzedQuery} {jstate : Option JumbleState} {c c' : PschNormalizedQueryCache}
    {text : List UInt8} (hactive : settings.Active) (hne : query.queryId ≠ 0)
    (hquery : exportedQuery core query jstate = .ok (some (text, text.length)))
    (h : pschPostParseAnalyze core settings a query jstate c = .ok () c') :
    PschNormalizedQueryCache.Stored query.queryId (text.take 2047) c' := by
  simp only [pschPostParseAnalyze, hactive.1, hactive.2, hne, hquery, Bool.true_eq_false,
    Bool.false_eq_true, or_self, if_false] at h
  have hstored := wp_of_ok h (PschNormalizedQueryCache.wp_remember hne _ _ text c)
  exact hstored

/-- Two statements of one shape, with the same marks and the same id. The hook stores the
same for them, from any cache, when every literal in which they differ is replaced or
lies behind the bytes that are kept. When it stores something, and no literal begins
with its counterpart, it does so only then. -/
theorem stored_same_iff_hidden {core : PgCore} {ps ps' : Statement} {J : Option Jumble}
    {query query' : AnalyzedQuery} {jstate jstate' : Option JumbleState}
    (hshape : ps.shape = ps'.shape) (hJ : ∀ J', J = some J' → J'.Fits ps.shape)
    (h : Parsed core query jstate ps J) (h' : Parsed core query' jstate' ps' J)
    (hid : query.queryId = query'.queryId) (hne : query.queryId ≠ 0)
    (settings : BackendSettings) (a : CacheAlloc) (c : PschNormalizedQueryCache) :
    (Hidden core.qsort ps ps' J →
      pschPostParseAnalyze core settings a query jstate c =
        pschPostParseAnalyze core settings a query' jstate' c) ∧
    (settings.Active →
      (∀ k, ps.pieceBytes k = ps'.pieceBytes k ∨
        ¬ ps.pieceBytes k <+: ps'.pieceBytes k ∧ ¬ ps'.pieceBytes k <+: ps.pieceBytes k) →
      (∃ c', pschPostParseAnalyze core settings a query jstate c = .ok () c') →
      pschPostParseAnalyze core settings a query jstate c =
        pschPostParseAnalyze core settings a query' jstate' c →
      Hidden core.qsort ps ps' J) := by
  have hquery := exportedQuery_layout h hJ
  have hquery' := exportedQuery_layout h' (hshape ▸ hJ)
  have hlen : ps.length = ps'.length := by
    rw [← Statement.shape_length, hshape, Statement.shape_length]
  have hempty : ps = [] ↔ ps' = [] := by
    rw [← List.length_eq_zero_iff, hlen, List.length_eq_zero_iff]
  refine ⟨fun hhidden => ?_, fun hactive hfree hok hsame => ?_⟩
  · -- the cache reads no more of a text than the bytes it keeps
    have htake := take_exportedText hshape hJ hhidden
    simp only [pschPostParseAnalyze, hquery, hquery', ← hid, hempty]
    by_cases hnothing : ps' = [] ∧ unmarked J = true
    · rw [if_pos hnothing, if_pos hnothing]
    · rw [if_neg hnothing, if_neg hnothing]
      simp only [PschNormalizedQueryCache.remember_congr htake]
  · by_cases hnothing : ps = [] ∧ unmarked J = true
    · intro k hk
      rw [hnothing.1] at hk
      exact absurd hk (Nat.not_lt_zero k)
    · have hnothing' : ¬ (ps' = [] ∧ unmarked J = true) := by rwa [← hempty]
      rw [if_neg hnothing] at hquery
      rw [if_neg hnothing'] at hquery'
      -- both calls end in the same cache, whose entry of the id has the kept bytes of each text
      obtain ⟨c', hc⟩ := hok
      have hc' := hsame.symm.trans hc
      have hstored := postParseAnalyze_stored hactive hne hquery hc
      have hstored' := postParseAnalyze_stored hactive (hid ▸ hne) hquery' hc'
      rw [← hid] at hstored'
      exact hidden_of_take_exportedText hshape hJ hfree (hstored.unique hstored')

/-! ### Samples -/

/-- Where the sample scanner is: between tokens, in a word, or in a quoted literal. -/
inductive SampleScan where
  | between
  | word (start : ℕ)
  | quoted (start : ℕ)

def isWordChar (c : UInt8) : Bool :=
  (97 ≤ c && c ≤ 122) || (65 ≤ c && c ≤ 90) || (48 ≤ c && c ≤ 57) || c == 95

/-- A byte behind the end of a token. -/
def sampleBegin (pos : ℕ) (c : UInt8) : SampleScan × List Token :=
  if c = 39 then (.quoted pos, [])
  else if isWordChar c then (.word pos, [])
  else if isspace c then (.between, [])
  else (.between, [⟨pos, pos + 1⟩])

def sampleScan : SampleScan → ℕ → List UInt8 → List Token
  | .word start, pos, [] => [⟨start, pos⟩]
  | _, _, [] => []
  | .between, pos, c :: cs =>
    (sampleBegin pos c).2 ++ sampleScan (sampleBegin pos c).1 (pos + 1) cs
  | .word start, pos, c :: cs =>
    if isWordChar c then sampleScan (.word start) (pos + 1) cs
    else ⟨start, pos⟩ :: (sampleBegin pos c).2 ++ sampleScan (sampleBegin pos c).1 (pos + 1) cs
  | .quoted start, pos, c :: cs =>
    if c = 39 then ⟨start, pos + 1⟩ :: sampleScan .between (pos + 1) cs
    else sampleScan (.quoted start) (pos + 1) cs

/-- The scanner for words, numbers, plain quoted literals and single characters. -/
def sampleCore : PgCore where
  cleanQuerytext := fun source location len =>
    let rest := source.drop location.toNat
    let stmt := if len ≤ 0 then rest else rest.take len.toNat
    let lead := (stmt.takeWhile isspace).length
    (rest.drop lead, location + lead, ((stmt.drop lead).rdropWhile isspace).length)
  lex := sampleScan .between 0
  qsort := .insertion

def piece (kind : PieceKind) (s : String)
    (h : ascii s ≠ [] ∧ 0 ∉ ascii s ∧ (ascii s).head? ≠ some minusSign := by decide) : Piece where
  kind := kind
  bytes := ascii s
  nonempty := h.1
  noNul := h.2.1
  unsigned := fun _ => h.2.2

/-- The text that an event of this query gets, from an empty cache. -/
def eventQuery (query : AnalyzedQuery) (jstate : Option JumbleState) : Option (List UInt8) :=
  match (do
      pschPostParseAnalyze sampleCore {} {} query jstate
      PschNormalizedQueryCache.lookup query.queryId (CharBuf.zero pschMaxQueryLen)) {} with
  | .ok (some (buf, len)) _ => some (buf.bytes len.toNat)
  | _ => none

/-- An event that gets a text comes after a hook that ended. -/
theorem exists_ok_of_eventQuery {query : AnalyzedQuery} {jstate : Option JumbleState}
    (h : (eventQuery query jstate).isSome) :
    ∃ c, pschPostParseAnalyze sampleCore {} {} query jstate {} = .ok () c := by
  cases hrun : pschPostParseAnalyze sampleCore {} {} query jstate {} with
  | ok u c => exact ⟨c, rfl⟩
  | error e c => simp [eventQuery, bind, EStateM.bind, hrun] at h

/-- `SELECT` of one number. -/
def selectPieces (number : Piece) : Statement := [piece .token "SELECT", piece .gap " ", number]

/-- `ALTER ROLE` with a password. -/
def alterRolePieces (password : Piece) : Statement :=
  [piece .token "ALTER", piece .gap " ", piece .token "ROLE", piece .gap " ", piece .token "r",
    piece .gap " ", piece .token "PASSWORD", piece .gap " "] ++ [password]

/-- A query whose source text is one statement. -/
def sampleQuery (ps : Statement) : AnalyzedQuery := { sourceText := ps.text, queryId := 7 }

def oneMark : Jumble := { marks := [{ start := 2 }] }

theorem oneMark_fits : oneMark.Fits (Statement.shape (selectPieces (piece .literal "1"))) where
  fits := by
    intro m hm
    rw [oneMark, List.mem_singleton] at hm
    subst hm
    exact ⟨nofun, fun _ => by decide, fun _ hminus => absurd hminus (by decide)⟩
  apart := by
    intro m hm m' hm' hlt
    rw [oneMark, List.mem_singleton] at hm hm'
    subst hm hm'
    exact absurd hlt (Nat.lt_irrefl _)

theorem stored_same_iff_hidden_select :
    (pschPostParseAnalyze sampleCore {} {} (sampleQuery (selectPieces (piece .literal "1")))
        (some (oneMark.toJumbleState (selectPieces (piece .literal "1")) 0)) {} =
      pschPostParseAnalyze sampleCore {} {} (sampleQuery (selectPieces (piece .literal "23")))
        (some (oneMark.toJumbleState (selectPieces (piece .literal "23")) 0)) {}) ∧
    pschPostParseAnalyze sampleCore {} {} (sampleQuery (alterRolePieces (piece .literal "'a'")))
        none {} ≠
      pschPostParseAnalyze sampleCore {} {} (sampleQuery (alterRolePieces (piece .literal "'b'")))
        none {} := by
  constructor
  · have h : Parsed sampleCore (sampleQuery (selectPieces (piece .literal "1")))
        (some (oneMark.toJumbleState (selectPieces (piece .literal "1")) 0))
        (selectPieces (piece .literal "1")) (some oneMark) := by
      refine .mk [] 0 [] ?_ ?_ ?_ ?_ rfl <;> decide +kernel
    have h' : Parsed sampleCore (sampleQuery (selectPieces (piece .literal "23")))
        (some (oneMark.toJumbleState (selectPieces (piece .literal "23")) 0))
        (selectPieces (piece .literal "23")) (some oneMark) := by
      refine .mk [] 0 [] ?_ ?_ ?_ ?_ rfl <;> decide +kernel
    have hJ : ∀ J', some oneMark = some J' →
        J'.Fits (Statement.shape (selectPieces (piece .literal "1"))) := by
      rintro _ ⟨rfl⟩
      exact oneMark_fits
    refine (stored_same_iff_hidden (by decide +kernel) hJ h h' rfl (by decide) {} {} {}).1 ?_
    intro k hk hne
    -- the only piece in which they differ is the marked one
    refine Or.inl ⟨oneMark, rfl, { start := 2 }, ?_, ?_⟩
    · simp [Jumble.replacedMarks, Jumble.sortedMarks, oneMark, firsts, Jumble.preserves]
    · have hk3 : k < 3 := hk
      obtain rfl | rfl | rfl : k = 0 ∨ k = 1 ∨ k = 2 := by omega
      · exact absurd rfl hne
      · exact absurd rfl hne
      · decide
  · intro hsame
    have h : Parsed sampleCore (sampleQuery (alterRolePieces (piece .literal "'a'"))) none
        (alterRolePieces (piece .literal "'a'")) none := by
      refine .mk [] 0 [] ?_ ?_ ?_ ?_ rfl <;> decide +kernel
    have h' : Parsed sampleCore (sampleQuery (alterRolePieces (piece .literal "'b'"))) none
        (alterRolePieces (piece .literal "'b'")) none := by
      refine .mk [] 0 [] ?_ ?_ ?_ ?_ rfl <;> decide +kernel
    have hJ : ∀ J' : Jumble, none = some J' →
        J'.Fits (Statement.shape (alterRolePieces (piece .literal "'a'"))) := fun J' h => by cases h
    have hok := exists_ok_of_eventQuery (by decide +kernel :
      (eventQuery (sampleQuery (alterRolePieces (piece .literal "'a'"))) none).isSome)
    have hhidden := (stored_same_iff_hidden (by decide +kernel) hJ h h' rfl (by decide)
      {} {} {}).2 ⟨rfl, rfl⟩ (fun k => ?_) hok hsame
    · -- the password is neither marked nor behind the kept bytes
      rcases hhidden 8 (by decide) (by decide) with ⟨J, hJ, -⟩ | hfar
      · cases hJ
      · exact absurd hfar (by decide)
    · rcases Nat.lt_trichotomy k 8 with hlt | rfl | hgt
      · left
        rw [Statement.pieceBytes, Statement.pieceBytes, alterRolePieces, alterRolePieces,
          List.getElem?_append_left hlt, List.getElem?_append_left hlt]
      · right
        decide
      · left
        rw [Statement.pieceBytes, Statement.pieceBytes, List.getElem?_eq_none hgt,
          List.getElem?_eq_none hgt]

/-- The password reaches the event, whether the jumble state is null or has no constants. -/
theorem password_stored :
    Statement.shape (alterRolePieces (piece .literal "'a'")) =
      Statement.shape (alterRolePieces (piece .literal "'b'")) ∧
    (∀ J ∈ [none, some { marks := [] }], ∀ ps ∈ [alterRolePieces (piece .literal "'a'"),
      alterRolePieces (piece .literal "'b'")],
      Parsed sampleCore (sampleQuery ps) (J.map fun J => J.toJumbleState ps 0) ps J ∧
      eventQuery (sampleQuery ps) (J.map fun J => J.toJumbleState ps 0) = some ps.text) ∧
    Statement.text (alterRolePieces (piece .literal "'a'")) ≠
      Statement.text (alterRolePieces (piece .literal "'b'")) := by
  refine ⟨by decide +kernel, ?_, by decide +kernel⟩
  simp only [List.mem_cons, List.not_mem_nil, or_false, forall_eq_or_imp, forall_eq]
  refine ⟨⟨⟨.mk [] 0 [] ?_ ?_ ?_ ?_ rfl, ?_⟩, .mk [] 0 [] ?_ ?_ ?_ ?_ rfl, ?_⟩,
    ⟨.mk [] 0 [] ?_ ?_ ?_ ?_ rfl, ?_⟩, .mk [] 0 [] ?_ ?_ ?_ ?_ rfl, ?_⟩ <;> decide +kernel

end PgStatCh
