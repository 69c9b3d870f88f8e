import PgStatCh.Hooks.Normalize
import PgStatCh.Lib.Spans

/-!
# Hooks.Constants — `PschNormalizeQuery` replaces the recorded constants

The jumbling records where constants start. Where they stop, the scanner says: it reads the
statement once, from constant to constant, and has never read past the next one
(`fillInLengths_eq`). The loop behind it copies what stands between the constants, and the
number of bytes it copies is never negative (`replaceConstants_eq`). Both rest on the recorded
spans lying one behind the other (`Ahead`).

So the normalized text is the statement with its recorded spans replaced from left to right
(`normalizeQuery_replaces`), also when another extension has filled in the lengths before.
-/

namespace PgStatCh

open Lib

/-! ## Tokens -/

/-- Tokens are not empty and come one behind the other. -/
structure Lexed (tokens : List Token) : Prop where
  nonempty : ∀ t ∈ tokens, t.loc < t.stop
  inOrder : tokens.Pairwise fun t t' => t.stop ≤ t'.loc

/-- Where the constant at `loc` stops: with the token there, or, if that begins with a minus
sign, with the next one. -/
def constantStop (query : List UInt8) (loc : ℕ) : List Token → Option ℕ
  | [] => none
  | t :: ts =>
    if t.loc = loc then
      if query[loc]? = some minusSign then ts.head?.map Token.stop else some t.stop
    else constantStop query loc ts

theorem constantStop_of_ne {query : List UInt8} {loc : ℕ} {t : Token} {ts : List Token}
    (h : t.loc ≠ loc) : constantStop query loc (t :: ts) = constantStop query loc ts := by
  rw [constantStop, if_neg h]

theorem exists_token_of_constantStop {query : List UInt8} {loc stop : ℕ} {ts : List Token}
    (h : constantStop query loc ts = some stop) : ∃ t ∈ ts, t.loc = loc := by
  induction ts with
  | nil => cases h
  | cons t ts ih =>
    by_cases hloc : t.loc = loc
    · exact ⟨t, List.mem_cons_self, hloc⟩
    · rw [constantStop_of_ne hloc] at h
      obtain ⟨t', ht', hloc'⟩ := ih h
      exact ⟨t', List.mem_cons_of_mem _ ht', hloc'⟩

namespace Lexed

variable {query : List UInt8} {loc stop : ℕ} {t : Token} {ts : List Token}

theorem tail (h : Lexed (t :: ts)) : Lexed ts where
  nonempty := fun t' ht' => h.nonempty t' (List.mem_cons_of_mem _ ht')
  inOrder := h.inOrder.of_cons

theorem lt_of_mem (h : Lexed (t :: ts)) {t' : Token} (ht' : t' ∈ ts) : t.loc < t'.loc :=
  (h.nonempty t List.mem_cons_self).trans_le (List.rel_of_pairwise_cons h.inOrder ht')

theorem lt_constantStop (h : Lexed ts) (hstop : constantStop query loc ts = some stop) :
    loc < stop := by
  induction ts with
  | nil => cases hstop
  | cons t ts ih =>
    rw [constantStop] at hstop
    split at hstop
    · next hloc =>
      split at hstop
      · -- the number lies behind its sign
        obtain ⟨t', ht', rfl⟩ := Option.map_eq_some_iff.mp hstop
        have hmem := List.mem_of_mem_head? ht'
        have hlt := h.lt_of_mem hmem
        have hpos := h.tail.nonempty t' hmem
        omega
      · have hpos := h.nonempty t List.mem_cons_self
        have heq := Option.some.inj hstop
        omega
    · exact ih h.tail hstop

/-- The scanner reads on to a constant that it has not read past, and to its end; the
constants behind it are still to come. -/
theorem findConstant_eq (h : Lexed ts) (hstop : constantStop query loc ts = some stop)
    (more : List Token) :
    ∃ t ts', findConstant query loc (ts ++ more) = some (t, ts' ++ more) ∧ t.stop = stop ∧
      Lexed ts' ∧
        ∀ loc', stop ≤ loc' → constantStop query loc' ts' = constantStop query loc' ts := by
  induction ts with
  | nil => cases hstop
  | cons t ts ih =>
    by_cases hloc : t.loc = loc
    · have hpos := h.nonempty t List.mem_cons_self
      rw [constantStop, if_pos hloc] at hstop
      rw [List.cons_append, findConstant, if_pos (by omega), Int.toNat_natCast]
      by_cases hminus : query[loc]? = some minusSign
      · -- the sign is read, and the number is the next token
        rw [if_pos hminus] at hstop ⊢
        cases ts with
        | nil => cases hstop
        | cons t' ts =>
          have heq : t'.stop = stop := Option.some.inj hstop
          have hlt := h.lt_of_mem List.mem_cons_self
          have hpos' := h.tail.nonempty t' List.mem_cons_self
          refine ⟨t', ts, rfl, heq, h.tail.tail, ?_⟩
          intro loc' hle
          rw [constantStop_of_ne (by omega), constantStop_of_ne (by omega)]
      · rw [if_neg hminus] at hstop ⊢
        have heq : t.stop = stop := Option.some.inj hstop
        refine ⟨t, ts, rfl, heq, h.tail, ?_⟩
        intro loc' hle
        rw [constantStop_of_ne (by omega)]
    · -- a token before the constant
      rw [constantStop_of_ne hloc] at hstop
      obtain ⟨t₁, ht₁, hloc₁⟩ := exists_token_of_constantStop hstop
      have hlt := h.lt_of_mem ht₁
      have hbehind := h.tail.lt_constantStop hstop
      obtain ⟨t', ts', hfind, heq, hts', hrest⟩ := ih h.tail hstop
      refine ⟨t', ts', ?_, heq, hts', ?_⟩
      · rw [List.cons_append, findConstant, if_neg (by omega)]
        exact hfind
      · intro loc' hle
        rw [hrest loc' hle, constantStop_of_ne (by omega)]

end Lexed

theorem takeWhile_ne_zero {l : List UInt8} (h : 0 ∉ l) (l' : List UInt8) :
    (l ++ 0 :: l').takeWhile (· ≠ 0) = l := by
  rw [List.takeWhile_append_of_pos]
  · simp
  · intro b hb
    simpa using fun h0 : b = 0 => h (h0 ▸ hb)

/-- The length of a token that has just been returned, from any place before its end. -/
theorem strlen_scanbuf {text : List UInt8} (hnul : 0 ∉ text) {a : ℕ} {t : Token}
    (ha : a ≤ t.stop) (ht : t.stop ≤ text.length) (after : List UInt8) :
    strlen ((scanbuf (text ++ after) t).drop a) = t.stop - a := by
  have hbuf : scanbuf (text ++ after) t =
      text.take t.stop ++ 0 :: (text ++ after ++ [0, 0]).drop (t.stop + 1) := by
    rw [scanbuf, List.set_eq_take_append_cons_drop, if_pos (by simp; omega), List.append_assoc,
      List.take_append_of_le_length ht]
  rw [hbuf, List.drop_append_of_le_length (by simp; omega), strlen, takeWhile_ne_zero]
  · simp [ht]
  · intro h0
    exact hnul (List.mem_of_mem_take (List.mem_of_mem_drop h0))

/-! ## The order of the locations -/

theorem compLocation_eq (a b : LocationLen) :
    compLocation a b = compare a.location b.location := by
  rw [compLocation]
  rcases lt_trichotomy a.location b.location with hlt | heq | hgt
  · rw [if_pos hlt, compare_lt_iff_lt.mpr hlt]
  · rw [if_neg (by omega), if_neg (by omega), compare_eq_iff_eq.mpr heq]
  · rw [if_neg (by omega), if_pos hgt, compare_gt_iff_gt.mpr hgt]

/-- The locations in the order in which they are worked on. -/
def sortLocations (qsort : Sorting) (locs : List LocationLen) : List LocationLen :=
  if 1 < locs.length then qsort.sort compLocation locs else locs

theorem mem_sortLocations {qsort : Sorting} {locs : List LocationLen} {l : LocationLen} :
    l ∈ sortLocations qsort locs ↔ l ∈ locs := by
  rw [sortLocations]
  split
  · exact qsort.mem_sort
  · rfl

theorem length_sortLocations (qsort : Sorting) (locs : List LocationLen) :
    (sortLocations qsort locs).length = locs.length := by
  rw [sortLocations]
  split
  · exact (qsort.perm _ locs).length_eq
  · rfl

theorem sortLocations_sorted (qsort : Sorting) (locs : List LocationLen) :
    (sortLocations qsort locs).Pairwise fun l l' => l.location ≤ l'.location := by
  have hcmp : compLocation = fun a b => compare a.location b.location := by
    funext a b
    exact compLocation_eq a b
  rw [sortLocations, hcmp]
  split
  · exact qsort.sorted _ locs
  · next hlen => exact pairwise_of_not_one_lt hlen

theorem sortLocations_of_sorted {qsort : Sorting} (hsort : qsort.KeepsSorted)
    {locs : List LocationLen} (h : locs.Pairwise fun l l' => l.location ≤ l'.location) :
    sortLocations qsort locs = locs := by
  rw [sortLocations]
  split
  · refine hsort _ _ (h.imp fun hle => ?_)
    rw [compLocation_eq, ne_eq, compare_gt_iff_gt]
    omega
  · rfl

/-! ## What the normalized text is -/

/-- A part of the statement that a placeholder takes the place of. -/
structure Span where
  start : ℕ
  stop : ℕ
  squashed : Bool
  deriving DecidableEq

/-- The text from byte `k` on, with these spans replaced by the next placeholders behind `n`. -/
def replaceSpans (text : List UInt8) (k n : ℕ) : List Span → List UInt8
  | [] => text.drop k
  | span :: spans =>
    (text.drop k).take (span.start - k) ++ placeholder (n + 1) span.squashed ++
      replaceSpans text span.stop (n + 1) spans

/-- A statement in its source text, with its tokens. -/
structure Scanned where
  text : List UInt8
  /-- what follows the statement -/
  after : List UInt8 := []
  queryLoc : ℤ := 0
  tokens : List Token
  noNul : 0 ∉ text
  lexed : Lexed tokens

namespace Scanned

variable (s : Scanned)

def query : List UInt8 := s.text ++ s.after

/-- The scanner returns these tokens, and then what it finds behind the statement. -/
def ScannedBy (core : PgCore) : Prop := ∃ more, core.lex s.query = s.tokens ++ more

/-- Where in the statement a recorded location is. -/
def start (l : LocationLen) : ℕ := (l.location - s.queryLoc).toNat

/-- The location of a byte of the statement. -/
def location (n : ℕ) : ℤ := s.queryLoc + n

/-- Where what was recorded stops: a list with its length, a constant with its token. -/
def stop (l : LocationLen) : ℕ :=
  if l.squashed then s.start l + l.length.toNat
  else (constantStop s.query (s.start l) s.tokens).getD 0

def span (l : LocationLen) : Span := ⟨s.start l, s.stop l, l.squashed⟩

/-- A location is that of a list or the start of a token, in the statement. -/
structure Fits (l : LocationLen) : Prop where
  le_location : s.queryLoc ≤ l.location
  stop_le : s.stop l ≤ s.text.length
  list : l.squashed = true → 0 ≤ l.length
  token : l.squashed = false → (constantStop s.query (s.start l) s.tokens).isSome = true

/-- What is recorded at different locations does not overlap. -/
structure Records (locs : List LocationLen) : Prop where
  fits : ∀ l ∈ locs, s.Fits l
  apart : ∀ l ∈ locs, ∀ l' ∈ locs, s.start l < s.start l' → s.stop l ≤ s.start l'

/-- The spans that are replaced, each once, from left to right. External parameters are
replaced exactly if there are squashed lists. -/
def spans (j : JumbleState) : List Span :=
  (((j.clocations.filter fun l => !l.externParam || j.hasSquashedLists).map s.span).dedup).insertionSort
    fun a b => a.start ≤ b.start

variable {s}

theorem location_inj {m n : ℕ} : s.location m = s.location n ↔ m = n := by
  unfold location
  omega

namespace Fits

variable {l : LocationLen}

theorem location_eq (h : s.Fits l) : l.location = s.location (s.start l) := by
  have hle := h.le_location
  unfold location start
  omega

theorem sub_queryLoc (h : s.Fits l) : l.location - s.queryLoc = s.start l := by
  rw [h.location_eq, location]
  omega

theorem stop_of_list (hlist : l.squashed = true) : s.stop l = s.start l + l.length.toNat := by
  rw [stop, if_pos hlist]

theorem constantStop_eq (h : s.Fits l) (hlist : l.squashed = false) :
    constantStop s.query (s.start l) s.tokens = some (s.stop l) := by
  obtain ⟨n, hn⟩ := Option.isSome_iff_exists.mp (h.token hlist)
  simp [stop, hlist, hn]

theorem start_le_stop (h : s.Fits l) : s.start l ≤ s.stop l := by
  cases hlist : l.squashed with
  | true =>
    rw [stop_of_list hlist]
    exact Nat.le_add_right _ _
  | false => exact (s.lexed.lt_constantStop (h.constantStop_eq hlist)).le

end Fits

/-! ## `FillInConstantLengths` -/

/-- A location with its length; the one before it starts at `prev`. -/
def filledLen (s : Scanned) (prev : Option ℕ) (l : LocationLen) : LocationLen :=
  { l with length := if prev = some (s.start l) then -1 else (s.stop l : ℤ) - s.start l }

/-- The locations with their lengths. -/
def filled (s : Scanned) : Option ℕ → List LocationLen → List LocationLen
  | _, [] => []
  | prev, l :: ls => s.filledLen prev l :: s.filled (some (s.start l)) ls

theorem fillInLengths_eq {prev : Option ℕ} {k : ℕ} {ls : List LocationLen} {ts : List Token}
    (hfits : ∀ l ∈ ls, s.Fits l) (h : Ahead s.start s.stop prev k ls) (hts : Lexed ts)
    (hrest : ∀ loc, k ≤ loc → constantStop s.query loc ts = constantStop s.query loc s.tokens)
    (more : List Token) :
    fillInLengths s.query s.queryLoc (prev.map s.location) ls (ts ++ more) = s.filled prev ls := by
  induction ls generalizing prev k ts with
  | nil => rfl
  | cons l ls ih =>
    have hl := hfits l List.mem_cons_self
    have hfits' : ∀ l' ∈ ls, s.Fits l' := fun l' hl' => hfits l' (List.mem_cons_of_mem _ hl')
    have hsame : prev.map s.location = some l.location ↔ prev = some (s.start l) := by
      cases prev with
      | none => simp
      | some p => simp [hl.location_eq, location_inj]
    have hnext : some l.location = (some (s.start l)).map s.location :=
      congrArg some hl.location_eq
    rw [fillInLengths, filled, filledLen]
    by_cases hprev : prev = some (s.start l)
    · -- a duplicate, which costs no token
      rw [if_pos (hsame.mpr hprev), if_pos hprev, hnext, ih hfits' h.skip hts hrest]
    rw [if_neg (hsame.not.mpr hprev), if_neg hprev]
    by_cases hlist : l.squashed = true
    · -- a list comes with its length, and the scanner is not asked
      have hlen : (s.stop l : ℤ) - s.start l = l.length := by
        have hpos := hl.list hlist
        rw [Fits.stop_of_list hlist]
        omega
      rw [if_pos hlist, hnext, ih hfits' h.skip hts hrest, hlen]
    · -- the scanner has not read past the constant
      have hk := h.le_start hprev
      have hle := hl.start_le_stop
      obtain ⟨t, ts', hfind, hstop, hts', hbehind⟩ := hts.findConstant_eq
        ((hrest _ hk).trans (hl.constantStop_eq (Bool.not_eq_true _ ▸ hlist))) more
      have hlen : strlen ((scanbuf s.query t).drop (s.start l)) = s.stop l - s.start l := by
        rw [← hstop]
        exact strlen_scanbuf s.noNul (by omega) (by rw [hstop]; exact hl.stop_le) s.after
      rw [if_neg hlist]
      simp only [hl.sub_queryLoc, hfind, Int.toNat_natCast, hlen]
      rw [hnext, ih hfits' h.pass hts' fun loc hloc =>
        (hbehind loc hloc).trans (hrest loc (hk.trans (hle.trans hloc))), Int.natCast_sub hle]

/-! ## The loop -/

/-- Copying the bytes between two places of the statement. -/
theorem append_slice {k m : ℕ} (hkm : k ≤ m) (hm : m ≤ s.text.length) {len : ℤ}
    (hlen : len = m - k) (normQuery : List UInt8) :
    appendBinaryStringInfo normQuery s.query k len =
      .ok (normQuery ++ (s.text.drop k).take (m - k)) := by
  have hnat : len.toNat = m - k := by omega
  rw [appendBinaryStringInfo, if_neg (by omega), hnat, Int.toNat_natCast, query,
    List.drop_append_of_le_length (by omega), List.take_append_of_le_length (by simp; omega)]

section Loop

variable {query : List UInt8} {queryLoc : ℤ} {j : JumbleState} {l : LocationLen}
  {ls : List LocationLen} {v : NormLoop}

theorem replaceConstants_preserved (h : j.shouldPreserveExternalParam l = true) :
    replaceConstants query queryLoc j (l :: ls) v = replaceConstants query queryLoc j ls v := by
  rw [replaceConstants, if_pos h]

theorem replaceConstants_duplicate (h : l.length < 0) :
    replaceConstants query queryLoc j (l :: ls) v = replaceConstants query queryLoc j ls v := by
  rw [replaceConstants]
  simp only [h, if_true, ite_self]

theorem replaceConstants_constant (h : ¬ j.shouldPreserveExternalParam l = true)
    (hlen : 0 ≤ l.length) {chunk : List UInt8}
    (hchunk : appendBinaryStringInfo v.normQuery query v.querLoc
      (l.location - queryLoc - v.lastOff - v.lastTokLen) = .ok chunk) :
    replaceConstants query queryLoc j (l :: ls) v = replaceConstants query queryLoc j ls
      { normQuery := chunk ++
          placeholder (v.numConstantsReplaced + 1 + j.highestExternParamId) l.squashed
        querLoc := l.location - queryLoc + l.length
        lastOff := l.location - queryLoc
        lastTokLen := l.length
        numConstantsReplaced := v.numConstantsReplaced + 1 } := by
  rw [replaceConstants, if_neg h]
  simp only [Int.not_lt.mpr hlen, if_false, hchunk]
  rfl

end Loop

/-- The loop variables when everything before byte `k` is done. -/
structure Loop (s : Scanned) (k : ℕ) (v : NormLoop) : Prop where
  querLoc : v.querLoc = k
  last : v.lastOff + v.lastTokLen = k
  le : k ≤ s.text.length

theorem replaceConstants_eq (j : JumbleState) {prev : Option ℕ} {k : ℕ} {ls : List LocationLen}
    {v : NormLoop} (hfits : ∀ l ∈ ls, s.Fits l) (h : Ahead s.start s.stop prev k ls)
    (hv : Loop s k v) :
    (do let v ← replaceConstants s.query s.queryLoc j (s.filled prev ls) v
        appendBinaryStringInfo v.normQuery s.query v.querLoc (s.text.length - v.querLoc)) =
      .ok (v.normQuery ++ replaceSpans s.text k (v.numConstantsReplaced + j.highestExternParamId)
        (((firsts s.start prev ls).filter fun l =>
          !j.shouldPreserveExternalParam l).map s.span)) := by
  induction ls generalizing prev k v with
  | nil =>
    change appendBinaryStringInfo v.normQuery s.query v.querLoc _ = _
    rw [hv.querLoc, append_slice hv.le le_rfl rfl]
    simp [firsts, replaceSpans]
  | cons l ls ih =>
    have hl := hfits l List.mem_cons_self
    have hfits' : ∀ l' ∈ ls, s.Fits l' := fun l' hl' => hfits l' (List.mem_cons_of_mem _ hl')
    have hflags : j.shouldPreserveExternalParam (s.filledLen prev l) =
        j.shouldPreserveExternalParam l := rfl
    rw [filled, firsts]
    by_cases hprev : prev = some (s.start l)
    · -- a duplicate
      rw [if_pos hprev, replaceConstants_duplicate (by simp [filledLen, hprev])]
      exact ih hfits' h.skip hv
    rw [if_neg hprev]
    by_cases hkeep : j.shouldPreserveExternalParam l = true
    · -- an external parameter that stays
      rw [replaceConstants_preserved (hflags.trans hkeep),
        List.filter_cons_of_neg (by simp [hkeep])]
      exact ih hfits' h.skip hv
    · -- the bytes since the last one, and a placeholder
      have hk := h.le_start hprev
      have hle := hl.start_le_stop
      have hstop := hl.stop_le
      have hlen : (s.filledLen prev l).length = (s.stop l : ℤ) - s.start l := by
        simp [filledLen, hprev]
      have hoff : (s.filledLen prev l).location - s.queryLoc = s.start l := hl.sub_queryLoc
      have hlast := hv.last
      have hchunk := append_slice (s := s) hk (hle.trans hstop) (by omega :
        (s.filledLen prev l).location - s.queryLoc - v.lastOff - v.lastTokLen = _) v.normQuery
      rw [← hv.querLoc] at hchunk
      rw [replaceConstants_constant (by rwa [hflags]) (by omega) hchunk,
        List.filter_cons_of_pos (by simpa using hkeep),
        ih hfits' h.pass ⟨by simp only; omega, by simp only; omega, hstop⟩]
      have hn : v.numConstantsReplaced + 1 + j.highestExternParamId =
          v.numConstantsReplaced + j.highestExternParamId + 1 := by omega
      simp only [List.map_cons, replaceSpans, List.append_assoc, hn]
      rfl

/-! ## The whole text -/

theorem Records.ahead {locs : List LocationLen} (h : s.Records locs) (qsort : Sorting) :
    Ahead s.start s.stop none 0 (sortLocations qsort locs) where
  sorted := by
    refine (sortLocations_sorted qsort locs).imp fun hle => ?_
    unfold start
    omega
  apart := fun l hl l' hl' => h.apart l (mem_sortLocations.mp hl) l' (mem_sortLocations.mp hl')
  prev_le := fun p hp => by cases hp
  ahead := fun _ _ => Or.inr (Nat.zero_le _)

/-- Of several locations at one place, the first in the order counts. -/
theorem normalizeQuery_eq {core : PgCore} (hlex : s.ScannedBy core) {j : JumbleState}
    (hj : s.Records j.clocations) (hne : j.clocations ≠ []) :
    pschNormalizeQuery core s.query s.queryLoc s.text.length (some j) =
      .ok (some (replaceSpans s.text 0 j.highestExternParamId
        (((firsts s.start none (sortLocations core.qsort j.clocations)).filter fun l =>
          !j.shouldPreserveExternalParam l).map s.span))) := by
  obtain ⟨more, hlex⟩ := hlex
  have hcount : ¬ j.clocations.length ≤ 0 := by simpa using hne
  have hahead := hj.ahead core.qsort
  have hfits : ∀ l ∈ sortLocations core.qsort j.clocations, s.Fits l :=
    fun l hl => hj.fits l (mem_sortLocations.mp hl)
  have hfill : fillInConstantLengths core s.query s.queryLoc j.clocations =
      s.filled none (sortLocations core.qsort j.clocations) := by
    rw [fillInConstantLengths, hlex]
    exact fillInLengths_eq hfits hahead s.lexed (fun _ _ => rfl) more
  have hloop := replaceConstants_eq j hfits hahead
    (⟨rfl, rfl, Nat.zero_le _⟩ : Loop s 0 {})
  rw [List.nil_append, Nat.zero_add] at hloop
  -- the loop and the copying of the rest, as `replaceConstants_eq` has them
  simp only [pschNormalizeQuery, hcount, if_false, hfill]
  rw [← bind_assoc, hloop]
  rfl

/-! ### Duplicates -/

/-- Locations that were recorded more than once, with the same flags each time. -/
def Agree (locs : List LocationLen) : Prop :=
  ∀ l ∈ locs, ∀ l' ∈ locs, l.location = l'.location →
    l.squashed = l'.squashed ∧ l.externParam = l'.externParam ∧
      (l.squashed = true → l.length = l'.length)

theorem Agree.span_eq {locs : List LocationLen} (h : Agree locs) (hfits : s.Records locs)
    {l l' : LocationLen} (hl : l ∈ locs) (hl' : l' ∈ locs) (hstart : s.start l = s.start l') :
    l.externParam = l'.externParam ∧ s.span l = s.span l' := by
  have hloc : l.location = l'.location := by
    rw [(hfits.fits l hl).location_eq, (hfits.fits l' hl').location_eq, hstart]
  obtain ⟨hsquashed, hparam, hlen⟩ := h l hl l' hl' hloc
  refine ⟨hparam, ?_⟩
  unfold span stop
  rw [← hstart, ← hsquashed]
  cases hlist : l.squashed with
  | true => rw [hlen hlist]
  | false => rfl

/-- The first locations of their places are all there is to replace. -/
theorem firsts_span_eq {j : JumbleState} (hj : s.Records j.clocations)
    (hagree : Agree j.clocations) (qsort : Sorting) :
    ((firsts s.start none (sortLocations qsort j.clocations)).filter fun l =>
      !j.shouldPreserveExternalParam l).map s.span = s.spans j := by
  have hkeep : (fun l => !j.shouldPreserveExternalParam l) =
      fun l : LocationLen => !l.externParam || j.hasSquashedLists := by
    funext l
    simp [JumbleState.shouldPreserveExternalParam]
  have hsub : ∀ {l}, l ∈ firsts s.start none (sortLocations qsort j.clocations) →
      l ∈ j.clocations :=
    fun hl => mem_sortLocations.mp ((firsts_sublist _ _ _).subset hl)
  rw [hkeep]
  apply eq_insertionSort_dedup
  · exact List.pairwise_map.mpr ((hj.ahead qsort).firsts_lt.1.filter _)
  · intro span
    simp only [List.mem_map, List.mem_filter]
    constructor
    · rintro ⟨l, ⟨hl, hreplaced⟩, rfl⟩
      exact ⟨l, ⟨hsub hl, hreplaced⟩, rfl⟩
    · rintro ⟨l, ⟨hl, hreplaced⟩, rfl⟩
      -- the first location of this place stands for it
      have hsorted : l ∈ sortLocations qsort j.clocations := mem_sortLocations.mpr hl
      obtain ⟨l', hl', hstart⟩ := exists_mem_firsts hsorted (Option.some_ne_none (s.start l)).symm
      obtain ⟨hparam, hspan⟩ := hagree.span_eq hj (hsub hl') hl hstart
      exact ⟨l', ⟨hl', by rw [hparam]; exact hreplaced⟩, hspan⟩

end Scanned

/-! ### A second run -/

theorem fillInLengths_location (query : List UInt8) (queryLoc : ℤ) (prev : Option ℤ)
    (ls : List LocationLen) (ts : List Token) :
    (fillInLengths query queryLoc prev ls ts).map LocationLen.location =
      ls.map LocationLen.location := by
  induction ls generalizing prev ts with
  | nil => rfl
  | cons l ls ih =>
    rw [fillInLengths]
    split
    · rw [List.map_cons, List.map_cons, ih]
    · split
      · rw [List.map_cons, List.map_cons, ih]
      · simp only
        split
        · rfl
        · rw [List.map_cons, List.map_cons, ih]

/-- Lengths that are there already do not matter. -/
theorem fillInLengths_again (query : List UInt8) (queryLoc : ℤ) (prev : Option ℤ)
    (ls : List LocationLen) (ts : List Token) :
    fillInLengths query queryLoc prev (fillInLengths query queryLoc prev ls ts) ts =
      fillInLengths query queryLoc prev ls ts := by
  induction ls generalizing prev ts with
  | nil => rfl
  | cons l ls ih =>
    by_cases hprev : prev = some l.location
    · rw [fillInLengths, if_pos hprev, fillInLengths, if_pos hprev]
      simp only
      rw [ih]
    by_cases hlist : l.squashed = true
    · rw [fillInLengths, if_neg hprev, if_pos hlist, fillInLengths, if_neg hprev, if_pos hlist, ih]
    cases hfind : findConstant query (l.location - queryLoc) ts with
    | none =>
      -- no more tokens: the loop is left
      have hstop : fillInLengths query queryLoc prev (l :: ls) ts = l :: ls := by
        simp only [fillInLengths, if_neg hprev, if_neg hlist, hfind]
      rw [hstop, hstop]
    | some found =>
      obtain ⟨t, ts'⟩ := found
      -- whatever length was there, the token's takes its place
      have hgo : ∀ n ls, fillInLengths query queryLoc prev ({ l with length := n } :: ls) ts =
          { l with length := strlen ((scanbuf query t).drop (l.location - queryLoc).toNat) } ::
            fillInLengths query queryLoc (some l.location) ls ts' := by
        intro n ls
        simp only [fillInLengths, if_neg hprev, if_neg hlist, hfind]
      have hfirst := hgo l.length ls
      rw [hfirst, hgo, ih]

theorem fillInConstantLengths_again {core : PgCore} (hsort : core.qsort.KeepsSorted)
    (query : List UInt8) (queryLoc : ℤ) (locs : List LocationLen) :
    fillInConstantLengths core query queryLoc (fillInConstantLengths core query queryLoc locs) =
      fillInConstantLengths core query queryLoc locs := by
  have heq : ∀ locs, fillInConstantLengths core query queryLoc locs =
      fillInLengths query queryLoc none (sortLocations core.qsort locs) (core.lex query) :=
    fun _ => rfl
  -- the lengths change, and the locations stay in order
  have hsorted : (fillInConstantLengths core query queryLoc locs).Pairwise
      fun l l' => l.location ≤ l'.location := by
    have hlocs := List.pairwise_map.mpr (sortLocations_sorted core.qsort locs)
    rw [← fillInLengths_location query queryLoc none _ (core.lex query)] at hlocs
    exact List.pairwise_map.mp hlocs
  rw [heq (fillInConstantLengths core query queryLoc locs), sortLocations_of_sorted hsort hsorted,
    heq, fillInLengths_again]

/-- The loop takes the locations from its argument. -/
theorem replaceConstants_clocations (query : List UInt8) (queryLoc : ℤ) (j : JumbleState)
    (locs ls : List LocationLen) (v : NormLoop) :
    replaceConstants query queryLoc { j with clocations := locs } ls v =
      replaceConstants query queryLoc j ls v := by
  induction ls generalizing v with
  | nil => rfl
  | cons l ls ih =>
    simp only [replaceConstants, ih]
    rfl

/-- The normalized text is the statement with the recorded spans replaced from left to right
by the placeholders behind those of the external parameters. It is the same when the lengths
have been filled in before. -/
theorem normalizeQuery_replaces {core : PgCore} {s : Scanned} (hlex : s.ScannedBy core)
    {j : JumbleState} (hj : s.Records j.clocations) (hagree : Scanned.Agree j.clocations) :
    pschNormalizeQuery core s.query s.queryLoc s.text.length (some j) =
      .ok (if j.clocations = [] then none
        else some (replaceSpans s.text 0 j.highestExternParamId (s.spans j))) ∧
    (core.qsort.KeepsSorted →
      pschNormalizeQuery core s.query s.queryLoc s.text.length (some { j with
          clocations := fillInConstantLengths core s.query s.queryLoc j.clocations }) =
        pschNormalizeQuery core s.query s.queryLoc s.text.length (some j)) := by
  constructor
  · by_cases hempty : j.clocations = []
    · rw [if_pos hempty, pschNormalizeQuery, hempty]
      rfl
    · rw [if_neg hempty, Scanned.normalizeQuery_eq hlex hj hempty,
        Scanned.firsts_span_eq hj hagree]
  · intro hsort
    have hlen : (fillInConstantLengths core s.query s.queryLoc j.clocations).length =
        j.clocations.length := by
      have hlocs := congrArg List.length (fillInLengths_location s.query s.queryLoc none
        (sortLocations core.qsort j.clocations) (core.lex s.query))
      rw [List.length_map, List.length_map, length_sortLocations] at hlocs
      exact hlocs
    simp only [pschNormalizeQuery, hlen, fillInConstantLengths_again hsort,
      replaceConstants_clocations]

/-- The tokens of `f(7,8)=-1`. -/
def callTokens : List Token :=
  [⟨0, 1⟩, ⟨1, 2⟩, ⟨2, 3⟩, ⟨3, 4⟩, ⟨4, 5⟩, ⟨5, 6⟩, ⟨6, 7⟩, ⟨7, 8⟩, ⟨8, 9⟩]

theorem callTokens_lexed : Lexed callTokens := ⟨by decide, by decide⟩

theorem call_noNul : 0 ∉ ascii "f(7,8)=-1" := by decide

/-- `f(7,8)=-1` between other statements. -/
def callScanned : Scanned where
  text := ascii "f(7,8)=-1"
  after := ascii ";g"
  queryLoc := 10
  tokens := callTokens
  noNul := call_noNul
  lexed := callTokens_lexed

def callCore : PgCore where
  cleanQuerytext := fun source location len => (source, location, len)
  lex := fun _ => callTokens ++ [⟨9, 10⟩, ⟨10, 11⟩]
  qsort := .insertion

/-- The number, the list, and the number once more. -/
def callJumble : JumbleState where
  clocations := [⟨17, -1, false, false⟩, ⟨12, 3, true, false⟩, ⟨17, -1, false, false⟩]
  hasSquashedLists := true

theorem callJumble_records : callScanned.Records callJumble.clocations := by
  constructor
  · simp only [callJumble, List.forall_mem_cons]
    refine ⟨⟨?_, ?_, ?_, ?_⟩, ⟨?_, ?_, ?_, ?_⟩, ⟨?_, ?_, ?_, ?_⟩, List.forall_mem_nil _⟩ <;>
      decide +kernel
  · decide +kernel

theorem callJumble_agree : Scanned.Agree callJumble.clocations := by
  unfold Scanned.Agree
  decide

theorem normalizeQuery_replaces_call :
    pschNormalizeQuery callCore callScanned.query 10 9 (some callJumble) =
      .ok (some (ascii "f($1 /*, ... */)=$2")) ∧
    pschNormalizeQuery callCore callScanned.query 10 9 (some { callJumble with
        clocations := fillInConstantLengths callCore callScanned.query 10 callJumble.clocations }) =
      .ok (some (ascii "f($1 /*, ... */)=$2")) := by
  have hlex : callScanned.ScannedBy callCore := ⟨[⟨9, 10⟩, ⟨10, 11⟩], rfl⟩
  obtain ⟨hfirst, hsecond⟩ := normalizeQuery_replaces hlex callJumble_records callJumble_agree
  have htext : replaceSpans callScanned.text 0 0 (callScanned.spans callJumble) =
      ascii "f($1 /*, ... */)=$2" := by decide +kernel
  have hne : callJumble.clocations ≠ [] := List.cons_ne_nil _ _
  rw [if_neg hne] at hfirst
  have hresult := hfirst.trans (congrArg (fun text => Except.ok (some text)) htext)
  exact ⟨hresult, (hsecond Sorting.insertion_keepsSorted).trans hresult⟩

end PgStatCh
