import PgStatCh.Hooks.Cache
import PgStatCh.Lib.Sort
import Mathlib.Data.List.DropRight

/-!
# Hooks.Normalize — the query text that is exported

`PschPostParseAnalyze` (hooks.c) decides at parse time which text a query is exported
with: `PschNormalizeQuery` (query_normalize.c) when the jumbling has recorded constants,
and the statement as it is (`PschCopyTrimmedStatement`, string_utils.h) otherwise.

PostgreSQL's part is a parameter: `CleanQuerytext`, the tokens that `core_yylex` returns
one after the other, and `qsort`. Before PostgreSQL 18 no location is squashed or an
external parameter. A text is the list of its bytes, without the final NUL.
-/

namespace PgStatCh

open Lib

/-- A token of the scanner. -/
structure Token where
  /-- `yylloc` -/
  loc : ℕ
  /-- where the scanner has put a NUL into its buffer when it returns the token -/
  stop : ℕ
  deriving DecidableEq

structure LocationLen where
  location : ℤ
  length : ℤ
  squashed : Bool := false
  externParam : Bool := false
  deriving DecidableEq

structure JumbleState where
  clocations : List LocationLen
  highestExternParamId : ℕ := 0
  hasSquashedLists : Bool := false

/-- What the hook uses of PostgreSQL. -/
structure PgCore where
  /-- source text, location and length of the statement; the text from its first byte on,
  its location and its length -/
  cleanQuerytext : List UInt8 → ℤ → ℤ → List UInt8 × ℤ × ℤ
  /-- the tokens of a text -/
  lex : List UInt8 → List Token
  qsort : Sorting

/-! ## C strings -/

def strlen (s : List UInt8) : ℕ := (s.takeWhile (· ≠ 0)).length

/-- `isspace`, in the C locale. -/
def isspace (c : UInt8) : Bool := c == 32 || (9 ≤ c && c ≤ 13)

/-- The bytes of a text of the program itself. -/
def ascii (s : String) : List UInt8 := s.toList.map fun c => UInt8.ofNat c.toNat

/-- `'-'`. -/
def minusSign : UInt8 := 45

/-- The scan buffer when this token has just been returned. -/
def scanbuf (query : List UInt8) (t : Token) : List UInt8 := (query ++ [0, 0]).set t.stop 0

/-! ## `PschNormalizeQuery` -/

def compLocation (a b : LocationLen) : Ordering :=
  if a.location < b.location then .lt else if b.location < a.location then .gt else .eq

/-- `core_yylex`: the next token and the tokens behind it, or nothing. -/
def coreYylex : List Token → Option (Token × List Token)
  | [] => none
  | t :: ts => some (t, ts)

/-- The scanner reads on to the constant at `loc`: the token that ends it and the tokens
behind it, or nothing when there are no more tokens. -/
def findConstant (query : List UInt8) (loc : ℤ) : List Token → Option (Token × List Token)
  | [] => none
  | t :: ts =>
    if loc ≤ t.loc then
      if query[loc.toNat]? = some minusSign then
        -- a negative number, whose sign is a token of its own
        coreYylex ts
      else some (t, ts)
    else findConstant query loc ts

/-- The loop of `FillInConstantLengths`, from a location on whose predecessor is at
`prev`. -/
def fillInLengths (query : List UInt8) (queryLoc : ℤ) :
    Option ℤ → List LocationLen → List Token → List LocationLen
  | _, [], _ => []
  | prev, l :: ls, ts =>
    if prev = some l.location then
      { l with length := -1 } :: fillInLengths query queryLoc (some l.location) ls ts
    else if l.squashed then l :: fillInLengths query queryLoc (some l.location) ls ts
    else
      let loc := l.location - queryLoc
      match findConstant query loc ts with
      | none => l :: ls
      | some (t, ts') =>
        { l with length := strlen ((scanbuf query t).drop loc.toNat) } ::
          fillInLengths query queryLoc (some l.location) ls ts'

def fillInConstantLengths (core : PgCore) (query : List UInt8) (queryLoc : ℤ)
    (locs : List LocationLen) : List LocationLen :=
  let sorted := if 1 < locs.length then core.qsort.sort compLocation locs else locs
  fillInLengths query queryLoc none sorted (core.lex query)

def JumbleState.shouldPreserveExternalParam (j : JumbleState) (l : LocationLen) : Bool :=
  l.externParam && !j.hasSquashedLists

/-- The local variables of the loop of `PschNormalizeQuery`. -/
structure NormLoop where
  normQuery : List UInt8 := []
  querLoc : ℤ := 0
  lastOff : ℤ := 0
  lastTokLen : ℤ := 0
  numConstantsReplaced : ℕ := 0

/-- `appendBinaryStringInfo(norm_query, query + start, len)`. -/
def appendBinaryStringInfo (normQuery query : List UInt8) (start len : ℤ) :
    Except Abort (List UInt8) :=
  if len < 0 then .error (.invalidEnlargement len)
  else .ok (normQuery ++ (query.drop start.toNat).take len.toNat)

/-- `"$%d%s"`. -/
def placeholder (n : ℕ) (squashed : Bool) : List UInt8 :=
  ascii ("$" ++ toString n ++ if squashed then " /*, ... */" else "")

/-- The loop of `PschNormalizeQuery`. -/
def replaceConstants (query : List UInt8) (queryLoc : ℤ) (j : JumbleState) :
    List LocationLen → NormLoop → Except Abort NormLoop
  | [], v => .ok v
  | l :: ls, v =>
    if j.shouldPreserveExternalParam l then replaceConstants query queryLoc j ls v
    else
      let off := l.location - queryLoc
      let tokLen := l.length
      if tokLen < 0 then replaceConstants query queryLoc j ls v
      else do
        let chunk ← appendBinaryStringInfo v.normQuery query v.querLoc
          (off - v.lastOff - v.lastTokLen)
        let n := v.numConstantsReplaced + 1 + j.highestExternParamId
        replaceConstants query queryLoc j ls
          { normQuery := chunk ++ placeholder n l.squashed
            querLoc := off + tokLen
            lastOff := off
            lastTokLen := tokLen
            numConstantsReplaced := v.numConstantsReplaced + 1 }

/-- `PschNormalizeQuery`; the new `*query_len_p` is the length of the text. -/
def pschNormalizeQuery (core : PgCore) (query : List UInt8) (queryLoc queryLen : ℤ)
    (jstate : Option JumbleState) : Except Abort (Option (List UInt8)) :=
  match jstate with
  | none => .ok none
  | some j =>
    if j.clocations.length ≤ 0 then .ok none
    else do
      let locs := fillInConstantLengths core query queryLoc j.clocations
      let v ← replaceConstants query queryLoc j locs {}
      let normQuery ← appendBinaryStringInfo v.normQuery query v.querLoc (queryLen - v.querLoc)
      pure (some normQuery)

/-! ## The hook -/

def pschCopyTrimmedStatement (queryText : List UInt8) (queryLen : ℤ) : Option (List UInt8) :=
  if queryLen ≤ 0 then none
  else some (((queryText.take queryLen.toNat).dropWhile isspace).rdropWhile isspace)

/-- What the hook reads of the parse state and of the query. -/
structure AnalyzedQuery where
  sourceText : List UInt8
  stmtLocation : ℤ := 0
  stmtLen : ℤ := 0
  queryId : UInt64

/-- The settings of the backend that the hook reads. -/
structure BackendSettings where
  pschEnabled : Bool := true
  parallelWorker : Bool := false
  normalizeCacheMax : ℤ := 32768

/-- The text that `PschPostParseAnalyze` stores, with its length. -/
def exportedQuery (core : PgCore) (query : AnalyzedQuery) (jstate : Option JumbleState) :
    Except Abort (Option (List UInt8 × ℕ)) :=
  let (queryText, queryLoc, queryLen) :=
    core.cleanQuerytext query.sourceText query.stmtLocation query.stmtLen
  if jstate.any fun j => 0 < j.clocations.length then do
    let text ← pschNormalizeQuery core queryText queryLoc queryLen jstate
    pure (text.map fun text => (text, text.length))
  else pure ((pschCopyTrimmedStatement queryText queryLen).map fun text => (text, strlen text))

/-- `PschPostParseAnalyze`, after the hook that was there before it. -/
def pschPostParseAnalyze (core : PgCore) (settings : BackendSettings) (a : CacheAlloc)
    (query : AnalyzedQuery) (jstate : Option JumbleState) : PschNormalizedQueryCache.M Unit := do
  if settings.pschEnabled = false ∨ settings.parallelWorker = true then pure ()
  else if query.queryId = 0 then pure ()
  else
    match exportedQuery core query jstate with
    | .error e => throw e
    | .ok none => pure ()
    | .ok (some (text, len)) =>
      PschNormalizedQueryCache.remember settings.normalizeCacheMax a query.queryId text len

end PgStatCh
