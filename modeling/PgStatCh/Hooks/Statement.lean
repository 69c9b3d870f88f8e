import PgStatCh.Hooks.Normalize
import PgStatCh.Lib.Spans

/-!
# Hooks.Statement — statements as the scanner sees them

A statement is a sequence of pieces: literal constants, other tokens, and what stands
between tokens. Its shape is what is left when the contents of the literals are
forgotten. What the jumbling records are places between pieces (`Mark`), so the same
marks belong to all statements of one shape, at locations that depend on the literals.

`layout` says which pieces the normalized text copies and where its placeholders stand.
It is a function of the shape and the marks.
-/

namespace PgStatCh

open Lib

/-! ## Pieces and shapes -/

inductive PieceKind where
  /-- white space or a comment -/
  | gap
  | token
  /-- a token that is a literal constant -/
  | literal
  deriving DecidableEq

structure Piece where
  kind : PieceKind
  bytes : List UInt8
  nonempty : bytes ≠ []
  noNul : 0 ∉ bytes
  /-- the sign of a number is a token of its own -/
  unsigned : kind = .literal → bytes.head? ≠ some minusSign

namespace Piece

/-- All but the contents of a literal. -/
def shape (p : Piece) : PieceKind × List UInt8 :=
  (p.kind, if p.kind = .literal then [] else p.bytes)

end Piece

abbrev Shape := List (PieceKind × List UInt8)

namespace Shape

variable (sh : Shape)

/-- Is piece `k` a token? -/
def isToken (k : ℕ) : Bool := sh[k]?.any fun p => p.1 ≠ .gap

/-- Is piece `k` a minus sign? -/
def isMinus (k : ℕ) : Bool := (sh[k]?.bind fun p => p.2.head?) == some minusSign

/-- The first token behind piece `k`. -/
def nextToken (k : ℕ) : ℕ := k + 1 + ((sh.drop (k + 1)).takeWhile fun p => p.1 = .gap).length

end Shape

/-! ## Statements -/

abbrev Statement := List Piece

namespace Statement

variable (ps : Statement)

def shape : Shape := ps.map Piece.shape

def text : List UInt8 := ps.flatMap Piece.bytes

/-- Where piece `k` begins. -/
def offset (k : ℕ) : ℕ := (text (ps.take k)).length

def pieceBytes (k : ℕ) : List UInt8 := (ps[k]?.map Piece.bytes).getD []

/-- The token that piece `k` is. -/
def tokenAt (k : ℕ) : Token := ⟨ps.offset k, ps.offset (k + 1)⟩

/-- The tokens from piece `k` on. -/
def tokensFrom (k : ℕ) : List Token :=
  ((List.range' k (ps.length - k)).filter ps.shape.isToken).map ps.tokenAt

def tokens : List Token := ps.tokensFrom 0

variable {ps}

@[simp] theorem text_append (ps ps' : Statement) : text (ps ++ ps') = text ps ++ text ps' := by
  simp [text]

@[simp] theorem text_cons (p : Piece) (ps : Statement) : text (p :: ps) = p.bytes ++ text ps := rfl

@[simp] theorem offset_zero : ps.offset 0 = 0 := by simp [offset, text]

theorem offset_length : ps.offset ps.length = ps.text.length := by
  rw [offset, List.take_length]

theorem offset_add {k j : ℕ} (h : k ≤ j) :
    ps.offset j = ps.offset k + (text ((ps.take j).drop k)).length := by
  have hsplit := List.take_append_drop k (ps.take j)
  rw [List.take_take, Nat.min_eq_left h] at hsplit
  have htext := congrArg text hsplit
  rw [text_append] at htext
  rw [offset, offset, ← htext, List.length_append]

theorem offset_mono {k j : ℕ} (h : k ≤ j) : ps.offset k ≤ ps.offset j := by
  rw [offset_add h]
  exact Nat.le_add_right _ _

theorem text_ne_nil {ps : Statement} (h : ps ≠ []) : ps.text ≠ [] := by
  cases ps with
  | nil => exact absurd rfl h
  | cons p ps => simp [text, p.nonempty]

/-- Pieces are not empty, so later ones begin later. -/
theorem offset_lt {k j : ℕ} (h : k < j) (hj : j ≤ ps.length) : ps.offset k < ps.offset j := by
  rw [offset_add h.le, Nat.lt_add_right_iff_pos, List.length_pos_iff]
  apply text_ne_nil
  rw [ne_eq, ← List.length_eq_zero_iff, List.length_drop, List.length_take]
  omega

theorem offset_le_iff {k j : ℕ} (hk : k ≤ ps.length) :
    ps.offset k ≤ ps.offset j ↔ k ≤ j := by
  refine ⟨fun h => ?_, offset_mono⟩
  by_contra hlt
  exact absurd (offset_lt (Nat.lt_of_not_le hlt) hk) (Nat.not_lt.mpr h)

theorem offset_inj {k j : ℕ} (hk : k ≤ ps.length) (hj : j ≤ ps.length) :
    ps.offset k = ps.offset j ↔ k = j := by
  refine ⟨fun h => ?_, fun h => by rw [h]⟩
  exact le_antisymm ((offset_le_iff hk).mp h.le) ((offset_le_iff hj).mp h.ge)

theorem offset_le_length (k : ℕ) : ps.offset k ≤ ps.text.length := by
  rcases le_total k ps.length with hk | hk
  · rw [← offset_length]
    exact offset_mono hk
  · rw [offset, List.take_of_length_le hk]

theorem zero_notMem_text : 0 ∉ ps.text := by
  rw [text, List.mem_flatMap]
  rintro ⟨p, -, hp⟩
  exact p.noNul hp

/-- The bytes from piece `k` to piece `j`. -/
theorem slice_text {k j : ℕ} (h : k ≤ j) (after : List UInt8) :
    ((ps.text ++ after).drop (ps.offset k)).take (ps.offset j - ps.offset k) =
      text ((ps.take j).drop k) := by
  have hstart : (text (ps.take k)).length = ps.offset k := rfl
  have hlen : (text ((ps.take j).drop k)).length = ps.offset j - ps.offset k := by
    rw [offset_add h]
    omega
  have hsplit := List.take_append_drop k (ps.take j)
  rw [List.take_take, Nat.min_eq_left h] at hsplit
  have htext : ps.text = text (ps.take k) ++ (text ((ps.take j).drop k) ++ text (ps.drop j)) := by
    rw [← List.append_assoc, ← text_append, hsplit, ← text_append, List.take_append_drop]
  rw [htext, List.append_assoc, List.drop_left' hstart, List.append_assoc, List.take_left' hlen]

end Statement

/-! ## Marks -/

/-- A location that the jumbling has recorded. -/
structure Mark where
  /-- the piece it stands before -/
  start : ℕ
  /-- of a squashed list, the piece behind its end -/
  listStop : ℕ := 0
  squashed : Bool := false
  externParam : Bool := false
  /-- what `length` holds of a location that is no list -/
  length : ℤ := -1

/-- Where the constant or the list ends. -/
def Mark.stop (sh : Shape) (m : Mark) : ℕ :=
  if m.squashed then m.listStop
  else if sh.isMinus m.start then sh.nextToken m.start + 1 else m.start + 1

/-- The jumbling marks tokens, minus signs that a number follows, and lists. -/
structure Mark.Fits (sh : Shape) (m : Mark) : Prop where
  list : m.squashed = true → m.start ≤ m.listStop ∧ m.listStop ≤ sh.length
  token : m.squashed = false → sh.isToken m.start = true
  number : m.squashed = false → sh.isMinus m.start = true →
    sh.isToken (sh.nextToken m.start) = true

/-- What the jumbling has recorded, for all statements of one shape. -/
structure Jumble where
  marks : List Mark
  highestExternParamId : ℕ := 0
  hasSquashedLists : Bool := false

namespace Jumble

variable (J : Jumble)

/-- The marks are in the statement and do not overlap. -/
structure Fits (sh : Shape) : Prop where
  fits : ∀ m ∈ J.marks, m.Fits sh
  apart : ∀ m ∈ J.marks, ∀ m' ∈ J.marks, m.start < m'.start → m.stop sh ≤ m'.start

/-- The recorded location of a mark. -/
def locationLen (ps : Statement) (queryLoc : ℤ) (m : Mark) : LocationLen where
  location := queryLoc + ps.offset m.start
  length := if m.squashed then ps.offset m.listStop - ps.offset m.start else m.length
  squashed := m.squashed
  externParam := m.externParam

/-- The jumble state of a statement. -/
def toJumbleState (ps : Statement) (queryLoc : ℤ) : JumbleState where
  clocations := J.marks.map (locationLen ps queryLoc)
  highestExternParamId := J.highestExternParamId
  hasSquashedLists := J.hasSquashedLists

/-- The marks in the order in which they are worked on. -/
def sortedMarks (qsort : Sorting) : List Mark :=
  if 1 < J.marks.length then qsort.sort (fun a b => compare (a.start : ℤ) b.start) J.marks
  else J.marks

def preserves (m : Mark) : Bool := m.externParam && !J.hasSquashedLists

/-- The marks that placeholders take the place of: the first of each location. -/
def replacedMarks (qsort : Sorting) : List Mark :=
  (firsts Mark.start none (J.sortedMarks qsort)).filter fun m => !J.preserves m

end Jumble

/-! ## The layout of the exported text -/

inductive Segment where
  | raw (k : ℕ)
  | placeholder (n : ℕ) (squashed : Bool)
  deriving DecidableEq

namespace Segment

/-- Pieces `k` to `j`, as they are. -/
def raws (k j : ℕ) : List Segment := (List.range' k (j - k)).map .raw

def bytes (ps : Statement) : Segment → List UInt8
  | .raw k => ps.pieceBytes k
  | .placeholder n squashed => PgStatCh.placeholder n squashed

/-- Piece `k` on, with these marks replaced by the next placeholders behind `n`. -/
def layoutFrom (sh : Shape) (k n : ℕ) : List Mark → List Segment
  | [] => raws k sh.length
  | m :: ms =>
    raws k m.start ++ .placeholder (n + 1) m.squashed :: layoutFrom sh (m.stop sh) (n + 1) ms

end Segment

/-- The exported text of a statement of this shape. -/
def layout (qsort : Sorting) (sh : Shape) (J : Jumble) : List Segment :=
  Segment.layoutFrom sh 0 J.highestExternParamId (J.replacedMarks qsort)

end PgStatCh
