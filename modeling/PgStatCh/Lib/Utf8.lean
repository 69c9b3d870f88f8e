import Mathlib.Data.List.Basic
import Mathlib.Data.List.DropRight

/-!
# Lib.Utf8 — cutting UTF-8 texts

A text that is cut after `n` bytes is still valid exactly if a character begins at byte `n`
(`validUtf8_take_iff`). Taking bytes below 128 off the front or the end changes nothing about
whether a text is valid (`validUtf8_dropWhile`, `validUtf8_rdropWhile`). All of this is the
standard library's theory of string positions, said about lists of bytes.
-/

namespace Lib

/-- The bytes are those of a string. -/
def ValidUtf8 (l : List UInt8) : Prop := l.toByteArray.IsValidUTF8

instance (l : List UInt8) : Decidable (ValidUtf8 l) :=
  inferInstanceAs (Decidable l.toByteArray.IsValidUTF8)

@[simp] theorem validUtf8_nil : ValidUtf8 [] := ByteArray.isValidUTF8_empty

theorem ValidUtf8.append {l l' : List UInt8} (h : ValidUtf8 l) (h' : ValidUtf8 l') :
    ValidUtf8 (l ++ l') := by
  rw [ValidUtf8, List.toByteArray_append]
  exact ByteArray.IsValidUTF8.append h h'

/-- A character begins at byte `n`, or the text has no byte `n`. -/
def BoundaryAt (l : List UInt8) (n : ℕ) : Prop := ∀ b, l[n]? = some b → b.IsUTF8FirstByte

theorem boundaryAt_of_length_le {l : List UInt8} {n : ℕ} (h : l.length ≤ n) : BoundaryAt l n := by
  intro b hb
  rw [List.getElem?_eq_none h] at hb
  cases hb

theorem boundaryAt_iff {l : List UInt8} {n : ℕ} (h : n < l.length) :
    BoundaryAt l n ↔ l[n].IsUTF8FirstByte := by
  rw [BoundaryAt, List.getElem?_eq_getElem h]
  constructor
  · intro hfirst
    exact hfirst _ rfl
  · intro hfirst b hb
    cases hb
    exact hfirst

/-! ## Cutting -/

theorem extract_toByteArray (l : List UInt8) (n : ℕ) :
    l.toByteArray.extract 0 n = (l.take n).toByteArray := by
  apply ByteArray.ext
  simp [ByteArray.data_extract, List.data_toByteArray]

/-- A text can be cut where a character begins, and only there. -/
theorem validUtf8_take_iff {l : List UInt8} (h : ValidUtf8 l) (n : ℕ) :
    ValidUtf8 (l.take n) ↔ BoundaryAt l n := by
  rcases Nat.lt_or_ge n l.length with hlt | hge
  · -- byte `n` is a position of the string with these bytes
    have hsize : (String.ofByteArray l.toByteArray h).rawEndPos = ⟨l.length⟩ :=
      String.Pos.Raw.ext List.size_toByteArray
    have hpos : (⟨n⟩ : String.Pos.Raw) < (String.ofByteArray l.toByteArray h).rawEndPos := by
      rw [hsize]
      exact hlt
    have hcut : (⟨n⟩ : String.Pos.Raw).IsValid (String.ofByteArray l.toByteArray h) ↔
        ValidUtf8 (l.take n) := by
      rw [String.Pos.Raw.isValid_iff_isValidUTF8_extract_zero, ValidUtf8, ← extract_toByteArray]
      exact and_iff_right (String.Pos.Raw.le_of_lt hpos)
    have hbyte : (String.ofByteArray l.toByteArray h).getUTF8Byte ⟨n⟩ hpos = l[n] :=
      List.getElem_toByteArray
    rw [← hcut, String.Pos.Raw.isValid_iff_isUTF8FirstByte, boundaryAt_iff hlt, ← hbyte]
    constructor
    · intro hfirst
      rcases hfirst with hend | hfirst
      · rw [← hend] at hpos
        exact absurd (String.Pos.Raw.lt_iff.mp hpos) (Nat.lt_irrefl n)
      · exact hfirst.2
    · intro hfirst
      exact Or.inr ⟨hpos, hfirst⟩
  · rw [List.take_of_length_le hge]
    exact iff_of_true h (boundaryAt_of_length_le hge)

/-! ## Single bytes -/

/-- A byte below 128 is a character of its own. -/
theorem toByteArray_singleton {b : UInt8} (h : b < 128) :
    [b].toByteArray = [Char.ofUInt8 b].utf8Encode := by
  have hval : (Char.ofUInt8 b).val = b.toUInt32 := rfl
  have hsize : (Char.ofUInt8 b).utf8Size = 1 := by
    rw [Char.utf8Size_eq_one_iff, hval, UInt32.le_iff_toNat_le]
    have hlt := UInt8.lt_iff_toNat_lt.mp h
    simp at hlt ⊢
    omega
  rw [List.utf8Encode_singleton, String.utf8EncodeChar_eq_singleton hsize, hval]
  simp

theorem validUtf8_cons_iff {b : UInt8} (h : b < 128) (l : List UInt8) :
    ValidUtf8 (b :: l) ↔ ValidUtf8 l := by
  rw [ValidUtf8, ← List.singleton_append, List.toByteArray_append, toByteArray_singleton h]
  exact ByteArray.isValidUTF8_utf8Encode_singleton_append_iff

theorem validUtf8_concat_iff {b : UInt8} (h : b < 128) (l : List UInt8) :
    ValidUtf8 (l ++ [b]) ↔ ValidUtf8 l := by
  constructor
  · intro hvalid
    -- the byte is the first of its character, so the text can be cut before it
    have hfirst : b.IsUTF8FirstByte := by
      have hb : ValidUtf8 [b] := (validUtf8_cons_iff h []).mpr validUtf8_nil
      exact hb.isUTF8FirstByte_getElem_zero (by simp)
    have hcut := (validUtf8_take_iff hvalid l.length).mpr ?_
    · rwa [List.take_left] at hcut
    · intro c hc
      rw [List.getElem?_concat_length] at hc
      cases hc
      exact hfirst
  · intro hvalid
    exact hvalid.append ((validUtf8_cons_iff h []).mpr validUtf8_nil)

theorem validUtf8_of_forall_lt {l : List UInt8} (h : ∀ b ∈ l, b < 128) : ValidUtf8 l := by
  induction l with
  | nil => exact validUtf8_nil
  | cons b l ih =>
    rw [List.forall_mem_cons] at h
    exact (validUtf8_cons_iff h.1 l).mpr (ih h.2)

/-- Taking such bytes off the front. -/
theorem validUtf8_dropWhile {p : UInt8 → Bool} (hp : ∀ b, p b = true → b < 128) (l : List UInt8) :
    ValidUtf8 (l.dropWhile p) ↔ ValidUtf8 l := by
  induction l with
  | nil => rfl
  | cons b l ih =>
    rw [List.dropWhile_cons]
    split
    · next hb => rw [ih, validUtf8_cons_iff (hp b hb)]
    · rfl

/-- Taking such bytes off the end. -/
theorem validUtf8_rdropWhile {p : UInt8 → Bool} (hp : ∀ b, p b = true → b < 128) (l : List UInt8) :
    ValidUtf8 (l.rdropWhile p) ↔ ValidUtf8 l := by
  induction l using List.reverseRecOn with
  | nil => rfl
  | append_singleton l b ih =>
    rw [List.rdropWhile_concat]
    split
    · next hb => rw [ih, validUtf8_concat_iff (hp b hb)]
    · rfl

end Lib
