import PgStatCh.Lib.SharedRecord
import Mathlib.Data.List.Induction

/-!
# Queue.LastError — the outcome of the last exports

`last_success_ts`, `last_error_ts` and `last_error_text` in shared memory. The worker writes them
in `PschRecordExportSuccess` and `PschRecordExportFailure`, any backend clears them in
`PschResetStats`, and any number of backends read them in `PschGetStats`. They are plain memory:
the text is copied byte by byte, and the queue lock, exclusive or shared, is all that keeps a
reader from a text that is half written.

* `getStats_sequential` — what `PschGetStats` returns is what the calls that were complete, one
  after the other, leave: the time and the text always belong together.
* `lastErrorText_in_bounds` — no step of any call touches a byte behind `last_error_text`. The
  reader goes on to the first NUL, and there always is one when it holds the lock.

The other users of the lock, the producers of the queue, touch none of the three.
-/

namespace PgStatCh

open Lib Tla

namespace LastError

/-- `sizeof(last_error_text)` -/
def textSize : ℕ := 256

/-- The bytes of the text are fields of their own; those from `textSize` on are other memory. -/
inductive Field where
  | lastSuccessTs
  | lastErrorTs
  | lastErrorText (i : ℕ)
deriving DecidableEq, Repr

/-- `TimestampTz` and `char`. -/
abbrev FieldType : Field → Type
  | .lastSuccessTs => Int64
  | .lastErrorTs => Int64
  | .lastErrorText _ => UInt8

instance : (f : Field) → DecidableEq (FieldType f)
  | .lastSuccessTs => inferInstanceAs (DecidableEq Int64)
  | .lastErrorTs => inferInstanceAs (DecidableEq Int64)
  | .lastErrorText _ => inferInstanceAs (DecidableEq UInt8)

/-- The text of a C string, before its NUL. -/
abbrev CText := { text : List UInt8 // 0 ∉ text }

inductive Call where
  | recordExportSuccess (now : Int64)
  /-- `error_msg` may be NULL -/
  | recordExportFailure (now : Int64) (errorMsg : Option CText)
  | resetStats
  /-- a producer, which has the lock for the ring -/
  | enqueue

/-- Consecutive bytes, from the first on. -/
def textCells (bytes : List UInt8) : List (FieldValue FieldType) :=
  bytes.mapIdx fun i c => ⟨.lastErrorText i, c⟩

/-- `strlcpy(last_error_text, error_msg, sizeof(last_error_text))` -/
def strlcpyCells (src : CText) : List (FieldValue FieldType) :=
  textCells (src.1.take (textSize - 1) ++ [0])

/-- What a call stores, in this order. -/
def writes : Call → List (FieldValue FieldType)
  | .recordExportSuccess now => [⟨.lastSuccessTs, now⟩]
  | .recordExportFailure now errorMsg =>
    ⟨.lastErrorTs, now⟩ :: (errorMsg.map strlcpyCells).getD []
  | .resetStats =>
    ⟨.lastSuccessTs, (0 : Int64)⟩ :: ⟨.lastErrorTs, (0 : Int64)⟩ ::
      textCells (List.replicate textSize 0)
  | .enqueue => []

/-- The NUL at the end of a text. -/
def isNul : FieldValue FieldType → Bool
  | ⟨.lastErrorText _, c⟩ => decide (c = (0 : UInt8))
  | _ => false

/-- What `PschGetStats` reads next: the two times, and then `strlcpy` reads the text up to its
NUL, also if the buffer of the caller is full. -/
def next : List (FieldValue FieldType) → Option Field
  | [] => some .lastSuccessTs
  | [_] => some .lastErrorTs
  | _ :: _ :: chars => if chars.getLast?.any isNul then none else some (.lastErrorText chars.length)

def program : SharedRecord.Program Field FieldType Call where
  writes := writes
  next := next

/-- `InitializeSharedState` -/
def initial : (f : Field) → FieldType f
  | .lastSuccessTs => (0 : Int64)
  | .lastErrorTs => (0 : Int64)
  | .lastErrorText _ => (0 : UInt8)

abbrev Memory (P : Type) := SharedRecord Field FieldType Call P

abbrev machine (P : Type) [DecidableEq P] : Machine (Memory P) (SharedRecord.Label Call P) :=
  SharedRecord.machine program P initial

/-! ## What the record is for -/

/-- When an export last succeeded, when one last failed, and why. -/
structure LastExport where
  lastSuccessTs : Int64 := 0
  lastErrorTs : Int64 := 0
  lastErrorText : List UInt8 := []

/-- What a call changes. A failure without a message keeps the old text. -/
def LastExport.apply (a : LastExport) : Call → LastExport
  | .recordExportSuccess now => { a with lastSuccessTs := now }
  | .recordExportFailure now none => { a with lastErrorTs := now }
  | .recordExportFailure now (some errorMsg) =>
    { a with lastErrorTs := now, lastErrorText := errorMsg.1.take (textSize - 1) }
  | .resetStats => {}
  | .enqueue => a

/-- The text with its NUL. -/
def LastExport.chars (a : LastExport) : List UInt8 := a.lastErrorText ++ [0]

/-- What a reader gets to see of it. -/
def LastExport.cells (a : LastExport) : List (FieldValue FieldType) :=
  ⟨.lastSuccessTs, a.lastSuccessTs⟩ :: ⟨.lastErrorTs, a.lastErrorTs⟩ :: textCells a.chars

/-- The memory holds it. -/
structure Holds (m : (f : Field) → FieldType f) (a : LastExport) : Prop where
  success : m .lastSuccessTs = a.lastSuccessTs
  error : m .lastErrorTs = a.lastErrorTs
  text : ∀ (i : ℕ) (c : UInt8), a.chars[i]? = some c → m (.lastErrorText i) = c
  noNul : 0 ∉ a.lastErrorText
  short : a.lastErrorText.length < textSize

/-! ## Storing -/

theorem textCells_concat (bytes : List UInt8) (c : UInt8) :
    textCells (bytes ++ [c]) = textCells bytes ++ [⟨.lastErrorText bytes.length, c⟩] := by
  simp [textCells, List.mapIdx_append]

@[simp] theorem textCells_length (bytes : List UInt8) :
    (textCells bytes).length = bytes.length := by
  simp [textCells]

theorem store_concat (cells : List (FieldValue FieldType)) (c : FieldValue FieldType)
    (m : (f : Field) → FieldType f) :
    SharedRecord.store (cells ++ [c]) m =
      Function.update (SharedRecord.store cells m) c.1 c.2 := by
  simp [SharedRecord.store]

/-- The bytes are stored, and what is behind them stays. -/
theorem store_textCells (bytes : List UInt8) (m : (f : Field) → FieldType f) :
    SharedRecord.store (textCells bytes) m .lastSuccessTs = m .lastSuccessTs ∧
    SharedRecord.store (textCells bytes) m .lastErrorTs = m .lastErrorTs ∧
    ∀ (i : ℕ) (c : UInt8), bytes[i]? = some c →
      SharedRecord.store (textCells bytes) m (.lastErrorText i) = c := by
  induction bytes using List.reverseRecOn with
  | nil =>
    refine ⟨rfl, rfl, ?_⟩
    intro i c hc
    simp at hc
  | append_singleton bytes last ih =>
    rw [textCells_concat, store_concat]
    obtain ⟨hsuccess, herror, htext⟩ := ih
    refine ⟨?_, ?_, ?_⟩
    · rw [Function.update_of_ne (by simp)]
      exact hsuccess
    · rw [Function.update_of_ne (by simp)]
      exact herror
    · intro i c hc
      by_cases hi : i = bytes.length
      · subst hi
        rw [Function.update_self]
        simpa using hc
      · rw [Function.update_of_ne (by simpa using hi)]
        apply htext
        have hlt : i < bytes.length := by
          have hlen := (List.getElem?_eq_some_iff.mp hc).1
          simp only [List.length_append, List.length_singleton] at hlen
          omega
        rwa [List.getElem?_append_left hlt] at hc

theorem store_cons (c : FieldValue FieldType) (cells : List (FieldValue FieldType))
    (m : (f : Field) → FieldType f) :
    SharedRecord.store (c :: cells) m =
      SharedRecord.store cells (Function.update m c.1 c.2) := rfl

/-- A call leaves in the memory what it says. -/
theorem Holds.apply {m : (f : Field) → FieldType f} {a : LastExport} (h : Holds m a)
    (call : Call) : Holds (SharedRecord.store (writes call) m) (a.apply call) := by
  cases call with
  | recordExportSuccess now => exact ⟨rfl, h.error, h.text, h.noNul, h.short⟩
  | recordExportFailure now errorMsg =>
    cases errorMsg with
    | none => exact ⟨h.success, rfl, h.text, h.noNul, h.short⟩
    | some msg =>
      change Holds (SharedRecord.store (⟨.lastErrorTs, now⟩ :: strlcpyCells msg) m) _
      rw [store_cons, strlcpyCells]
      obtain ⟨hsuccess, herror, htext⟩ := store_textCells (msg.1.take (textSize - 1) ++ [0])
        (Function.update m Field.lastErrorTs now)
      refine ⟨hsuccess.trans h.success, herror, htext, ?_, ?_⟩
      · intro hmem
        exact msg.2 (List.mem_of_mem_take hmem)
      · refine (List.length_take_le _ _).trans_lt ?_
        decide
  | resetStats =>
    change Holds (SharedRecord.store (_ :: _ :: textCells (List.replicate textSize 0)) m) {}
    rw [store_cons, store_cons]
    obtain ⟨hsuccess, herror, htext⟩ := store_textCells (List.replicate textSize 0)
      (Function.update (Function.update m Field.lastSuccessTs (0 : Int64))
        Field.lastErrorTs (0 : Int64))
    refine ⟨hsuccess, herror, ?_, List.not_mem_nil, by decide⟩
    intro i c hc
    -- of the cleared bytes only the first belongs to the empty text
    have hi : i = 0 ∧ c = 0 := by
      cases i with
      | zero => simpa [LastExport.chars, eq_comm] using hc
      | succ i => simp [LastExport.chars] at hc
    obtain ⟨rfl, rfl⟩ := hi
    refine htext 0 0 ?_
    rw [List.getElem?_replicate]
    exact if_pos (by decide)
  | enqueue => exact h

theorem Holds.initial : Holds initial {} := by
  refine ⟨rfl, rfl, ?_, List.not_mem_nil, by decide⟩
  intro i c hc
  cases i with
  | zero =>
    have hzero : (0 : UInt8) = c := by simpa [LastExport.chars] using hc
    exact hzero
  | succ i => simp [LastExport.chars] at hc

/-- After these calls, one after the other. -/
theorem Holds.after (calls : List Call) :
    Holds (SharedRecord.after program LastError.initial calls)
      (calls.foldl LastExport.apply {}) := by
  induction calls using List.reverseRecOn with
  | nil => exact .initial
  | append_singleton calls call ih =>
    rw [SharedRecord.after_append, List.foldl_append]
    exact ih.apply call

/-! ## Reading -/

/-- A reader that has read a part of it. -/
inductive Partly (a : LastExport) : List (FieldValue FieldType) → Prop where
  | nothing : Partly a []
  | success : Partly a [⟨.lastSuccessTs, a.lastSuccessTs⟩]
  | text (bytes : List UInt8) : bytes <+: a.chars →
    Partly a (⟨.lastSuccessTs, a.lastSuccessTs⟩ :: ⟨.lastErrorTs, a.lastErrorTs⟩ ::
      textCells bytes)

theorem next_text (c₁ c₂ : FieldValue FieldType) (bytes : List UInt8) :
    next (c₁ :: c₂ :: textCells bytes) =
      if bytes.getLast? = some 0 then none else some (.lastErrorText bytes.length) := by
  induction bytes using List.reverseRecOn with
  | nil => rfl
  | append_singleton bytes last _ =>
    simp [next, textCells_concat, isNul]

/-- A part of the text that is not all of it has no NUL. -/
theorem next_part {a : LastExport} (hnul : 0 ∉ a.lastErrorText) {bytes : List UInt8}
    (h : bytes <+: a.lastErrorText) (c₁ c₂ : FieldValue FieldType) :
    next (c₁ :: c₂ :: textCells bytes) = some (.lastErrorText bytes.length) := by
  rw [next_text, if_neg]
  intro hlast
  exact hnul (h.subset (List.mem_of_getLast? hlast))

theorem next_all (a : LastExport) : next a.cells = none := by
  rw [LastExport.cells, next_text, if_pos]
  simp [LastExport.chars]

/-- Where the reader goes on, and what it finds there. -/
theorem Partly.read {m : (f : Field) → FieldType f} {a : LastExport} (h : Holds m a)
    {got : List (FieldValue FieldType)} (hgot : Partly a got) {f : Field} (hf : next got = some f) :
    Partly a (got ++ [⟨f, m f⟩]) ∧ ∀ i, f = .lastErrorText i → i < textSize := by
  cases hgot with
  | nothing =>
    cases hf
    rw [h.success]
    refine ⟨.success, ?_⟩
    intro i hi
    cases hi
  | success =>
    cases hf
    rw [h.error]
    refine ⟨.text [] (List.nil_prefix), ?_⟩
    intro i hi
    cases hi
  | text bytes hbytes =>
    rcases List.prefix_concat_iff.mp hbytes with hall | hpart
    · -- all of it was read, so the last byte was the NUL
      subst hall
      change next a.cells = some f at hf
      rw [next_all] at hf
      cases hf
    · rw [next_part h.noNul hpart] at hf
      cases hf
      have hle := hpart.length_le
      have hlt : bytes.length < a.chars.length := by
        rw [LastExport.chars, List.length_append, List.length_singleton]
        omega
      have hvalue := h.text bytes.length _ (List.getElem?_eq_getElem hlt)
      refine ⟨?_, ?_⟩
      · rw [hvalue, List.cons_append, List.cons_append, ← textCells_concat]
        refine .text _ ?_
        obtain ⟨rest, hrest⟩ := hbytes
        cases rest with
        | nil =>
          rw [List.append_nil] at hrest
          rw [hrest] at hlt
          exact absurd hlt (lt_irrefl _)
        | cons c rest =>
          refine ⟨rest, ?_⟩
          simp only [← hrest, List.getElem_append_right le_rfl, Nat.sub_self,
            List.getElem_cons_zero, List.append_assoc, List.singleton_append]
      · intro i hi
        cases hi
        exact lt_of_le_of_lt hle h.short

theorem Partly.of_reads {m : (f : Field) → FieldType f} {a : LastExport} (h : Holds m a)
    {got : List (FieldValue FieldType)} (hreads : SharedRecord.Reads program m got) :
    Partly a got := by
  induction hreads with
  | nil => exact .nothing
  | snoc _ hnext ih => exact (ih.read h hnext).1

/-- A reader that is done has read all. -/
theorem Partly.all {a : LastExport} (hnul : 0 ∉ a.lastErrorText) {got : List (FieldValue FieldType)}
    (hgot : Partly a got) (hend : next got = none) : got = a.cells := by
  cases hgot with
  | nothing => cases hend
  | success => cases hend
  | text bytes hbytes =>
    rcases List.prefix_concat_iff.mp hbytes with hall | hpart
    · subst hall
      rfl
    · rw [next_part hnul hpart] at hend
      cases hend

/-! ## Every run -/

variable {P : Type} [DecidableEq P]

/-- What a call of `PschGetStats` has read is what the first `n` of the other calls leave, one
after the other, where `n` of them were complete at its end. -/
theorem getStats_sequential (s : Memory P) (hs : (machine P).toSpec.Reachable s) (n : ℕ)
    (got : List (FieldValue FieldType)) (hseen : (n, got) ∈ s.seen) :
    n ≤ s.calls.length ∧ got = ((s.calls.take n).foldl LastExport.apply {}).cells := by
  obtain ⟨hle, hend, hreads⟩ := SharedRecord.seen_sequential hs hseen
  have hholds := Holds.after (s.calls.take n)
  exact ⟨hle, (Partly.of_reads hholds hreads).all hholds.noNul hend⟩

theorem inBounds_writes {call : Call} {c : FieldValue FieldType} (hc : c ∈ writes call) {i : ℕ}
    (hi : c.1 = .lastErrorText i) : i < textSize := by
  have htext : ∀ {bytes : List UInt8}, bytes.length ≤ textSize → c ∈ textCells bytes →
      i < textSize := by
    intro bytes hlen hmem
    obtain ⟨j, hj, rfl⟩ := List.mem_mapIdx.mp hmem
    cases hi
    exact lt_of_lt_of_le hj hlen
  cases call with
  | recordExportSuccess now =>
    cases List.mem_singleton.mp hc
    cases hi
  | recordExportFailure now errorMsg =>
    rcases List.mem_cons.mp hc with rfl | hmem
    · cases hi
    · cases errorMsg with
      | none => cases hmem
      | some msg =>
        refine htext ?_ hmem
        simp only [List.length_append, List.length_take, List.length_singleton, textSize]
        omega
  | resetStats =>
    rcases List.mem_cons.mp hc with rfl | hmem
    · cases hi
    · rcases List.mem_cons.mp hmem with rfl | hmem
      · cases hi
      · exact htext (List.length_replicate).le hmem
  | enqueue => cases hc

/-- Whatever a process stores or reads next, it is not behind `last_error_text`. -/
theorem lastErrorText_in_bounds (s : Memory P) (hs : (machine P).toSpec.Reachable s) (p : P)
    (i : ℕ) :
    (∀ call value left, s.pc p = .writing call (⟨.lastErrorText i, value⟩ :: left) →
      i < textSize) ∧
    (∀ got, s.pc p = .reading got → next got = some (.lastErrorText i) → i < textSize) := by
  have hi := SharedRecord.inv_reachable hs
  constructor
  · intro call value left hpc
    obtain ⟨-, -, hsuffix, -⟩ := hi.pc_of hpc
    exact inBounds_writes (hsuffix.subset List.mem_cons_self) rfl
  · intro got hpc hnext
    obtain ⟨hw, -, hreads⟩ := hi.pc_of hpc
    -- no writer is inside, so the memory holds what the calls so far have left
    have hholds := Holds.after s.calls
    rw [hi.free hw] at hreads
    exact ((Partly.of_reads hholds hreads).read hholds hnext).2 i rfl

/-! ### A failure that is recorded between two reads -/

theorem sampleText_noNul : (0 : UInt8) ∉ [110, 111] := by decide

/-- The text `no`. -/
def sampleText : CText := ⟨[110, 111], sampleText_noNul⟩

/-- What it leaves. -/
def sampleFailure : LastExport := { lastErrorTs := 5, lastErrorText := [110, 111] }

/-- One process reads, and another then records a failure. -/
def readAndFail : List (SharedRecord.Label Call Bool) :=
  [.acquireShared true] ++ List.replicate 3 (.read true) ++ [.releaseShared true] ++
    [.acquire false (.recordExportFailure 5 (some sampleText))] ++
    List.replicate 4 (.store false) ++ [.release false]

/-- The first begins to read again. -/
def readAgain : List (SharedRecord.Label Call Bool) :=
  readAndFail ++ [.acquireShared true] ++ List.replicate 3 (.read true)

/-- ... and goes on to the end. -/
def readTwice : List (SharedRecord.Label Call Bool) :=
  readAgain ++ List.replicate 2 (.read true) ++ [.releaseShared true]

theorem sample_reachable (ls : List (SharedRecord.Label Call Bool)) :
    (machine Bool).toSpec.Reachable ((machine Bool).run { fields := initial } ls) :=
  (machine Bool).run_reachable _ (.init rfl) ls

theorem getStats_sequential_twice :
    (0, ({} : LastExport).cells) ∈ ((machine Bool).run { fields := initial } readTwice).seen ∧
    (1, sampleFailure.cells) ∈ ((machine Bool).run { fields := initial } readTwice).seen ∧
    sampleFailure.cells = ((((machine Bool).run { fields := initial } readTwice).calls.take 1).foldl
      LastExport.apply {}).cells := by
  have hseen : (1, sampleFailure.cells) ∈
      ((machine Bool).run { fields := initial } readTwice).seen := by decide +kernel
  exact ⟨by decide +kernel, hseen,
    (getStats_sequential _ (sample_reachable readTwice) 1 _ hseen).2⟩

theorem lastErrorText_in_bounds_again :
    ((machine Bool).run { fields := initial } readAgain).pc true =
      .reading (sampleFailure.cells.take 3) ∧ 1 < textSize := by
  have hpc : ((machine Bool).run { fields := initial } readAgain).pc true =
      .reading (sampleFailure.cells.take 3) := rfl
  exact ⟨hpc, (lastErrorText_in_bounds _ (sample_reachable readAgain) true 1).2 _ hpc rfl⟩

end LastError

end PgStatCh
