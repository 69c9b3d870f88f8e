import PgStatCh.Export.EventColumns
import PgStatCh.Lib.FinTable
import PgStatCh.Lib.Packed

/-!
# Export.ChcColumns — the columns of the ClickHouse exporter

`ClickHouseExporter` keeps its columns from batch to batch (clickhouse_exporter.cc): `MakeCol`
makes a column when its name is first asked for, and returns the one that is there afterwards;
`BeginBatch` clears them all. Column `i` has its name in `col_names_[i]` and its index under that
name in `col_index_`, however a `MakeCol` ends (`Store.Corresponds`). The columns that
`ExportEventStatsInternal` asks for come in one order, so those that are there are the first so
many of them (`Store.Headed`), and after the appends of a batch they hold that batch
(`Store.Filled`).
-/

namespace PgStatCh

open Lib Prog

namespace Chc

/-! ## Columns -/

/-- The vectors of a column: `data_`, or `bytes_` and `offsets_`. -/
inductive Buffer where
  | fixed (typeName : String) (data : List Cell)
  | strings (packed : Packed UInt8)
deriving DecidableEq

/-- The bytes of a text that is appended to a `StringCol`. -/
def textBytes : Cell → List UInt8
  | .string v => v
  | .stringView v => v
  | _ => []

namespace Buffer

def append (v : Cell) : Buffer → Buffer
  | .fixed typeName data => .fixed typeName (data ++ [v])
  | .strings p => .strings (p.append (textBytes v))

/-- `Append`, when the last `push_back` throws: a `StringCol` has the bytes by then. -/
def appendHalf (v : Cell) : Buffer → Buffer
  | .fixed typeName data => .fixed typeName data
  | .strings p => .strings { p with data := p.data ++ textBytes v }

def clear : Buffer → Buffer
  | .fixed typeName _ => .fixed typeName []
  | .strings _ => .strings {}

/-- `n_rows` of the block builder's calls. -/
def numRows : Buffer → ℕ
  | .fixed _ data => data.length
  | .strings p => p.ends.length

/-- The values that the block builder is given; it reads texts by their offsets. -/
def values : Buffer → List Cell
  | .fixed _ data => data
  | .strings p => p.decode.map .string

end Buffer

/-- A column object. -/
structure Column where
  name : String
  /-- the `T` of its class -/
  elem : ElemType
  buffer : Buffer

/-- `FixedCol<T>` or `StringCol<T>`. -/
inductive ColClass where
  | fixedCol (elem : ElemType)
  | stringCol (elem : ElemType)
deriving DecidableEq, Repr

namespace Column

def cls (col : Column) : ColClass :=
  match col.buffer with
  | .fixed _ _ => .fixedCol col.elem
  | .strings _ => .stringCol col.elem

def append (v : Cell) (col : Column) : Column := { col with buffer := col.buffer.append v }

def appendHalf (v : Cell) (col : Column) : Column := { col with buffer := col.buffer.appendHalf v }

def clear (col : Column) : Column := { col with buffer := col.buffer.clear }

end Column

def fixedCol (elem : ElemType) (name typeName : String) : Column :=
  ⟨name, elem, .fixed typeName []⟩

def stringCol (elem : ElemType) (name : String) : Column := ⟨name, elem, .strings {}⟩

def statLCString (name : String) : Column := stringCol .string name

def statHCString (name : String) : Column := stringCol .stringView name

def statHCUInt64 (name : String) : Column := fixedCol .uint64 name "UInt64"

/-- The column that a factory passes to `MakeCol`. -/
def column : Factory → Column
  | .statLCString name => statLCString name
  | .statLCUInt8 name => fixedCol .uint8 name "UInt8"
  | .statLCInt16 name => fixedCol .int16 name "Int16"
  | .statLCInt32 name => fixedCol .int32 name "Int32"
  | .statHCString name => statHCString name
  | .statHCInt64 name => fixedCol .int64 name "Int64"
  | .statHCUInt64 name => statHCUInt64 name
  | .statTimestamp name => fixedCol .int64 name "DateTime64(6)"
  | .dbNameColumn => statLCString "db_name"
  | .dbUserColumn => statLCString "db_user"
  | .dbDurationColumn => statHCUInt64 "duration_us"
  | .dbOperationColumn => statLCString "db_operation"
  | .dbQueryTextColumn => statHCString "query_text"

/-- `columns_`, `col_names_` and `col_index_`. -/
structure Store where
  columns : List Column := []
  colNames : List String := []
  colIndex : FinTable String ℕ := .empty

abbrev StoreM := EStateM Exit Store

/-! ## `MakeCol` -/

/-- Where `MakeCol` can throw when it makes a column. -/
inductive MakeFault where
  | none
  /-- before the `try`: the key, the column, or room in the vectors -/
  | early (e : Exception)
  /-- `col_names_.push_back` -/
  | names (e : Exception)
  /-- `col_index_.emplace` -/
  | index (e : Exception)
deriving DecidableEq, Repr

/-- The body of the `try`. -/
def register (fault : MakeFault) (col : Column) (index : ℕ) : StoreM Unit := do
  modify fun st => { st with columns := st.columns ++ [col] }
  match fault with
  | .names e => throw (.exception e)
  | _ =>
    modify fun st => { st with colNames := st.colNames ++ [col.name] }
    match fault with
    | .index e => throw (.exception e)
    | _ => modify fun st => { st with colIndex := st.colIndex.emplace col.name index }

/-- `MakeCol`; a column is handed out as its index. -/
def makeCol (fault : MakeFault) (col : Column) : StoreM ℕ := do
  let st ← get
  match st.colIndex.get col.name with
  | some i =>
    if st.columns[i]?.map Column.cls = some col.cls then pure i
    else
      throw (.exception (.std
        ("ClickHouse column `" ++ col.name ++ "` requested with incompatible type")))
  | none =>
    match fault with
    | .early e => throw (.exception e)
    | _ =>
      let index := st.columns.length
      tryCatch (register fault col index)
        (fun e => do
          modify fun st =>
            { st with columns := st.columns.take index, colNames := st.colNames.take index }
          throw e)
      pure index

/-- The columns are one-to-one with their names and with the entries of the index. -/
structure Store.Corresponds (st : Store) : Prop where
  names : st.colNames = st.columns.map Column.name
  nodup : st.colNames.Nodup
  index : ∀ name i, st.colIndex.get name = some i ↔ st.colNames[i]? = some name

/-- The store with one more column. -/
def Store.add (st : Store) (col : Column) : Store where
  columns := st.columns ++ [col]
  colNames := st.colNames ++ [col.name]
  colIndex := st.colIndex.emplace col.name st.columns.length

section MakeCol

variable {st : Store} {fault : MakeFault} {col : Column}

theorem Store.Corresponds.length_colNames (h : st.Corresponds) :
    st.colNames.length = st.columns.length := by
  rw [h.names, List.length_map]

/-- A name that is not in the index is new. -/
theorem Store.Corresponds.not_mem (h : st.Corresponds) {name : String}
    (hnone : st.colIndex.get name = none) : name ∉ st.colNames := by
  intro hmem
  obtain ⟨i, hi⟩ := List.mem_iff_getElem?.mp hmem
  rw [(h.index name i).mpr hi] at hnone
  cases hnone

theorem Store.Corresponds.add (h : st.Corresponds) (hnew : st.colIndex.get col.name = none) :
    (st.add col).Corresponds := by
  have hnot := h.not_mem hnew
  constructor
  · simp only [Store.add, List.map_append, h.names, List.map_cons, List.map_nil]
  · simp only [Store.add]
    rw [List.nodup_append]
    refine ⟨h.nodup, List.nodup_singleton _, ?_⟩
    intro a ha b hb heq
    rw [heq, List.mem_singleton.mp hb] at ha
    exact hnot ha
  · intro name i
    simp only [Store.add]
    rw [FinTable.get_emplace, ← h.length_colNames]
    rcases eq_or_ne name col.name with rfl | hne
    · rw [hnew, if_pos rfl, Option.none_or, Option.some_inj]
      constructor
      · rintro rfl
        exact List.getElem?_concat_length
      · intro hi
        rcases Nat.lt_trichotomy i st.colNames.length with hlt | heq | hgt
        · rw [List.getElem?_append_left hlt] at hi
          exact absurd (List.mem_of_getElem? hi) hnot
        · exact heq.symm
        · rw [List.getElem?_eq_none (by simp; omega)] at hi
          cases hi
    · rw [if_neg hne, Option.or_none, h.index]
      rcases Nat.lt_or_ge i st.colNames.length with hlt | hge
      · rw [List.getElem?_append_left hlt]
      · rw [List.getElem?_eq_none hge, List.getElem?_append_right hge]
        constructor
        · intro hi
          cases hi
        · intro hi
          have hmem := List.mem_of_getElem? hi
          exact absurd (List.mem_singleton.mp hmem) hne

/-- A column is found or added; a `MakeCol` that throws leaves everything as it was. -/
theorem wp_makeCol (h : st.Corresponds) :
    wp (makeCol fault col)
      (fun i st' => st' = st ∧ st.colIndex.get col.name = some i ∨
        st.colIndex.get col.name = none ∧ i = st.columns.length ∧ st' = st.add col)
      (fun _ st' => st' = st ∧ (fault = .none →
        ∃ i, st.colIndex.get col.name = some i ∧ st.columns[i]?.map Column.cls ≠ some col.cls))
      st := by
  have htake : (st.columns ++ [col]).take st.columns.length = st.columns := List.take_left
  have hnames : st.colNames.take st.columns.length = st.colNames := by
    rw [← h.length_colNames, List.take_length]
  have hnames' : (st.colNames ++ [col.name]).take st.columns.length = st.colNames := by
    rw [← h.length_colNames, List.take_left]
  unfold makeCol
  rw [wp_bind, wp_get]
  split
  · next i hi =>
    split
    · exact Or.inl ⟨rfl, hi⟩
    · next hcls => exact ⟨rfl, fun _ => ⟨i, hi, hcls⟩⟩
  · next hnew =>
    -- each fault of the `try` is undone by its handler
    cases fault with
    | early e => exact ⟨rfl, fun hf => by cases hf⟩
    | none => exact Or.inr ⟨hnew, rfl, rfl⟩
    | names e =>
      simp only [wp_bind, wp_tryCatch, register, wp_modify, wp_throw, htake, hnames]
      exact ⟨trivial, fun hf => by cases hf⟩
    | index e =>
      simp only [wp_bind, wp_tryCatch, register, wp_modify, wp_throw, htake, hnames']
      exact ⟨trivial, fun hf => by cases hf⟩

end MakeCol

/-! ## The columns of a batch -/

/-- The columns that `ExportEventStatsInternal` asks for, when they are new. -/
def heads : List Column := Col.created.map fun c => column c.factory

theorem nodup_names_heads : (heads.map Column.name).Nodup := by decide +kernel

/-- The columns that are there are the first ones of a batch, whatever they hold. -/
def Store.Headed (st : Store) : Prop := st.columns.map Column.clear <+: heads

/-- The variables of `ExportEventStatsInternal`, one initialized after the other. -/
def makeCols (fault : ℕ → MakeFault) : ℕ → List Col → (Col → ℕ) → StoreM (Col → ℕ)
  | _, [], vars => pure vars
  | k, c :: rest, vars => do
    let i ← makeCol (fault k) (column c.factory)
    makeCols fault (k + 1) rest (Function.update vars c i)

/-- The columns of `BeginBatch`. -/
def Store.clear (st : Store) : Store := { st with columns := st.columns.map Column.clear }

/-- Where an `Append` can break off. -/
inductive AppendFault where
  | none
  /-- nothing was appended: it throws, or an ERROR leaves the message of `ClampFieldLen` before -/
  | early (e : Exit)
  /-- `offsets_.push_back` -/
  | half (e : Exception)
deriving DecidableEq, Repr

def appendCell (fault : AppendFault) (i : ℕ) (v : Cell) : StoreM Unit :=
  match fault with
  | .none => modify fun st => { st with columns := st.columns.modify i (Column.append v) }
  | .early e => throw e
  | .half e => do
    modify fun st => { st with columns := st.columns.modify i (Column.appendHalf v) }
    throw (.exception e)

/-- The appends of an event. -/
def appendCells (fault : ℕ → AppendFault) (vars : Col → ℕ) (ev : PschEvent) :
    ℕ → List Col → StoreM Unit
  | _, [] => pure ()
  | k, c :: rest => do
    appendCell (fault k) (vars c) (c.cell ev)
    appendCells fault vars ev (k + 1) rest

/-- Every variable is the column that was made for it. -/
def Assigned (vars : Col → ℕ) (cs : List Col) : Prop := ∀ i c, cs[i]? = some c → vars c = i

/-- The column of a variable, after these events. -/
def columnOf (c : Col) (rows : List PschEvent) : Column :=
  rows.foldl (fun col ev => col.append (c.cell ev)) (column c.factory)

/-- All columns are there and hold these events. -/
def Store.Filled (rows : List PschEvent) (st : Store) : Prop :=
  st.columns = Col.created.map fun c => columnOf c rows

section Batch

variable {st st' : Store} {vars : Col → ℕ} {ev : PschEvent} {rows : List PschEvent}

theorem assigned_nil (vars : Col → ℕ) : Assigned vars [] := by
  intro i c hi
  cases hi

theorem Assigned.concat {done : List Col} {c : Col} (h : Assigned vars done) (hc : c ∉ done) :
    Assigned (Function.update vars c done.length) (done ++ [c]) := by
  intro i d hi
  rcases Nat.lt_or_ge i done.length with hlt | hge
  · rw [List.getElem?_append_left hlt] at hi
    have hne : d ≠ c := by
      rintro rfl
      exact hc (List.mem_of_getElem? hi)
    rw [Function.update_of_ne hne, h i d hi]
  · rw [List.getElem?_append_right hge] at hi
    obtain ⟨hzero, rfl⟩ : i - done.length = 0 ∧ c = d := by
      simpa [List.getElem?_singleton] using hi
    rw [Function.update_self]
    omega

theorem getElem?_heads {done rest : List Col} {c : Col} (hsplit : done ++ c :: rest = Col.created) :
    heads[done.length]? = some (column c.factory) := by
  rw [heads, List.getElem?_map, ← hsplit, List.getElem?_append_right (Nat.le_refl _), Nat.sub_self]
  rfl

theorem getElem?_columns (hcols : st.columns <+: heads) {k : ℕ} (hlt : k < st.columns.length) :
    st.columns[k]? = heads[k]? := by
  rw [List.prefix_iff_getElem?.mp hcols k hlt, List.getElem?_eq_getElem hlt]

/-- The index knows a column of a batch by its place. -/
theorem Store.Corresponds.found (h : st.Corresponds) (hcols : st.columns <+: heads) {k i : ℕ}
    {col : Column} (hk : heads[k]? = some col) (hget : st.colIndex.get col.name = some i) :
    i = k ∧ st.columns[k]? = some col := by
  have hname : (st.columns.map Column.name)[i]? = some col.name := by
    rw [← h.names]
    exact (h.index col.name i).mp hget
  have hlt : i < st.columns.length := by
    have := (List.getElem?_eq_some_iff.mp hname).1
    rwa [List.length_map] at this
  have hheads : (heads.map Column.name)[i]? = (heads.map Column.name)[k]? := by
    rw [List.getElem?_map, ← getElem?_columns hcols hlt, ← List.getElem?_map, hname,
      List.getElem?_map, hk, Option.map_some]
  have hlt' : i < (heads.map Column.name).length := by
    rw [List.length_map]
    exact Nat.lt_of_lt_of_le hlt hcols.length_le
  obtain rfl : i = k := (List.getElem?_inj hlt' nodup_names_heads).mp hheads
  exact ⟨rfl, (getElem?_columns hcols hlt).trans hk⟩

/-- A column of a batch that the index does not know is the next one to come. -/
theorem Store.Corresponds.next (h : st.Corresponds) (hcols : st.columns <+: heads) {k : ℕ}
    {col : Column} (hk : heads[k]? = some col) (hle : k ≤ st.columns.length)
    (hget : st.colIndex.get col.name = none) : st.columns.length = k := by
  rcases Nat.eq_or_lt_of_le hle with heq | hlt
  · exact heq.symm
  · have hcol := (getElem?_columns hcols hlt).trans hk
    refine absurd ?_ (h.not_mem hget)
    rw [h.names]
    exact List.mem_map_of_mem (List.mem_of_getElem? hcol)

/-- The next column of a batch is added behind the others. -/
theorem add_isPrefix (hcols : st.columns <+: heads) {col : Column}
    (hk : heads[st.columns.length]? = some col) : (st.add col).columns <+: heads := by
  obtain ⟨tail, htail⟩ := hcols
  rw [← htail, List.getElem?_append_right (Nat.le_refl _), Nat.sub_self] at hk
  cases tail with
  | nil => cases hk
  | cons first tail =>
    obtain rfl : first = col := by simpa using hk
    refine ⟨tail, ?_⟩
    rw [← htail, Store.add, List.append_assoc]
    rfl

/-- The variables of a batch, from variable `done.length` on, over columns that are clear. -/
theorem wp_makeCols {fault : ℕ → MakeFault} (done : List Col) {rest : List Col}
    (hsplit : done ++ rest = Col.created) (h : st.Corresponds) (hcols : st.columns <+: heads)
    (hle : done.length ≤ st.columns.length) (hvars : Assigned vars done) :
    wp (makeCols fault done.length rest vars)
      (fun vars' st' => st'.Corresponds ∧ st'.columns = heads ∧ Assigned vars' Col.created)
      (fun _ st' => st'.Corresponds ∧ st'.columns <+: heads ∧ ∃ k, fault k ≠ .none) st := by
  induction rest generalizing done st vars with
  | nil =>
    have hdone : done = Col.created := by rw [← hsplit, List.append_nil]
    refine ⟨h, hcols.eq_of_length_le ?_, hdone ▸ hvars⟩
    rw [heads, List.length_map, ← hdone]
    exact hle
  | cons c rest ih =>
    have hk := getElem?_heads hsplit
    have hc : c ∉ done := by
      have hnodup := Col.nodup_created
      rw [← hsplit] at hnodup
      exact fun hmem => List.disjoint_of_nodup_append hnodup hmem List.mem_cons_self
    have hsplit' : (done ++ [c]) ++ rest = Col.created := by rw [List.append_assoc]; exact hsplit
    have hlen : (done ++ [c]).length = done.length + 1 := List.length_append
    rw [makeCols, wp_bind]
    refine wp_mono (wp_makeCol h) ?_ ?_
    · rintro i st' (⟨rfl, hget⟩ | ⟨hget, hi, rfl⟩)
      · obtain ⟨rfl, hcol⟩ := h.found hcols hk hget
        have hlt := (List.getElem?_eq_some_iff.mp hcol).1
        have := ih _ hsplit' h hcols (by omega) (hvars.concat hc)
        rwa [hlen] at this
      · have hnext := h.next hcols hk hle hget
        rw [hi, hnext]
        have hadd := add_isPrefix hcols (hnext ▸ hk)
        have := ih _ hsplit' (h.add hget) hadd (by simp [Store.add]; omega) (hvars.concat hc)
        rwa [hlen] at this
    · rintro e st' ⟨rfl, hcause⟩
      refine ⟨h, hcols, done.length, fun hnone => ?_⟩
      obtain ⟨i, hget, hcls⟩ := hcause hnone
      obtain ⟨rfl, hcol⟩ := h.found hcols hk hget
      rw [hcol] at hcls
      exact hcls rfl

/-! ## Appends -/

/-- The same columns, which may hold other values. -/
structure Store.SameHeads (st st' : Store) : Prop where
  columns : st'.columns.map Column.clear = st.columns.map Column.clear
  colNames : st'.colNames = st.colNames
  colIndex : st'.colIndex = st.colIndex

theorem Store.SameHeads.refl (st : Store) : st.SameHeads st := ⟨rfl, rfl, rfl⟩

theorem Store.SameHeads.trans {st'' : Store} (h : st.SameHeads st') (h' : st'.SameHeads st'') :
    st.SameHeads st'' :=
  ⟨h'.columns.trans h.columns, h'.colNames.trans h.colNames, h'.colIndex.trans h.colIndex⟩

theorem map_name_clear (cols : List Column) :
    (cols.map Column.clear).map Column.name = cols.map Column.name := by
  rw [List.map_map]
  rfl

theorem Store.Corresponds.of_sameHeads (h : st.Corresponds) (hsame : st.SameHeads st') :
    st'.Corresponds := by
  constructor
  · rw [hsame.colNames, h.names, ← map_name_clear, ← hsame.columns, map_name_clear]
  · rw [hsame.colNames]
    exact h.nodup
  · rw [hsame.colNames, hsame.colIndex]
    exact h.index

theorem Store.Headed.of_sameHeads (h : st.Headed) (hsame : st.SameHeads st') : st'.Headed := by
  rw [Store.Headed, hsame.columns]
  exact h

theorem clear_clear (col : Column) : col.clear.clear = col.clear := by
  obtain ⟨name, elem, buffer⟩ := col
  cases buffer <;> rfl

theorem clear_append (v : Cell) (col : Column) : (col.append v).clear = col.clear := by
  obtain ⟨name, elem, buffer⟩ := col
  cases buffer <;> rfl

theorem clear_appendHalf (v : Cell) (col : Column) : (col.appendHalf v).clear = col.clear := by
  obtain ⟨name, elem, buffer⟩ := col
  cases buffer <;> rfl

theorem Store.sameHeads_clear (st : Store) : st.SameHeads st.clear := by
  refine ⟨?_, rfl, rfl⟩
  rw [Store.clear, List.map_map]
  exact List.map_congr_left fun col _ => clear_clear col

/-- A change of what column `i` holds. -/
theorem sameHeads_modify {f : Column → Column} (hf : ∀ col, (f col).clear = col.clear) (i : ℕ) :
    st.SameHeads { st with columns := st.columns.modify i f } := by
  refine ⟨List.ext_getElem? fun j => ?_, rfl, rfl⟩
  simp only [List.getElem?_map, List.getElem?_modify, Option.map_eq_map, Option.map_map]
  congr 1
  funext col
  simp only [Function.comp_apply]
  split
  · exact hf col
  · rfl

theorem modify_append_cons {α : Type} (pre : List α) (a : α) (post : List α) (f : α → α) :
    (pre ++ a :: post).modify pre.length f = pre ++ f a :: post := by
  induction pre with
  | nil => rfl
  | cons b pre ih =>
    rw [List.cons_append, List.length_cons, List.modify_succ_cons, ih, List.cons_append]

theorem wp_appendCell {fault : AppendFault} {i : ℕ} {v : Cell} :
    wp (appendCell fault i v)
      (fun _ st' => st.SameHeads st' ∧ st'.columns = st.columns.modify i (Column.append v))
      (fun _ st' => st.SameHeads st' ∧ fault ≠ .none) st := by
  cases fault with
  | none => exact ⟨sameHeads_modify (clear_append v) i, rfl⟩
  | early e => exact ⟨.refl st, nofun⟩
  | half e => exact ⟨sameHeads_modify (clear_appendHalf v) i, nofun⟩

theorem columnOf_concat (c : Col) (rows : List PschEvent) (ev : PschEvent) :
    columnOf c (rows ++ [ev]) = (columnOf c rows).append (c.cell ev) := by
  rw [columnOf, List.foldl_append]
  rfl

/-- The appends of an event, from variable `done.length` on. -/
theorem wp_appendCells {fault : ℕ → AppendFault} (done : List Col) {rest : List Col}
    (hsplit : done ++ rest = Col.created) (hvars : Assigned vars Col.created)
    (hcols : st.columns = done.map (fun c => columnOf c (rows ++ [ev])) ++
      rest.map fun c => columnOf c rows) :
    wp (appendCells fault vars ev done.length rest)
      (fun _ st' => st.SameHeads st' ∧ st'.Filled (rows ++ [ev]))
      (fun _ st' => st.SameHeads st' ∧ ∃ k, fault k ≠ .none) st := by
  induction rest generalizing done st with
  | nil =>
    refine ⟨.refl st, ?_⟩
    rw [List.append_nil] at hsplit
    rw [Store.Filled, hcols, hsplit, List.map_nil, List.append_nil]
  | cons c rest ih =>
    have hc : vars c = done.length := by
      apply hvars
      rw [← hsplit, List.getElem?_append_right (Nat.le_refl _), Nat.sub_self]
      rfl
    have hsplit' : (done ++ [c]) ++ rest = Col.created := by rw [List.append_assoc]; exact hsplit
    rw [appendCells, wp_bind, hc]
    refine wp_mono wp_appendCell ?_ ?_
    · rintro _ st' ⟨hsame, hmod⟩
      have hcols' : st'.columns = (done ++ [c]).map (fun c => columnOf c (rows ++ [ev])) ++
          rest.map fun c => columnOf c rows := by
        have hat := modify_append_cons (done.map fun c => columnOf c (rows ++ [ev]))
          (columnOf c rows) (rest.map fun c => columnOf c rows) (Column.append (c.cell ev))
        rw [List.length_map, ← columnOf_concat] at hat
        rw [hmod, hcols, List.map_cons, hat, List.map_append, List.append_assoc]
        rfl
      have hrest := ih _ hsplit' hcols'
      rw [List.length_append] at hrest
      refine wp_mono hrest ?_ ?_
      · exact fun _ _ h => ⟨hsame.trans h.1, h.2⟩
      · exact fun _ _ h => ⟨hsame.trans h.1, h.2⟩
    · rintro e st' ⟨hsame, hfault⟩
      exact ⟨hsame, done.length, hfault⟩

end Batch

/-! ## Blocks -/

/-- What `Crunch` hands to the block builder. -/
structure BlockColumn where
  name : String
  buffer : Buffer
deriving DecidableEq

abbrev Block := List BlockColumn

def Column.crunch (col : Column) : BlockColumn := ⟨col.name, col.buffer⟩

/-- The block of all columns. -/
def Store.block (st : Store) : Block := st.columns.map Column.crunch

/-- `BuildInsertQuery`, for these `col_names_`. -/
def buildInsertQuery (colNames : List String) : String :=
  "INSERT INTO events_raw (" ++ ", ".intercalate colNames ++ ") VALUES"

/-- A text in a block is its bytes, of either class of column. -/
def onWire : Cell → Cell
  | .stringView v => .string v
  | v => v

/-- The statement that every block is inserted with. -/
def insertStatement : String := String.join
  ["INSERT INTO events_raw (ts, duration_us, db_name, db_user, pid, query_id, db_operation, ",
   "rows, query_text, shared_blks_hit, shared_blks_read, shared_blks_dirtied, ",
   "shared_blks_written, local_blks_hit, local_blks_read, local_blks_dirtied, ",
   "local_blks_written, temp_blks_read, temp_blks_written, shared_blk_read_time_us, ",
   "shared_blk_write_time_us, local_blk_read_time_us, local_blk_write_time_us, ",
   "temp_blk_read_time_us, temp_blk_write_time_us, wal_records, wal_fpi, wal_bytes, ",
   "cpu_user_time_us, cpu_sys_time_us, jit_functions, jit_generation_time_us, ",
   "jit_deform_time_us, jit_inlining_time_us, jit_optimization_time_us, ",
   "jit_emission_time_us, parallel_workers_planned, parallel_workers_launched, ",
   "err_sqlstate, err_elevel, err_message, app, client_addr) VALUES"]

/-- What the table `events_raw` is to have of an event: the names of its columns, in the order of
the statement, with the event's values. -/
def expectedColumns (ev : PschEvent) : List (String × Cell) :=
  let f := ev.fixed
  [("ts", .int64 (f.tsStart + 946684800000000)),
   ("duration_us", .uint64 f.durationUs),
   ("db_name", .string (f.datname.bytes f.datnameLen.toNat)),
   ("db_user", .string (f.username.bytes f.usernameLen.toNat)),
   ("pid", .int32 f.pid),
   ("query_id", .int64 f.queryid.toInt64),
   ("db_operation", .string (utf8 (pschCmdTypeToString f.cmdType))),
   ("rows", .uint64 f.rows),
   ("query_text", .string (ev.query.bytes (min ev.queryLen.toNat pschMaxQueryLen))),
   ("shared_blks_hit", .int64 f.sharedBlksHit),
   ("shared_blks_read", .int64 f.sharedBlksRead),
   ("shared_blks_dirtied", .int64 f.sharedBlksDirtied),
   ("shared_blks_written", .int64 f.sharedBlksWritten),
   ("local_blks_hit", .int64 f.localBlksHit),
   ("local_blks_read", .int64 f.localBlksRead),
   ("local_blks_dirtied", .int64 f.localBlksDirtied),
   ("local_blks_written", .int64 f.localBlksWritten),
   ("temp_blks_read", .int64 f.tempBlksRead),
   ("temp_blks_written", .int64 f.tempBlksWritten),
   ("shared_blk_read_time_us", .int64 f.sharedBlkReadTimeUs),
   ("shared_blk_write_time_us", .int64 f.sharedBlkWriteTimeUs),
   ("local_blk_read_time_us", .int64 f.localBlkReadTimeUs),
   ("local_blk_write_time_us", .int64 f.localBlkWriteTimeUs),
   ("temp_blk_read_time_us", .int64 f.tempBlkReadTimeUs),
   ("temp_blk_write_time_us", .int64 f.tempBlkWriteTimeUs),
   ("wal_records", .int64 f.walRecords),
   ("wal_fpi", .int64 f.walFpi),
   ("wal_bytes", .uint64 f.walBytes),
   ("cpu_user_time_us", .int64 f.cpuUserTimeUs),
   ("cpu_sys_time_us", .int64 f.cpuSysTimeUs),
   ("jit_functions", .int32 f.jitFunctions),
   ("jit_generation_time_us", .int32 f.jitGenerationTimeUs),
   ("jit_deform_time_us", .int32 f.jitDeformTimeUs),
   ("jit_inlining_time_us", .int32 f.jitInliningTimeUs),
   ("jit_optimization_time_us", .int32 f.jitOptimizationTimeUs),
   ("jit_emission_time_us", .int32 f.jitEmissionTimeUs),
   ("parallel_workers_planned", .int16 f.parallelWorkersPlanned),
   ("parallel_workers_launched", .int16 f.parallelWorkersLaunched),
   ("err_sqlstate", .string (f.errSqlstate.bytes (strnlen f.errSqlstate 5))),
   ("err_elevel", .uint8 f.errElevel),
   ("err_message", .string (ev.errMessage.bytes (min ev.errMessageLen.toNat pschMaxErrMsgLen))),
   ("app", .string (f.applicationName.bytes (min f.applicationNameLen.toNat pschMaxAppNameLen))),
   ("client_addr", .string (f.clientAddr.bytes (min f.clientAddrLen.toNat pschMaxClientAddrLen)))]

/-- Row `i` of a block: the names of the columns with the values that stand in them. -/
def Block.row (block : Block) (i : ℕ) : List (String × Option Cell) :=
  block.map fun col => (col.name, col.buffer.values[i]?)

/-- The block has the columns of the statement, in its order, and in each as many values as there
are events; row `i` is event `i`. -/
structure Rectangular (events : List PschEvent) (query : String) (block : Block) : Prop where
  statement : query = insertStatement
  order : query = "INSERT INTO events_raw (" ++ ", ".intercalate (block.map BlockColumn.name) ++
    ") VALUES"
  numRows : ∀ col ∈ block, col.buffer.numRows = events.length
  rows : ∀ i ev, events[i]? = some ev →
    block.row i = (expectedColumns ev).map fun (name, v) => (name, some v)

namespace Buffer

variable {b : Buffer}

/-- The texts fill the bytes. -/
def Tight : Buffer → Prop
  | .fixed _ _ => True
  | .strings p => p.Tight

/-- How a value of the column comes out. -/
def wire (v : Cell) : Buffer → Cell
  | .fixed _ _ => v
  | .strings _ => .string (textBytes v)

theorem length_values (b : Buffer) : b.values.length = b.numRows := by
  cases b with
  | fixed typeName data => rfl
  | strings p => rw [values, List.length_map, Packed.decode, Packed.length_slices, numRows]

theorem Tight.append (h : b.Tight) (v : Cell) : (b.append v).Tight := by
  cases b with
  | fixed typeName data => trivial
  | strings p => exact Packed.Tight.append h

theorem Tight.values_append (h : b.Tight) (v : Cell) :
    (b.append v).values = b.values ++ [b.wire v] := by
  cases b with
  | fixed typeName data => rfl
  | strings p =>
    have hdecode : (p.append (textBytes v)).decode = _ := Packed.Tight.decode_append h
    simp only [Buffer.append, values, hdecode, List.map_append]
    rfl

theorem wire_append (b : Buffer) (v w : Cell) : (b.append w).wire v = b.wire v := by
  cases b <;> rfl

end Buffer

section Blocks

variable {st : Store} {rows : List PschEvent}

theorem tight_column (c : Col) : (column c.factory).buffer.Tight := by
  cases c <;> first | trivial | exact Packed.tight_empty

/-- A column's values are of its class. -/
theorem wire_cell (ev : PschEvent) (c : Col) :
    (column c.factory).buffer.wire (c.cell ev) = onWire (c.cell ev) := by
  cases c <;> rfl

theorem values_column (c : Col) : (column c.factory).buffer.values = [] := by
  cases c <;> rfl

theorem name_columnOf (c : Col) (rows : List PschEvent) :
    (columnOf c rows).name = (column c.factory).name := by
  induction rows using List.reverseRecOn with
  | nil => rfl
  | append_singleton rows ev ih => rw [columnOf_concat, Column.append, ih]

theorem tight_columnOf (c : Col) (rows : List PschEvent) : (columnOf c rows).buffer.Tight := by
  induction rows using List.reverseRecOn with
  | nil => exact tight_column c
  | append_singleton rows ev ih =>
    rw [columnOf_concat]
    exact ih.append _

theorem wire_columnOf (c : Col) (rows : List PschEvent) (v : Cell) :
    (columnOf c rows).buffer.wire v = (column c.factory).buffer.wire v := by
  induction rows using List.reverseRecOn with
  | nil => rfl
  | append_singleton rows ev ih => rw [columnOf_concat, Column.append, Buffer.wire_append, ih]

/-- After the appends of these events a column holds their fields. -/
theorem values_columnOf (c : Col) (rows : List PschEvent) :
    (columnOf c rows).buffer.values = rows.map fun ev => onWire (c.cell ev) := by
  induction rows using List.reverseRecOn with
  | nil => exact values_column c
  | append_singleton rows ev ih =>
    rw [columnOf_concat, Column.append, (tight_columnOf c rows).values_append, wire_columnOf,
      wire_cell, ih, List.map_append]
    rfl

/-- The names and values of a row are those that the table is to have. -/
theorem row_expected (ev : PschEvent) :
    (Col.created.map fun c => ((column c.factory).name, onWire (c.cell ev))) =
      expectedColumns ev := by
  simp only [Col.created, List.map_cons, List.map_nil, Col.factory, Col.cell, column, onWire,
    fixedCol, stringCol, statLCString, statHCString, statHCUInt64, clampFieldLen_eq_min]
  rfl

theorem utf8_buildInsertQuery (names : List String) :
    utf8 (buildInsertQuery names) =
      utf8 "INSERT INTO events_raw (" ++ (utf8 ", ").intercalate (names.map utf8) ++
        utf8 ") VALUES" := by
  have hlist : ∀ a sep c : String, utf8 (a ++ sep.intercalate names ++ c) =
      utf8 a ++ (utf8 sep).intercalate (names.map utf8) ++ utf8 c := by
    intro a sep c
    rw [utf8_append, utf8_append, utf8_intercalate]
  exact hlist _ _ _

-- compared byte by byte and line by line: a long literal is slow to unfold
theorem buildInsertQuery_heads : buildInsertQuery (heads.map Column.name) = insertStatement := by
  apply utf8_injective
  refine (utf8_buildInsertQuery _).trans (Eq.trans ?_ (utf8_join _).symm)
  decide +kernel

/-- The block of a batch. -/
theorem Store.Filled.rectangular (h : st.Filled rows) (hcorr : st.Corresponds) :
    Rectangular rows (buildInsertQuery st.colNames) st.block := by
  have hname : st.block.map BlockColumn.name = st.columns.map Column.name := by
    rw [Store.block, List.map_map]
    rfl
  have hheads : st.columns.map Column.name = heads.map Column.name := by
    rw [h, heads, List.map_map, List.map_map]
    exact List.map_congr_left fun c _ => name_columnOf c rows
  constructor
  · rw [hcorr.names, hheads, buildInsertQuery_heads]
  · rw [hname, hcorr.names]
    rfl
  · intro col hcol
    rw [Store.block, h, List.map_map] at hcol
    obtain ⟨c, -, rfl⟩ := List.mem_map.mp hcol
    rw [← Buffer.length_values]
    exact (congrArg List.length (values_columnOf c rows)).trans (List.length_map _)
  · intro i ev hev
    have hcell : ∀ c : Col, (columnOf c rows).crunch.buffer.values[i]? = some (onWire (c.cell ev)) := by
      intro c
      have hvalues : (columnOf c rows).crunch.buffer.values = _ := values_columnOf c rows
      rw [hvalues, List.getElem?_map, hev, Option.map_some]
    rw [Block.row, Store.block, h, ← row_expected, List.map_map, List.map_map, List.map_map]
    refine List.map_congr_left fun c _ => ?_
    simp only [Function.comp_apply, hcell]
    exact congrArg (fun name => (name, some (onWire (c.cell ev)))) (name_columnOf c rows)

end Blocks

end Chc

end PgStatCh
