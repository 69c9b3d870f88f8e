import Mathlib.Data.Multiset.Count
import Mathlib.Tactic.Linarith
import PgStatCh.Queue.Intern

/-!
# Queue.Resources — who owns what in the string area

Every block of the string area has an owner, and every counted reference to an
interned object a holder. What a process (or a ring slot) holds is a multiset of
resources:

* `str p bytes` — sole owner of the error text at `p`;
* `obj p key text` — sole owner of an object that no table entry points to: one
  not yet entered, or one already removed;
* `ref p key text` — one of the references that the entry of `key` counts.

`MemInv m H` ties the memory to all holdings `H` together. Each operation of the
string area and the interner takes some resources from its caller, gives some
back and leaves the rest of `H` alone; the lemmas below say so once for each
operation, for any `H`, and everything later (no leak, no double free, no access
to freed memory, exact counts) is read off `MemInv`.
-/

namespace PgStatCh

open Lib

/-- A piece of the string area that somebody holds. -/
inductive Res where
  | str (p : DsaPointer) (bytes : List UInt8)
  | obj (p : DsaPointer) (key : PschQueryInternKey) (text : List UInt8)
  | ref (p : DsaPointer) (key : PschQueryInternKey) (text : List UInt8)
deriving DecidableEq

namespace Res

/-- The address. -/
def ptr : Res → DsaPointer
  | str p _ => p
  | obj p _ _ => p
  | ref p _ _ => p

/-- What the holder may rely on finding there. -/
def body : Res → Body
  | str _ bytes => .str bytes
  | obj _ key text => .obj (internObject key text)
  | ref _ key text => .obj (internObject key text)

/-- Is this the right to the block itself, not a share of it? -/
def Sole : Res → Prop
  | str .. => True
  | obj .. => True
  | ref .. => False

/-- Is this a share that a table entry counts? -/
def IsRef : Res → Prop
  | str .. => False
  | obj .. => False
  | ref .. => True

instance : DecidablePred IsRef
  | str .. => inferInstanceAs (Decidable False)
  | obj .. => inferInstanceAs (Decidable False)
  | ref .. => inferInstanceAs (Decidable True)

/-- Is this a share of the object at `p`? -/
def RefTo (p : DsaPointer) : Res → Prop
  | str .. => False
  | obj .. => False
  | ref q .. => q = p

instance (p : DsaPointer) : DecidablePred (RefTo p)
  | str .. => inferInstanceAs (Decidable False)
  | obj .. => inferInstanceAs (Decidable False)
  | ref q .. => inferInstanceAs (Decidable (q = p))

end Res

/-- The number of references in a holding. -/
def refs (H : Multiset Res) : ℕ := H.countP Res.IsRef

@[simp] theorem refs_zero : refs 0 = 0 := rfl

@[simp] theorem refs_add (H H' : Multiset Res) : refs (H + H') = refs H + refs H' :=
  Multiset.countP_add _ _ _

@[simp] theorem refs_str (p : DsaPointer) (b : List UInt8) : refs {.str p b} = 0 := rfl

@[simp] theorem refs_obj (p : DsaPointer) (k : PschQueryInternKey) (t : List UInt8) :
    refs {.obj p k t} = 0 := rfl

@[simp] theorem refs_ref (p : DsaPointer) (k : PschQueryInternKey) (t : List UInt8) :
    refs {.ref p k t} = 1 := rfl

theorem refs_sum {ι : Type*} (S : Finset ι) (f : ι → Multiset Res) :
    refs (∑ i ∈ S, f i) = ∑ i ∈ S, refs (f i) :=
  map_sum (Multiset.countPAddMonoidHom Res.IsRef) f S

theorem refs_list_sum (Hs : List (Multiset Res)) : refs Hs.sum = (Hs.map refs).sum :=
  map_list_sum (Multiset.countPAddMonoidHom Res.IsRef) Hs

/-- The memory and what is held of it agree. -/
structure MemInv (hash : List UInt8 → UInt64) (m : Mem) (H : Multiset Res) : Prop where
  no_fault : m.fault = false
  null : m.dsa.body? invalidDsaPointer = none
  held : ∀ r ∈ H, m.dsa.body? r.ptr = some r.body
  sole_one : ∀ r, r.Sole → H.count r ≤ 1
  sole_apart : ∀ r ∈ H, r.Sole → ∀ k e, m.table.get k = some e → e.object ≠ r.ptr
  ref_entry : ∀ p k t, Res.ref p k t ∈ H → ∃ e, m.table.get k = some e ∧ e.object = p
  entry : ∀ k e, m.table.get k = some e → ∃ t, KeyFits hash k t ∧
    m.dsa.body? e.object = some (.obj (internObject k t)) ∧
    e.refcount.toNat = H.count (.ref e.object k t) ∧ 0 < e.refcount.toNat
  owned : ∀ p b, m.dsa.body? p = some b →
    (∃ r ∈ H, r.Sole ∧ r.ptr = p) ∨ ∃ k e, m.table.get k = some e ∧ e.object = p

/-! ## Small facts -/

@[simp] theorem internObject_inj {k k' : PschQueryInternKey} {t t' : List UInt8} :
    internObject k t = internObject k' t' ↔ k = k' ∧ t = t' := by
  simp [internObject]

theorem Mem.object?_of_body {m : Mem} {p : DsaPointer} {o : PschQueryInternObject}
    (h : m.dsa.body? p = some (.obj o)) : m.object? p = some o := by
  simp [Mem.object?, h]

theorem makeKey_fits (hash : List UInt8 → UInt64) (dbid : UInt32) (queryid : UInt64)
    {text : List UInt8} (hlen : text.length < 2 ^ 16) :
    KeyFits hash (makeKey hash dbid queryid text) text := by
  refine ⟨rfl, ?_⟩
  simp only [makeKey, UInt16.toNat_ofNat']
  exact Nat.mod_eq_of_lt hlen

/-- An object matches exactly the text it was made from. -/
theorem objectMatches_internObject {hash : List UInt8 → UInt64} {k : PschQueryInternKey}
    {t text : List UInt8} (ht : KeyFits hash k t) (htext : KeyFits hash k text) :
    objectMatches (internObject k t) text = true ↔ t = text := by
  have hlen : text.length = t.length := by rw [← htext.2, ← ht.2]
  have hkey : k.queryLen = UInt16.ofNat text.length := by
    rw [← htext.2]
    simp
  simp [objectMatches, internObject, hkey, hlen]

/-- An owner of the block is determined by the address and the contents. -/
theorem Res.sole_ext {r r' : Res} (hs : r.Sole) (hs' : r'.Sole) (hptr : r.ptr = r'.ptr)
    (hbody : r.body = r'.body) : r = r' := by
  cases r <;> cases r' <;> simp_all [Res.Sole, Res.ptr, Res.body]

/-- Distinct members with a property are together no more than the members with it. -/
theorem sum_count_le_countP {α : Type*} [DecidableEq α] {P : α → Prop} [DecidablePred P]
    {S : Finset α} {H : Multiset α} (hS : ∀ r ∈ S, P r) :
    ∑ r ∈ S, H.count r ≤ H.countP P := by
  calc ∑ r ∈ S, H.count r
      = ∑ r ∈ S, (H.filter P).count r := by
        apply Finset.sum_congr rfl
        intro r hr
        rw [Multiset.count_filter_of_pos (hS r hr)]
    _ ≤ ∑ r ∈ S ∪ (H.filter P).toFinset, (H.filter P).count r :=
        Finset.sum_le_sum_of_subset Finset.subset_union_left
    _ = (H.filter P).card := by
        apply Multiset.sum_count_eq_card
        intro r hr
        exact Finset.mem_union_right _ (Multiset.mem_toFinset.mpr hr)
    _ = H.countP P := (Multiset.countP_eq_card_filter _ _).symm

namespace MemInv

variable {hash : List UInt8 → UInt64} {m : Mem} {H : Multiset Res}

/-- An empty string area and nothing held. -/
theorem init (hash : List UInt8 → UInt64) : MemInv hash {} 0 where
  no_fault := rfl
  null := rfl
  held := by simp
  sole_one := by simp
  sole_apart := by simp
  ref_entry := by simp
  entry := by simp
  owned := by simp

/-- Two references to one address are references to one object. -/
theorem ref_unique (h : MemInv hash m H) {p : DsaPointer} {k k' : PschQueryInternKey}
    {t t' : List UInt8} (hr : Res.ref p k t ∈ H) (hr' : Res.ref p k' t' ∈ H) :
    k = k' ∧ t = t' := by
  have hb := h.held _ hr
  have hb' := h.held _ hr'
  simp only [Res.ptr, Res.body] at hb hb'
  rw [hb'] at hb
  simpa [eq_comm] using hb

/-- No object is reachable from two entries. -/
theorem entry_inj (h : MemInv hash m H) {k k' : PschQueryInternKey}
    {e e' : PschQueryInternEntry} (hk : m.table.get k = some e) (hk' : m.table.get k' = some e')
    (hobj : e.object = e'.object) : k = k' := by
  obtain ⟨t, -, hb, -⟩ := h.entry k e hk
  obtain ⟨t', -, hb', -⟩ := h.entry k' e' hk'
  rw [hobj, hb'] at hb
  simp only [Option.some.injEq, Body.obj.injEq, internObject_inj] at hb
  exact hb.1.symm

/-- The entry of an object counts the references to its text. -/
theorem entry_of_body (h : MemInv hash m H) {k : PschQueryInternKey} {e : PschQueryInternEntry}
    {t : List UInt8} (hk : m.table.get k = some e)
    (hb : m.dsa.body? e.object = some (.obj (internObject k t))) :
    KeyFits hash k t ∧ e.refcount.toNat = H.count (.ref e.object k t) ∧ 0 < e.refcount.toNat := by
  obtain ⟨t', hfit, hb', hcount, hpos⟩ := h.entry k e hk
  rw [hb] at hb'
  simp only [Option.some.injEq, Body.obj.injEq, internObject_inj] at hb'
  obtain ⟨-, rfl⟩ := hb'
  exact ⟨hfit, hcount, hpos⟩

/-- A block in use is not at the null pointer. -/
theorem ne_null (h : MemInv hash m H) {p : DsaPointer} {b : Body}
    (hb : m.dsa.body? p = some b) : p ≠ invalidDsaPointer := by
  rintro rfl
  rw [h.null] at hb
  cases hb

/-- The owner of a block is the only one who holds anything at its address. -/
theorem ptr_ne_of_sole {r r' : Res} (h : MemInv hash m (r ::ₘ H)) (hs : r.Sole) (hin : r' ∈ H) :
    r'.ptr ≠ r.ptr := by
  intro hptr
  have hr : r ∈ r ::ₘ H := Multiset.mem_cons_self _ _
  have hr' : r' ∈ r ::ₘ H := Multiset.mem_cons_of_mem hin
  by_cases hs' : r'.Sole
  · -- the other owner would be the same resource, held twice
    have hbody : r'.body = r.body := by
      have hb := h.held r hr
      rw [← hptr, h.held r' hr'] at hb
      exact Option.some.inj hb
    obtain rfl := Res.sole_ext hs' hs hptr hbody
    have hone := h.sole_one r' hs
    have hcount := Multiset.one_le_count_iff_mem.mpr hin
    rw [Multiset.count_cons_self] at hone
    omega
  · -- a reference keeps its object in the table, away from owners
    cases r' with
    | str => exact hs' trivial
    | obj => exact hs' trivial
    | ref p k t =>
      obtain ⟨e, he, hobj⟩ := h.ref_entry p k t hr'
      exact h.sole_apart r hr hs k e he (hobj.trans hptr)

/-- With nothing held, nothing is left: no entry and no block. -/
theorem nothing_left (h : MemInv hash m 0) :
    (∀ k, m.table.get k = none) ∧ ∀ p, m.dsa.body? p = none := by
  have htable : ∀ k, m.table.get k = none := by
    intro k
    cases hk : m.table.get k with
    | none => rfl
    | some e =>
      obtain ⟨t, -, -, hcount, hpos⟩ := h.entry k e hk
      simp at hcount
      simp [hcount] at hpos
  refine ⟨htable, fun p => ?_⟩
  cases hp : m.dsa.body? p with
  | none => rfl
  | some b =>
    rcases h.owned p b hp with ⟨r, hin, -⟩ | ⟨k, e, he, -⟩
    · simp at hin
    · simp [htable k] at he

/-! ## Allocating and freeing -/

/-- A counted allocation failure touches nothing that is held. -/
theorem oom (h : MemInv hash m H) (c : UInt64) : MemInv hash { m with dsaOomCount := c } H :=
  { h with }

/-- A block in use is not the one handed out, so it stays as it is. -/
theorem alloc_body?_of_some {p q : DsaPointer} {b c : Body} (hfree : m.dsa.live p = none)
    (hq : m.dsa.body? q = some c) : (m.dsa.alloc p b hfree).body? q = some c := by
  have hne : q ≠ p := by
    rintro rfl
    rw [Heap.body?_eq_none.mpr hfree] at hq
    cases hq
  rw [Heap.alloc_body?, if_neg hne, hq]

/-- A new block belongs to the process that allocated it. -/
theorem alloc (h : MemInv hash m H) (r : Res) (hs : r.Sole) (hp : r.ptr ≠ invalidDsaPointer)
    (hfree : m.dsa.live r.ptr = none) :
    MemInv hash { m with dsa := m.dsa.alloc r.ptr r.body hfree } (r ::ₘ H) where
  no_fault := h.no_fault
  null := by
    rw [Heap.alloc_body?, if_neg (Ne.symm hp), h.null]
  held := by
    intro r' hin
    rcases Multiset.mem_cons.mp hin with rfl | hin
    · simp
    · exact alloc_body?_of_some hfree (h.held r' hin)
  sole_one := by
    intro r' hs'
    rw [Multiset.count_cons]
    split
    · next heq =>
      -- nobody holds anything at an address that is not in use
      have hzero : H.count r' = 0 := by
        rw [Multiset.count_eq_zero]
        intro hin
        have hb := h.held r' hin
        rw [heq, Heap.body?_eq_none.mpr hfree] at hb
        cases hb
      omega
    · exact h.sole_one r' hs'
  sole_apart := by
    intro r' hin hs' k e he
    rcases Multiset.mem_cons.mp hin with rfl | hin
    · intro hobj
      obtain ⟨_, -, hb, -⟩ := h.entry k e he
      rw [hobj, Heap.body?_eq_none.mpr hfree] at hb
      cases hb
    · exact h.sole_apart r' hin hs' k e he
  ref_entry := by
    intro p k t hin
    rcases Multiset.mem_cons.mp hin with heq | hin
    · rw [← heq] at hs
      exact hs.elim
    · exact h.ref_entry p k t hin
  entry := by
    intro k e hk
    obtain ⟨t, hfit, hb, hcount, hpos⟩ := h.entry k e hk
    refine ⟨t, hfit, alloc_body?_of_some hfree hb, ?_, hpos⟩
    rw [Multiset.count_cons_of_ne, hcount]
    rintro rfl
    exact hs
  owned := by
    intro p b hb
    rw [Heap.alloc_body?] at hb
    split at hb
    · next heq => exact Or.inl ⟨r, Multiset.mem_cons_self _ _, hs, heq.symm⟩
    · exact (h.owned p b hb).imp_left fun ⟨r', hin, hs', hptr⟩ =>
        ⟨r', Multiset.mem_cons_of_mem hin, hs', hptr⟩

/-- `dsaAllocate`: a new block for `mk`, or a counted failure, as it is answered. -/
theorem dsaAllocate {m' : Mem} {p : DsaPointer} {b : Body} {answer : Option DsaPointer}
    (h : MemInv hash m H) (mk : DsaPointer → Res)
    (hmk : ∀ q, (mk q).Sole ∧ (mk q).ptr = q ∧ (mk q).body = b)
    (halloc : m.dsaAllocate b answer = some (m', p)) :
    p = invalidDsaPointer ∧ answer = none ∧ MemInv hash m' H ∨
    p ≠ invalidDsaPointer ∧ answer ≠ none ∧ MemInv hash m' (mk p ::ₘ H) := by
  cases answer with
  | none =>
    simp only [Mem.dsaAllocate, Option.some.injEq, Prod.mk.injEq] at halloc
    obtain ⟨rfl, rfl⟩ := halloc
    exact Or.inl ⟨rfl, rfl, h.oom _⟩
  | some q =>
    simp only [Mem.dsaAllocate] at halloc
    split at halloc
    · next hq =>
      simp only [Option.some.injEq, Prod.mk.injEq] at halloc
      obtain ⟨rfl, rfl⟩ := halloc
      obtain ⟨hs, hptr, hbody⟩ := hmk q
      refine Or.inr ⟨hq.1, Option.some_ne_none _, ?_⟩
      have hinv := h.alloc (mk q) hs (by rw [hptr]; exact hq.1) (by rw [hptr]; exact hq.2)
      simpa only [hptr, hbody] using hinv
    · cases halloc

/-- The owner frees its block, and only that. -/
theorem free {r : Res} (h : MemInv hash m (r ::ₘ H)) (hs : r.Sole) :
    MemInv hash (m.dsaFree r.ptr) H := by
  have hself := h.held r (Multiset.mem_cons_self _ _)
  have hfree : m.dsaFree r.ptr = { m with dsa := m.dsa.free r.ptr } := by
    simp [Mem.dsaFree, hself]
  rw [hfree]
  refine ⟨h.no_fault, ?_, ?_, ?_, ?_, ?_, ?_, ?_⟩
  · simp [h.null]
  · intro r' hin
    rw [Heap.free_body?, if_neg (h.ptr_ne_of_sole hs hin)]
    exact h.held r' (Multiset.mem_cons_of_mem hin)
  · intro r' hs'
    exact le_trans (Multiset.count_le_count_cons _ _ _) (h.sole_one r' hs')
  · intro r' hin
    exact h.sole_apart r' (Multiset.mem_cons_of_mem hin)
  · intro p k t hin
    exact h.ref_entry p k t (Multiset.mem_cons_of_mem hin)
  · intro k e hk
    obtain ⟨t, hfit, hb, hcount, hpos⟩ := h.entry k e hk
    have hne : e.object ≠ r.ptr := h.sole_apart r (Multiset.mem_cons_self _ _) hs k e hk
    refine ⟨t, hfit, ?_, ?_, hpos⟩
    · simpa [hne] using hb
    · rw [hcount, Multiset.count_cons_of_ne]
      rintro rfl
      exact hs
  · intro p b hb
    rw [Heap.free_body?] at hb
    split at hb
    · cases hb
    · next hne =>
      rcases h.owned p b hb with ⟨r', hin, hs', hptr⟩ | hentry
      · rcases Multiset.mem_cons.mp hin with rfl | hin
        · exact absurd hptr.symm hne
        · exact Or.inl ⟨r', hin, hs', hptr⟩
      · exact Or.inr hentry

/-! ## Counting references -/

/-- Changing one entry's count is right when the references to its object, and
nothing else, change with it. -/
theorem recount {H' : Multiset Res} (h : MemInv hash m H) {k : PschQueryInternKey}
    {e : PschQueryInternEntry} {t : List UInt8} (hk : m.table.get k = some e)
    (hfit : KeyFits hash k t) (hb : m.dsa.body? e.object = some (.obj (internObject k t)))
    (hrest : ∀ r, r ≠ .ref e.object k t → H'.count r = H.count r)
    {c : UInt32} (hc : c.toNat = H'.count (.ref e.object k t)) (hpos : 0 < c.toNat) :
    MemInv hash { m with table := m.table.set k { e with refcount := c } } H' := by
  have hmem : ∀ r, r ≠ .ref e.object k t → (r ∈ H' ↔ r ∈ H) := by
    intro r hr
    rw [← Multiset.count_pos, ← Multiset.count_pos, hrest r hr]
  have hsole : ∀ r : Res, r.Sole → r ≠ .ref e.object k t := by
    rintro r hs rfl
    exact hs
  -- the entries point where they did
  have hget : ∀ k' e', (m.table.set k { e with refcount := c }).get k' = some e' →
      ∃ e₀, m.table.get k' = some e₀ ∧ e₀.object = e'.object ∧ (k' ≠ k → e₀ = e') := by
    intro k' e' he'
    rw [FinTable.get_set] at he'
    split at he'
    · next heq =>
      subst heq
      cases he'
      exact ⟨e, hk, rfl, fun hne => absurd rfl hne⟩
    · exact ⟨e', he', rfl, fun _ => rfl⟩
  refine ⟨h.no_fault, h.null, ?_, ?_, ?_, ?_, ?_, ?_⟩
  · intro r hin
    by_cases hr : r = .ref e.object k t
    · subst hr
      exact hb
    · exact h.held r ((hmem r hr).mp hin)
  · intro r hs
    rw [hrest r (hsole r hs)]
    exact h.sole_one r hs
  · intro r hin hs k' e' he'
    obtain ⟨e₀, he₀, hobj, -⟩ := hget k' e' he'
    rw [← hobj]
    exact h.sole_apart r ((hmem r (hsole r hs)).mp hin) hs k' e₀ he₀
  · intro p k' t' hin
    by_cases hr : Res.ref p k' t' = .ref e.object k t
    · cases hr
      exact ⟨_, FinTable.get_set_self _ _ _, rfl⟩
    · obtain ⟨e₀, he₀, hobj⟩ := h.ref_entry p k' t' ((hmem _ hr).mp hin)
      by_cases hkk : k' = k
      · subst hkk
        rw [hk] at he₀
        cases he₀
        exact ⟨_, FinTable.get_set_self _ _ _, hobj⟩
      · exact ⟨e₀, by simp [hkk, he₀], hobj⟩
  · intro k' e' he'
    by_cases hkk : k' = k
    · subst hkk
      simp only [FinTable.get_set, if_true, Option.some.injEq] at he'
      subst he'
      exact ⟨t, hfit, hb, hc, hpos⟩
    · obtain ⟨e₀, he₀, -, heq⟩ := hget k' e' he'
      obtain rfl := heq hkk
      obtain ⟨t', hfit', hb', hcount, hpos'⟩ := h.entry k' e₀ he₀
      refine ⟨t', hfit', hb', ?_, hpos'⟩
      rw [hcount, hrest]
      rintro heq
      exact hkk (Res.ref.inj heq).2.1
  · intro p b hpb
    rcases h.owned p b hpb with ⟨r, hin, hs, hptr⟩ | ⟨k', e₀, he₀, hobj⟩
    · exact Or.inl ⟨r, (hmem r (hsole r hs)).mpr hin, hs, hptr⟩
    · right
      by_cases hkk : k' = k
      · subst hkk
        rw [hk] at he₀
        cases he₀
        exact ⟨k', _, FinTable.get_set_self _ _ _, hobj⟩
      · exact ⟨k', e₀, by simp [hkk, he₀], hobj⟩

/-- A hit takes one more reference. -/
theorem take (h : MemInv hash m H) {k : PschQueryInternKey} {e : PschQueryInternEntry}
    {t : List UInt8} (hk : m.table.get k = some e) (hfit : KeyFits hash k t)
    (hb : m.dsa.body? e.object = some (.obj (internObject k t)))
    (hroom : e.refcount.toNat + 1 < 2 ^ 32) :
    MemInv hash { m with table := m.table.set k { e with refcount := e.refcount + 1 } }
      (.ref e.object k t ::ₘ H) := by
  obtain ⟨-, hcount, -⟩ := h.entry_of_body hk hb
  have hsucc : (e.refcount + 1).toNat = e.refcount.toNat + 1 := by
    rw [UInt32.toNat_add]
    exact Nat.mod_eq_of_lt hroom
  refine h.recount hk hfit hb ?_ ?_ (by omega)
  · intro r hr
    rw [Multiset.count_cons_of_ne hr]
  · rw [hsucc, Multiset.count_cons_self, hcount]

/-- Entering a new key turns the object into its first reference. -/
theorem enter {p : DsaPointer} {k : PschQueryInternKey} {t : List UInt8}
    (h : MemInv hash m (.obj p k t ::ₘ H)) (hfit : KeyFits hash k t)
    (hk : m.table.get k = none) :
    MemInv hash { m with table := m.table.set k { object := p, refcount := 1 } }
      (.ref p k t ::ₘ H) := by
  have hself : Res.obj p k t ∈ Res.obj p k t ::ₘ H := Multiset.mem_cons_self _ _
  have hb : m.dsa.body? p = some (.obj (internObject k t)) := h.held _ hself
  -- nobody refers to an object whose key is not in the table
  have hzero : ∀ q t', H.count (.ref q k t') = 0 := by
    intro q t'
    rw [Multiset.count_eq_zero]
    intro hin
    obtain ⟨e, he, -⟩ := h.ref_entry q k t' (Multiset.mem_cons_of_mem hin)
    rw [hk] at he
    cases he
  refine ⟨h.no_fault, h.null, ?_, ?_, ?_, ?_, ?_, ?_⟩
  · intro r hin
    rcases Multiset.mem_cons.mp hin with rfl | hin
    · exact hb
    · exact h.held r (Multiset.mem_cons_of_mem hin)
  · intro r hs
    rw [Multiset.count_cons_of_ne (by rintro rfl; exact hs)]
    exact le_trans (Multiset.count_le_count_cons _ _ _) (h.sole_one r hs)
  · intro r hin hs k' e he
    rcases Multiset.mem_cons.mp hin with rfl | hin
    · exact hs.elim
    rw [FinTable.get_set] at he
    split at he
    · cases he
      exact (h.ptr_ne_of_sole trivial hin).symm
    · exact h.sole_apart r (Multiset.mem_cons_of_mem hin) hs k' e he
  · intro q k' t' hin
    rcases Multiset.mem_cons.mp hin with heq | hin
    · cases heq
      exact ⟨_, FinTable.get_set_self _ _ _, rfl⟩
    · obtain ⟨e, he, hobj⟩ := h.ref_entry q k' t' (Multiset.mem_cons_of_mem hin)
      have hkk : k' ≠ k := by
        rintro rfl
        rw [hk] at he
        cases he
      exact ⟨e, by simp [hkk, he], hobj⟩
  · intro k' e he
    rw [FinTable.get_set] at he
    split at he
    · next heq =>
      subst heq
      cases he
      refine ⟨t, hfit, hb, ?_, by simp⟩
      rw [Multiset.count_cons_self, hzero]
      rfl
    · next hkk =>
      obtain ⟨t', hfit', hb', hcount, hpos⟩ := h.entry k' e he
      refine ⟨t', hfit', hb', ?_, hpos⟩
      rw [hcount, Multiset.count_cons_of_ne (by simp), Multiset.count_cons_of_ne]
      rintro heq
      exact hkk (Res.ref.inj heq).2.1
  · intro q b hqb
    rcases h.owned q b hqb with ⟨r, hin, hs, hptr⟩ | ⟨k', e, he, hobj⟩
    · rcases Multiset.mem_cons.mp hin with rfl | hin
      · exact Or.inr ⟨k, _, FinTable.get_set_self _ _ _, hptr⟩
      · exact Or.inl ⟨r, Multiset.mem_cons_of_mem hin, hs, hptr⟩
    · have hkk : k' ≠ k := by
        rintro rfl
        rw [hk] at he
        cases he
      exact Or.inr ⟨k', e, by simp [hkk, he], hobj⟩

theorem toNat_sub_one {c : UInt32} (hpos : 0 < c.toNat) : (c - 1).toNat = c.toNat - 1 := by
  rw [UInt32.toNat_sub_of_le _ _ (by rw [UInt32.le_iff_toNat_le]; exact hpos)]
  rfl

/-- A release that leaves other references drops one. -/
theorem drop {e : PschQueryInternEntry} {k : PschQueryInternKey} {t : List UInt8}
    (h : MemInv hash m (.ref e.object k t ::ₘ H)) (hk : m.table.get k = some e)
    (hlast : e.refcount - 1 ≠ 0) :
    MemInv hash { m with table := m.table.set k { e with refcount := e.refcount - 1 } } H := by
  have hb : m.dsa.body? e.object = some (.obj (internObject k t)) :=
    h.held _ (Multiset.mem_cons_self _ _)
  obtain ⟨hfit, hcount, hpos⟩ := h.entry_of_body hk hb
  rw [Multiset.count_cons_self] at hcount
  have hpred := toNat_sub_one hpos
  have hne : (e.refcount - 1).toNat ≠ 0 := by
    intro hz
    exact hlast (UInt32.toNat_inj.mp hz)
  refine h.recount hk hfit hb ?_ (by omega) (by omega)
  intro r hr
  rw [Multiset.count_cons_of_ne hr]

/-- Releasing the last reference takes the object out of the table. -/
theorem dropLast {e : PschQueryInternEntry} {k : PschQueryInternKey} {t : List UInt8}
    (h : MemInv hash m (.ref e.object k t ::ₘ H)) (hk : m.table.get k = some e)
    (hlast : e.refcount - 1 = 0) :
    MemInv hash { m with table := m.table.erase k } (.obj e.object k t ::ₘ H) := by
  have hself : Res.ref e.object k t ∈ Res.ref e.object k t ::ₘ H := Multiset.mem_cons_self _ _
  have hb : m.dsa.body? e.object = some (.obj (internObject k t)) := h.held _ hself
  obtain ⟨hfit, hcount, hpos⟩ := h.entry_of_body hk hb
  have hone : e.refcount.toNat = 1 := by
    have hpred := toNat_sub_one hpos
    rw [hlast] at hpred
    simp at hpred
    omega
  -- the released reference was the only one
  have hzero : H.count (.ref e.object k t) = 0 := by
    rw [Multiset.count_cons_self] at hcount
    omega
  have hnoref : ∀ q t', Res.ref q k t' ∉ H := by
    intro q t' hin
    obtain ⟨e', he', hobj⟩ := h.ref_entry q k t' (Multiset.mem_cons_of_mem hin)
    rw [hk] at he'
    cases he'
    subst hobj
    obtain ⟨-, rfl⟩ := h.ref_unique (Multiset.mem_cons_of_mem hin) hself
    exact Multiset.count_eq_zero.mp hzero hin
  have hget : ∀ k' e', (m.table.erase k).get k' = some e' → k' ≠ k ∧ m.table.get k' = some e' := by
    intro k' e' he'
    rw [FinTable.get_erase] at he'
    split at he'
    · cases he'
    · next hne => exact ⟨hne, he'⟩
  refine ⟨h.no_fault, h.null, ?_, ?_, ?_, ?_, ?_, ?_⟩
  · intro r hin
    rcases Multiset.mem_cons.mp hin with rfl | hin
    · exact hb
    · exact h.held r (Multiset.mem_cons_of_mem hin)
  · intro r hs
    have hle := h.sole_one r hs
    rw [Multiset.count_cons_of_ne (by rintro rfl; exact hs)] at hle
    rw [Multiset.count_cons]
    split
    · next heq =>
      -- before the release the object was the table's, so nobody owned it
      subst heq
      have hnone : H.count (.obj e.object k t) = 0 := by
        rw [Multiset.count_eq_zero]
        intro hin
        exact h.sole_apart _ (Multiset.mem_cons_of_mem hin) trivial k e hk rfl
      omega
    · exact hle
  · intro r hin hs k' e' he'
    obtain ⟨hkk, he'⟩ := hget k' e' he'
    rcases Multiset.mem_cons.mp hin with rfl | hin
    · intro hobj
      exact hkk (h.entry_inj he' hk hobj)
    · exact h.sole_apart r (Multiset.mem_cons_of_mem hin) hs k' e' he'
  · intro q k' t' hin
    have hmem : Res.ref q k' t' ∈ H := by simpa using hin
    obtain ⟨e', he', hobj⟩ := h.ref_entry q k' t' (Multiset.mem_cons_of_mem hmem)
    have hkk : k' ≠ k := by
      rintro rfl
      exact hnoref q t' hmem
    exact ⟨e', by simp [hkk, he'], hobj⟩
  · intro k' e' he'
    obtain ⟨hkk, he'⟩ := hget k' e' he'
    obtain ⟨t', hfit', hb', hcount', hpos'⟩ := h.entry k' e' he'
    refine ⟨t', hfit', hb', ?_, hpos'⟩
    rw [hcount', Multiset.count_cons_of_ne, Multiset.count_cons_of_ne (by simp)]
    rintro heq
    exact hkk (Res.ref.inj heq).2.1
  · intro q b hqb
    rcases h.owned q b hqb with ⟨r, hin, hs, hptr⟩ | ⟨k', e', he', hobj⟩
    · rcases Multiset.mem_cons.mp hin with rfl | hin
      · exact hs.elim
      · exact Or.inl ⟨r, Multiset.mem_cons_of_mem hin, hs, hptr⟩
    · by_cases hkk : k' = k
      · subst hkk
        rw [hk] at he'
        cases he'
        exact Or.inl ⟨.obj e.object k' t, Multiset.mem_cons_self _ _, trivial, hobj⟩
      · exact Or.inr ⟨k', e', by simp [hkk, he'], hobj⟩

/-! ## The counts together -/

/-- No entry counts more references than there are. -/
theorem refcount_le (h : MemInv hash m H) {k : PschQueryInternKey} {e : PschQueryInternEntry}
    (hk : m.table.get k = some e) : e.refcount.toNat ≤ refs H := by
  obtain ⟨t, -, -, hcount, -⟩ := h.entry k e hk
  rw [hcount, refs, Multiset.count_eq_card_filter_eq, Multiset.countP_eq_card_filter]
  apply Multiset.card_le_card
  apply Multiset.monotone_filter_right
  rintro r rfl
  trivial

/-- An entry counts all references to its object. -/
theorem refcount_eq (h : MemInv hash m H) {k : PschQueryInternKey} {e : PschQueryInternEntry}
    (hk : m.table.get k = some e) : e.refcount.toNat = H.countP (Res.RefTo e.object) := by
  obtain ⟨t, -, hb, hcount, -⟩ := h.entry k e hk
  rw [hcount, Multiset.count]
  apply Multiset.countP_congr rfl
  intro r hr
  cases r with
  | str p b => simp [Res.RefTo]
  | obj p k' t' => simp [Res.RefTo]
  | ref p k' t' =>
    -- a reference to this address is a reference under this key
    simp only [Res.RefTo, eq_iff_iff]
    constructor
    · intro heq
      exact (Res.ref.inj heq).1.symm
    · rintro rfl
      have hb' := h.held _ hr
      simp only [Res.ptr, Res.body] at hb'
      rw [hb] at hb'
      simp only [Option.some.injEq, Body.obj.injEq, internObject_inj] at hb'
      obtain ⟨rfl, rfl⟩ := hb'
      rfl

/-- Nobody refers to a block that has an owner. -/
theorem no_refs_of_sole (h : MemInv hash m H) {r : Res} (hr : r ∈ H) (hs : r.Sole) :
    H.countP (Res.RefTo r.ptr) = 0 := by
  rw [Multiset.countP_eq_zero]
  intro r' hr' href
  cases r' with
  | str => exact href
  | obj => exact href
  | ref p k t =>
    obtain ⟨e, he, hobj⟩ := h.ref_entry p k t hr'
    exact h.sole_apart r hr hs k e he (hobj.trans href)

/-- The entries together count no reference twice. -/
theorem total_refcount_le (h : MemInv hash m H) :
    m.table.total (fun e => e.refcount.toNat) ≤ refs H := by
  -- the references to an entry's object
  have hrefs : ∀ k ∈ m.table.keys, ∃ p t,
      (m.table.get k).elim 0 (fun e => e.refcount.toNat) = H.count (.ref p k t) := by
    intro k hk
    obtain ⟨e, he⟩ := FinTable.exists_get_of_mem hk
    obtain ⟨t, -, -, hcount, -⟩ := h.entry k e he
    exact ⟨e.object, t, by rw [he]; exact hcount⟩
  choose! p t hcount using hrefs
  have hinj : ∀ k ∈ m.table.keys, ∀ k' ∈ m.table.keys,
      Res.ref (p k) k (t k) = Res.ref (p k') k' (t k') → k = k' := by
    intro k _ k' _ heq
    exact (Res.ref.inj heq).2.1
  calc m.table.total (fun e => e.refcount.toNat)
      = ∑ k ∈ m.table.keys, H.count (.ref (p k) k (t k)) := Finset.sum_congr rfl hcount
    _ = ∑ r ∈ m.table.keys.image (fun k => Res.ref (p k) k (t k)), H.count r := by
        rw [Finset.sum_image hinj]
    _ ≤ refs H := by
        apply sum_count_le_countP
        intro r hr
        obtain ⟨k, -, rfl⟩ := Finset.mem_image.mp hr
        trivial

/-- Every entry counts a reference, so there are no more entries than references. -/
theorem size_le_total (h : MemInv hash m H) :
    m.table.size ≤ m.table.total (fun e => e.refcount.toNat) := by
  apply FinTable.size_le_total
  intro k e hk
  obtain ⟨_, -, -, -, hpos⟩ := h.entry k e hk
  exact hpos

end MemInv

end PgStatCh
