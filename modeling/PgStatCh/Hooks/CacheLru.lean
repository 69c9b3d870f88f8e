import PgStatCh.Lib.Recency
import PgStatCh.Tla.Rules
import PgStatCh.Hooks.Cache

/-!
# Hooks.CacheLru — the cache remembers the most recently used texts

The hash table and the list of the cache always have the same keys (`Inv`). What a
sequence of calls leaves in it can be said without either: the history of the uses of
the ids, a use being a remember or a hit, and the text last remembered of each
(`Recall`). An id is found when fewer than `max_entries` other ids were used since its
last use (`cache_refines_lru`).

`PschRememberNormalizedQuery` allocates the text last, when the entry of the id is
already in the table but not in the list. An error there leaves it so, and the next
call for that id follows a dangling pointer; an error of the two earlier allocations
changes nothing (`oom_inv_iff`).
-/

namespace PgStatCh

open Lib Tla Prog

namespace PschNormalizedQueryCache

variable {c c' : PschNormalizedQueryCache} {queryId : UInt64} {normalizeCacheMax : ℤ}

/-! ## The invariant -/

/-- The entry owns a text of its recorded length. -/
def Live (entry : PschNormalizeCacheEntry) : Prop :=
  ∃ bytes, entry.normalizedQuery = .live bytes ∧ bytes.length = entry.normalizedLen

/-- Every entry is on the list exactly once and owns its text. -/
structure Inv (c : PschNormalizedQueryCache) : Prop where
  nodup : c.lru.Nodup
  keys : ∀ k, k ∈ c.table.keys ↔ k ∈ c.lru
  live : ∀ k entry, c.table.get k = some entry → Live entry

variable {entries : UInt64 → PschNormalizeCacheEntry}

/-- The table has this entry under the key if the key is on the list, and none
otherwise. -/
structure Listed (entries : UInt64 → PschNormalizeCacheEntry) (c : PschNormalizedQueryCache)
    (k : UInt64) : Prop where
  present : k ∈ c.lru → c.table.get k = some (entries k)
  absent : k ∉ c.lru → c.table.get k = none

/-- The keys on the list have these entries, and there are no others. -/
structure Holds (entries : UInt64 → PschNormalizeCacheEntry) (c : PschNormalizedQueryCache) :
    Prop where
  nodup : c.lru.Nodup
  table : ∀ k, Listed entries c k
  live : ∀ k, Live (entries k)

theorem Holds.inv (h : Holds entries c) : Inv c where
  nodup := h.nodup
  keys := by
    intro k
    rw [c.table.mem_keys]
    by_cases hk : k ∈ c.lru
    · simp [hk, (h.table k).present hk]
    · simp [hk, (h.table k).absent hk]
  live := by
    intro k entry hget
    by_cases hk : k ∈ c.lru
    · rw [(h.table k).present hk] at hget
      cases hget
      exact h.live k
    · rw [(h.table k).absent hk] at hget
      cases hget

theorem Inv.holds (h : Inv c) : ∃ entries, Holds entries c := by
  refine ⟨fun k => (c.table.get k).getD ⟨.live [], 0⟩, h.nodup, fun k => ⟨?_, ?_⟩, fun k => ?_⟩
  · intro hk
    obtain ⟨entry, hget⟩ := FinTable.exists_get_of_mem ((h.keys k).mpr hk)
    rw [hget]
    rfl
  · intro hk
    rw [← h.keys k, c.table.mem_keys] at hk
    simpa using hk
  · cases hget : c.table.get k with
    | none => exact ⟨[], rfl, rfl⟩
    | some entry => exact h.live k entry hget

/-- The entry of the id is in the table, but neither on the list nor with a text. -/
def Dangling (queryId : UInt64) (c : PschNormalizedQueryCache) : Prop :=
  c.htab.isSome ∧ queryId ∉ c.lru ∧
    ∃ entry, c.table.get queryId = some entry ∧ ∀ bytes, entry.normalizedQuery ≠ .live bytes

theorem Dangling.not_inv (h : Dangling queryId c) : ¬ Inv c := by
  intro hi
  obtain ⟨-, hlru, entry, hget, -⟩ := h
  exact hlru ((hi.keys queryId).mp (FinTable.mem_keys_of_get hget))

/-- `max_entries`, also before the first use. -/
def capacity (normalizeCacheMax : ℤ) (c : PschNormalizedQueryCache) : ℤ :=
  if c.htab.isSome then c.maxEntries
  else if 0 < c.maxEntries then c.maxEntries
  else normalizeCacheMax

/-! ## The calls -/

/-- A text of at least the length that is passed with it. -/
structure QueryArg where
  text : List UInt8
  len : ℕ
  len_le : len ≤ text.length
deriving DecidableEq

theorem clampCachedQueryLen_eq_min (len : ℕ) : clampCachedQueryLen len = min len 2047 := by
  rw [clampCachedQueryLen, pschMaxCachedQueryLen]
  split <;> omega

/-- The entry made of a text. -/
def QueryArg.entry (arg : QueryArg) : PschNormalizeCacheEntry where
  normalizedQuery := .live (arg.text.take (clampCachedQueryLen arg.len))
  normalizedLen := clampCachedQueryLen arg.len

theorem QueryArg.entry_live (arg : QueryArg) : Live arg.entry := by
  have hle : clampCachedQueryLen arg.len ≤ arg.text.length := by
    rw [clampCachedQueryLen_eq_min]
    exact (min_le_left _ _).trans arg.len_le
  exact ⟨_, rfl, List.length_take_of_le hle⟩

theorem wp_freeText {entry : PschNormalizeCacheEntry} (h : Live entry) :
    wp (freeText queryId entry)
      (fun _ c' => c' = { c with
        htab := some (c.table.set queryId { entry with normalizedQuery := .freed }) })
      (fun _ _ => False) c := by
  obtain ⟨bytes, hlive, -⟩ := h
  unfold freeText
  rw [hlive]
  exact rfl

theorem wp_unlink (h : queryId ∈ c.lru) :
    wp (unlink queryId) (fun _ c' => c' = { c with lru := c.lru.erase queryId })
      (fun _ _ => False) c := by
  unfold unlink
  simp only [wp_bind, wp_get]
  rw [if_pos h]
  exact rfl

/-- The last of the list goes. -/
theorem wp_evictLru (hnodup : c.lru.Nodup) (hne : c.lru ≠ [])
    (hlive : ∀ k ∈ c.lru, ∃ entry, c.table.get k = some entry ∧ Live entry) :
    wp evictLru
      (fun _ c' => c'.lru = c.lru.dropLast ∧ c'.htab.isSome ∧ c'.maxEntries = c.maxEntries ∧
        ∀ k, c'.table.get k = if k = c.lru.getLast hne then none else c.table.get k)
      (fun _ _ => False) c := by
  have hlast := List.getLast_mem hne
  obtain ⟨entry, hget, hentry⟩ := hlive _ hlast
  unfold evictLru
  simp only [wp_bind, wp_get]
  rw [List.getLast?_eq_some_getLast hne]
  simp only [wp_bind, hget]
  refine wp_mono (wp_unlink hlast) ?_ fun _ _ => id
  rintro - c₁ rfl
  rw [wp_bind]
  refine wp_mono (wp_freeText hentry) ?_ fun _ _ => id
  rintro - c₂ rfl
  refine ⟨erase_getLast hnodup hne, rfl, rfl, fun k => ?_⟩
  · simp only [table, Option.getD_some, FinTable.get_erase, FinTable.get_set]
    split <;> rfl

/-- After `HASH_ENTER` the entry of the id dangles, and the list has room for it. -/
theorem wp_enterKey {m : ℕ} (h : Holds entries c) (hm : 1 ≤ m) (hmax : c.maxEntries = m)
    (hlen : c.lru.length ≤ m) :
    wp (enterKey queryId)
      (fun _ c' => Dangling queryId c' ∧ c'.maxEntries = m ∧
        c'.lru = (c.lru.erase queryId).take (m - 1) ∧ ∀ k ≠ queryId, Listed entries c' k)
      (fun _ _ => False) c := by
  have hset : ∀ (e : PschNormalizeCacheEntry) {k : UInt64}, k ≠ queryId →
      (c.table.set queryId e).get k = c.table.get k := by
    intro e k hk
    rw [FinTable.get_set, if_neg hk]
  unfold enterKey
  simp only [wp_bind, wp_get]
  by_cases hmem : queryId ∈ c.lru
  · -- the text is freed and the entry unlinked
    have hlen' : (c.lru.erase queryId).length ≤ m - 1 := by
      rw [List.length_erase_of_mem hmem]
      omega
    rw [(h.table queryId).present hmem]
    simp only [wp_bind]
    refine wp_mono (wp_freeText (h.live queryId)) ?_ fun _ _ => id
    rintro - c₁ rfl
    refine wp_mono (wp_unlink hmem) ?_ fun _ _ => id
    rintro - c₂ rfl
    refine ⟨⟨rfl, h.nodup.not_mem_erase, _, FinTable.get_set_self _ _ _, ?_⟩, hmax,
      (List.take_of_length_le hlen').symm, fun k hk => ⟨fun hin => ?_, fun hout => ?_⟩⟩
    · rintro bytes ⟨⟩
    · exact (hset _ hk).trans ((h.table k).present (List.mem_of_mem_erase hin))
    · exact (hset _ hk).trans
        ((h.table k).absent fun hin => hout ((List.mem_erase_of_ne hk).mpr hin))
  · -- a new entry; the last one goes if the list is full
    rw [(h.table queryId).absent hmem, List.erase_of_not_mem hmem]
    simp only [wp_bind]
    rw [setEntry, wp_modify]
    split
    · next hfull =>
      have hlen' : c.lru.length = m := by omega
      have hne : c.lru ≠ [] := List.ne_nil_of_length_pos (by omega)
      have hlast : queryId ≠ c.lru.getLast hne := fun heq => hmem (heq ▸ List.getLast_mem hne)
      have hlive : ∀ k ∈ c.lru, ∃ entry,
          (c.table.set queryId {}).get k = some entry ∧ Live entry := by
        intro k hk
        have hkne : k ≠ queryId := fun heq => hmem (heq ▸ hk)
        exact ⟨entries k, (hset _ hkne).trans ((h.table k).present hk), h.live k⟩
      refine wp_mono (wp_evictLru (c := { c with htab := some (c.table.set queryId {}) })
        h.nodup hne hlive) ?_ fun _ _ => id
      rintro - c' ⟨hlru, hsome, hmax', htable⟩
      refine ⟨⟨hsome, ?_, {}, ?_, ?_⟩, hmax'.trans hmax, ?_,
        fun k hk => ⟨fun hin => ?_, fun hout => ?_⟩⟩
      · rw [hlru]
        exact fun hin => hmem (List.mem_of_mem_dropLast hin)
      · rw [htable, if_neg hlast]
        exact FinTable.get_set_self _ _ _
      · rintro bytes ⟨⟩
      · rw [hlru, List.dropLast_eq_take, hlen']
      · -- the victim is not in front of itself
        rw [hlru, ← erase_getLast h.nodup hne, h.nodup.mem_erase_iff] at hin
        rw [htable, if_neg hin.1]
        exact (hset _ hk).trans ((h.table k).present hin.2)
      · rw [htable]
        split
        · rfl
        · next hkne =>
          refine (hset _ hk).trans ((h.table k).absent fun hin => hout ?_)
          rw [hlru, ← erase_getLast h.nodup hne, h.nodup.mem_erase_iff]
          exact ⟨hkne, hin⟩
    · next hroom =>
      have hlen' : c.lru.length ≤ m - 1 := by omega
      refine ⟨⟨rfl, hmem, {}, FinTable.get_set_self _ _ _, ?_⟩, hmax,
        (List.take_of_length_le hlen').symm, fun k hk => ⟨fun hin => ?_, fun hout => ?_⟩⟩
      · rintro bytes ⟨⟩
      · exact (hset _ hk).trans ((h.table k).present hin)
      · exact (hset _ hk).trans ((h.table k).absent hout)

theorem wp_alloc {ok : Bool} :
    wp (alloc ok) (fun _ c' => ok = true ∧ c' = c)
      (fun e c' => e = .outOfMemory ∧ ok = false ∧ c' = c) c := by
  cases ok with
  | true => exact ⟨rfl, rfl⟩
  | false => exact ⟨rfl, rfl, rfl⟩

/-- Before the first use the list is empty. -/
theorem Holds.lru_eq_nil (h : Holds entries c) (hnone : c.htab = none) : c.lru = [] := by
  rw [List.eq_nil_iff_forall_not_mem]
  intro k hk
  have hget := (h.table k).present hk
  rw [PschNormalizedQueryCache.table, hnone] at hget
  cases hget

theorem wp_ensureInitialized {a : CacheAlloc} (h : Holds entries c) :
    wp (ensureInitialized normalizeCacheMax a)
      (fun _ c' => ¬ (a.init = false ∧ c.htab = none) ∧ Holds entries c' ∧ c'.lru = c.lru ∧
        c'.htab.isSome ∧ c'.maxEntries = capacity normalizeCacheMax c)
      (fun e c' => e = .outOfMemory ∧ (a.init = false ∧ c.htab = none) ∧ c' = c) c := by
  unfold ensureInitialized capacity
  simp only [wp_bind, wp_get]
  cases hhtab : c.htab with
  | some t => exact ⟨fun hno => (by cases hno.2), h, rfl, by simp [hhtab], by simp⟩
  | none =>
    have hlru := h.lru_eq_nil hhtab
    simp only [Option.isSome_none, Bool.false_eq_true, if_false, wp_bind]
    refine wp_mono wp_alloc ?_ ?_
    · rintro - c₁ ⟨hinit, rfl⟩
      refine ⟨?_, ⟨List.nodup_nil, fun k => ⟨fun hk => ?_, fun _ => rfl⟩, h.live⟩,
        hlru.symm, rfl, rfl⟩
      · rintro ⟨hfail, -⟩
        rw [hinit] at hfail
        cases hfail
      · cases hk
    · rintro e c₁ ⟨he, hfail, rfl⟩
      exact ⟨he, ⟨hfail, trivial⟩, rfl⟩

theorem capacity_of_isSome (h : c.htab.isSome) : capacity normalizeCacheMax c = c.maxEntries := by
  rw [capacity, if_pos h]

/-- The entry gets its text and comes to the front of the list. -/
theorem holds_push {m : ℕ} (h : Holds entries c) (hm : 1 ≤ m) (arg : QueryArg)
    (hdangling : Dangling queryId c') (hlru : c'.lru = (c.lru.erase queryId).take (m - 1))
    (hlisted : ∀ k ≠ queryId, Listed entries c' k) :
    Holds (Function.update entries queryId arg.entry)
        { c' with htab := some (c'.table.set queryId arg.entry), lru := queryId :: c'.lru } ∧
      queryId :: c'.lru = (queryId :: c.lru.erase queryId).take m := by
  refine ⟨⟨?_, fun k => ?_, fun k => ?_⟩, ?_⟩
  · refine List.nodup_cons.mpr ⟨hdangling.2.1, ?_⟩
    rw [hlru]
    exact (h.nodup.erase queryId).sublist (List.take_sublist _ _)
  · rcases eq_or_ne k queryId with rfl | hk
    · refine ⟨fun _ => ?_, fun hout => absurd List.mem_cons_self hout⟩
      rw [Function.update_self]
      exact FinTable.get_set_self _ _ _
    · have hget : (c'.table.set queryId arg.entry).get k = c'.table.get k := by
        rw [FinTable.get_set, if_neg hk]
      refine ⟨fun hin => ?_, fun hout => ?_⟩
      · rw [Function.update_of_ne hk]
        exact hget.trans ((hlisted k hk).present ((List.mem_cons.mp hin).resolve_left hk))
      · exact hget.trans ((hlisted k hk).absent fun hin => hout (List.mem_cons_of_mem _ hin))
  · rcases eq_or_ne k queryId with rfl | hk
    · rw [Function.update_self]
      exact arg.entry_live
    · rw [Function.update_of_ne hk]
      exact h.live k
  · obtain ⟨n, rfl⟩ := Nat.exists_eq_add_of_le' hm
    rw [hlru, Nat.add_sub_cancel, List.take_succ_cons]

/-- The allocations before the one of the text. -/
def failsEarly (a : CacheAlloc) (c : PschNormalizedQueryCache) : Prop :=
  a.enter = false ∨ a.init = false ∧ c.htab = none

theorem wp_remember_holds {m : ℕ} {a : CacheAlloc} (h : Holds entries c) (hm : 1 ≤ m)
    (hcap : capacity normalizeCacheMax c = m) (hlen : c.lru.length ≤ m) (hid : queryId ≠ 0)
    (arg : QueryArg) :
    wp (remember normalizeCacheMax a queryId arg.text arg.len)
      (fun _ c' => Holds (Function.update entries queryId arg.entry) c' ∧
        c'.lru = (queryId :: c.lru.erase queryId).take m ∧ capacity normalizeCacheMax c' = m)
      (fun e c' => e = .outOfMemory ∧
        (failsEarly a c ∧ Holds entries c' ∧ c'.lru = c.lru ∧ capacity normalizeCacheMax c' = m ∨
          ¬ failsEarly a c ∧ a.text = false ∧ Dangling queryId c')) c := by
  unfold remember
  rw [if_neg hid]
  simp only [wp_bind]
  refine wp_mono (wp_ensureInitialized h) ?_ ?_
  · rintro - c₁ ⟨hinit, h₁, hlru₁, hsome₁, hmax₁⟩
    rw [hcap] at hmax₁
    rw [wp_bind]
    refine wp_mono wp_alloc ?_ ?_
    · rintro - c₁ ⟨henter, rfl⟩
      have hearly : ¬ failsEarly a c := by
        rintro (hfail | hfail)
        · rw [henter] at hfail
          cases hfail
        · exact hinit hfail
      rw [wp_bind]
      refine wp_mono (wp_enterKey h₁ hm hmax₁ (hlru₁ ▸ hlen)) ?_ fun _ _ => False.elim
      rintro - c₂ ⟨hdangling, hmax₂, hlru₂, hlisted⟩
      rw [wp_bind]
      refine wp_mono wp_alloc ?_ ?_
      · rintro - c₂ ⟨-, rfl⟩
        obtain ⟨hholds, hpush⟩ := holds_push h₁ hm arg hdangling hlru₂ hlisted
        rw [hlru₁] at hpush
        exact ⟨hholds, hpush, hmax₂⟩
      · -- the text: the entry is in the table, off the list, and its old text is gone
        rintro e c₂ ⟨he, htext, rfl⟩
        exact ⟨he, Or.inr ⟨hearly, htext, hdangling⟩⟩
    · -- the hash insert: nothing has changed but that the cache may be new
      rintro e c₁ ⟨he, henter, rfl⟩
      exact ⟨he, Or.inl ⟨Or.inl henter, h₁, hlru₁, (capacity_of_isSome hsome₁).trans hmax₁⟩⟩
  · -- the cache itself
    rintro e c₁ ⟨he, hfail, rfl⟩
    exact ⟨he, Or.inl ⟨Or.inr hfail, h, rfl, hcap⟩⟩

/-- A hit copies the text and moves the entry to the front. -/
theorem lookup_present {n : ℕ} (dst : CharBuf n) (h : Holds entries c) (hid : queryId ≠ 0)
    (hn : n ≠ 0) (hmem : queryId ∈ c.lru) {bytes : List UInt8} {len : ℕ}
    (hentry : entries queryId = ⟨.live bytes, len⟩) :
    lookup queryId dst c =
      .ok (some ((dst.write (bytes.take (min len (n - 1)))).terminate (min len (n - 1)),
          UInt16.ofNat (min len (n - 1))))
        { c with lru := queryId :: c.lru.erase queryId } := by
  have hget := (h.table queryId).present hmem
  have hhtab : c.htab.isNone = false := by
    cases hnone : c.htab with
    | none =>
      rw [h.lru_eq_nil hnone] at hmem
      cases hmem
    | some t => rfl
  apply eq_ok
  unfold lookup promoteEntryToMru
  simp only [wp_bind, wp_get]
  rw [if_neg (by simp [hhtab, hn, hid]), hget, hentry]
  simp only [wp_bind]
  refine wp_mono (wp_unlink hmem) ?_ fun _ _ => id
  rintro - c₁ rfl
  exact ⟨rfl, rfl⟩

/-- A miss changes nothing. -/
theorem lookup_absent {n : ℕ} (dst : CharBuf n) (h : Holds entries c) (hmem : queryId ∉ c.lru) :
    lookup queryId dst c = .ok none c := by
  have hget := (h.table queryId).absent hmem
  apply eq_ok
  unfold lookup
  simp only [wp_bind, wp_get]
  split
  · exact ⟨rfl, rfl⟩
  · rw [hget]
    exact ⟨rfl, rfl⟩

/-- A call on a dangling entry is undefined: the lookup unlinks it, the remember frees the text
it does not have. -/
theorem lookup_dangling {n : ℕ} (dst : CharBuf n) (h : Dangling queryId c) (hid : queryId ≠ 0)
    (hn : n ≠ 0) : ∃ c', lookup queryId dst c = .error .undefined c' := by
  obtain ⟨hsome, hlru, entry, hget, -⟩ := h
  have hundefined : wp (lookup queryId dst) (fun _ _ => False) (fun e _ => e = .undefined) c := by
    unfold lookup promoteEntryToMru unlink
    simp only [wp_bind, wp_get]
    rw [if_neg (by simp [Option.isSome_iff_ne_none.mp hsome, hn, hid]), hget]
    simp only [wp_bind, wp_get]
    rw [if_neg hlru]
    exact rfl
  obtain ⟨e, c', heq, rfl⟩ := exists_error hundefined
  exact ⟨c', heq⟩

theorem remember_dangling (h : Dangling queryId c) (hid : queryId ≠ 0) (arg : QueryArg)
    {a : CacheAlloc} (henter : a.enter = true) :
    ∃ c', remember normalizeCacheMax a queryId arg.text arg.len c = .error .undefined c' := by
  obtain ⟨hsome, hlru, entry, hget, hdead⟩ := h
  have hundefined : wp (remember normalizeCacheMax a queryId arg.text arg.len)
      (fun _ _ => False) (fun e _ => e = .undefined) c := by
    unfold remember ensureInitialized alloc enterKey freeText
    rw [if_neg hid]
    simp only [wp_bind, wp_get]
    rw [if_pos hsome, henter]
    simp only [if_true, wp_bind, wp_pure, wp_get, hget]
    cases htext : entry.normalizedQuery with
    | live bytes => exact absurd htext (hdead bytes)
    | unset => exact rfl
    | freed => exact rfl
  obtain ⟨e, c', heq, rfl⟩ := exists_error hundefined
  exact ⟨c', heq⟩

/-! ## What the calls amount to -/

/-- The uses of the ids so far, the latest first, and the text last remembered of each. -/
structure Recall where
  uses : List UInt64 := []
  texts : UInt64 → QueryArg := fun _ => ⟨[], 0, Nat.zero_le _⟩

/-- The id was used, and fewer than `m` others were since. -/
def Recall.Hits (m : ℕ) (r : Recall) (queryId : UInt64) : Prop :=
  queryId ∈ r.uses ∧ (since r.uses queryId).card < m

instance (m : ℕ) (r : Recall) (queryId : UInt64) : Decidable (r.Hits m queryId) :=
  inferInstanceAs (Decidable (_ ∧ _))

/-- The calls. -/
inductive CacheCall where
  | remember (queryId : UInt64) (arg : QueryArg)
  | lookup (queryId : UInt64) (n : ℕ) (dst : CharBuf n)

/-- A remember is a use, and a lookup that hits. -/
def Recall.step (m : ℕ) (r : Recall) : CacheCall → Recall
  | .remember queryId arg =>
    if queryId = 0 then r
    else { uses := queryId :: r.uses, texts := Function.update r.texts queryId arg }
  | .lookup queryId n _ =>
    if queryId ≠ 0 ∧ n ≠ 0 ∧ r.Hits m queryId then { r with uses := queryId :: r.uses } else r

/-- What the code does for a call. -/
def exec (normalizeCacheMax : ℤ) (a : CacheAlloc) : CacheCall → M Unit
  | .remember queryId arg => remember normalizeCacheMax a queryId arg.text arg.len
  | .lookup queryId _ dst => do let _ ← lookup queryId dst

/-- Calls one after another, all allocations succeeding. -/
def execAll (normalizeCacheMax : ℤ) : List CacheCall → M Unit
  | [] => pure ()
  | call :: calls => do
    exec normalizeCacheMax {} call
    execAll normalizeCacheMax calls

/-- The list has the `m` most recently used ids, and the table their texts. -/
structure Refines (normalizeCacheMax : ℤ) (m : ℕ) (r : Recall) (c : PschNormalizedQueryCache) :
    Prop where
  holds : Holds (fun k => (r.texts k).entry) c
  lru : c.lru = (recent r.uses).take m
  capacity : capacity normalizeCacheMax c = m

variable {m : ℕ} {r : Recall}

theorem Refines.mem_lru_iff (h : Refines normalizeCacheMax m r c) :
    queryId ∈ c.lru ↔ r.Hits m queryId := by
  rw [h.lru]
  exact mem_take_recent

theorem Refines.length_le (h : Refines normalizeCacheMax m r c) : c.lru.length ≤ m := by
  rw [h.lru]
  exact List.length_take_le _ _

theorem wp_exec_remember (h : Refines normalizeCacheMax m r c) (hm : 1 ≤ m) (a : CacheAlloc)
    (arg : QueryArg) :
    wp (exec normalizeCacheMax a (.remember queryId arg))
      (fun _ c' => Refines normalizeCacheMax m (r.step m (.remember queryId arg)) c')
      (fun e c' => e = .outOfMemory ∧ (failsEarly a c ∧ Refines normalizeCacheMax m r c' ∨
        ¬ failsEarly a c ∧ a.text = false ∧ queryId ≠ 0 ∧ Dangling queryId c')) c := by
  simp only [exec, Recall.step]
  by_cases hid : queryId = 0
  · unfold remember
    rw [if_pos hid, if_pos hid]
    exact h
  · rw [if_neg hid]
    refine wp_mono (wp_remember_holds h.holds hm h.capacity h.length_le hid arg) ?_ ?_
    · rintro - c' ⟨hholds, hlru, hcap⟩
      refine ⟨?_, ?_, hcap⟩
      · convert hholds using 1
        funext k
        rcases eq_or_ne k queryId with rfl | hk
        · simp
        · simp [hk]
      · rw [hlru, h.lru, take_recent_cons]
    · rintro e c' ⟨he, ⟨hearly, hholds, hlru, hcap⟩ | ⟨hearly, htext, hdangling⟩⟩
      · exact ⟨he, Or.inl ⟨hearly, hholds, hlru.trans h.lru, hcap⟩⟩
      · exact ⟨he, Or.inr ⟨hearly, htext, hid, hdangling⟩⟩

theorem wp_exec_lookup (h : Refines normalizeCacheMax m r c) (a : CacheAlloc) {n : ℕ}
    (dst : CharBuf n) :
    wp (exec normalizeCacheMax a (.lookup queryId n dst))
      (fun _ c' => Refines normalizeCacheMax m (r.step m (.lookup queryId n dst)) c')
      (fun _ _ => False) c := by
  simp only [exec, Recall.step, wp_bind]
  by_cases hhit : queryId ≠ 0 ∧ n ≠ 0 ∧ r.Hits m queryId
  · rw [if_pos hhit]
    obtain ⟨hid, hn, hhits⟩ := hhit
    have hmem := h.mem_lru_iff.mpr hhits
    rw [wp, lookup_present dst h.holds hid hn hmem rfl]
    refine ⟨⟨?_, fun k => ?_, h.holds.live⟩, ?_, h.capacity⟩
    · exact List.nodup_cons.mpr ⟨h.holds.nodup.not_mem_erase, h.holds.nodup.erase _⟩
    · -- the list has the same keys as before
      have hkeys : k ∈ queryId :: c.lru.erase queryId ↔ k ∈ c.lru :=
        (List.perm_cons_erase hmem).symm.mem_iff
      exact ⟨fun hk => (h.holds.table k).present (hkeys.mp hk),
        fun hk => (h.holds.table k).absent fun hin => hk (hkeys.mpr hin)⟩
    · have htake := h.lru ▸ hmem
      rw [take_recent_cons_of_mem htake, h.lru]
  · rw [if_neg hhit]
    by_cases hmem : queryId ∈ c.lru
    · -- nothing is looked for
      have hno : n = 0 ∨ queryId = 0 := by
        by_contra hboth
        rw [not_or] at hboth
        exact hhit ⟨hboth.2, hboth.1, h.mem_lru_iff.mp hmem⟩
      unfold lookup
      simp only [wp_bind, wp_get]
      rw [if_pos (Or.inr hno)]
      exact h
    · rw [wp, lookup_absent dst h.holds hmem]
      exact h

theorem wp_execAll (h : Refines normalizeCacheMax m r c) (hm : 1 ≤ m) (calls : List CacheCall) :
    wp (execAll normalizeCacheMax calls)
      (fun _ c' => Refines normalizeCacheMax m (calls.foldl (Recall.step m) r) c')
      (fun _ _ => False) c := by
  induction calls generalizing r c with
  | nil => exact h
  | cons call calls ih =>
    rw [execAll, wp_bind, List.foldl_cons]
    cases call with
    | remember queryId arg =>
      refine wp_mono (wp_exec_remember h hm {} arg) (fun _ c' h' => ih h') ?_
      rintro e c' ⟨-, ⟨hfail | hfail, -⟩ | ⟨-, hfail, -⟩⟩
      · cases hfail
      · cases hfail.1
      · cases hfail
    | lookup queryId n dst =>
      exact wp_mono (wp_exec_lookup h {} dst) (fun _ c' h' => ih h') fun _ _ => id

theorem refines_init {maxEntries : ℤ}
    (hmax : (if 0 < maxEntries then maxEntries else normalizeCacheMax) = m) :
    Refines normalizeCacheMax m {} { maxEntries } where
  holds := ⟨List.nodup_nil, fun _ => ⟨fun hk => (by cases hk), fun _ => rfl⟩,
    fun _ => QueryArg.entry_live _⟩
  lru := by simp [recent]
  capacity := hmax

/-- What a hit leaves in the buffer. -/
theorem QueryArg.copied (arg : QueryArg) {n : ℕ} (dst : CharBuf n) :
    let len := min arg.len (min 2047 (n - 1))
    let size := min (clampCachedQueryLen arg.len) (n - 1)
    let buf := (dst.write ((arg.text.take (clampCachedQueryLen arg.len)).take size)).terminate size
    buf.bytes len = arg.text.take len ∧ buf.byteAt len = 0 ∧ (UInt16.ofNat size).toNat = len := by
  intro len size
  have hsize : size = len := by
    simp only [size, len, clampCachedQueryLen_eq_min, min_assoc]
  have htake : (arg.text.take (clampCachedQueryLen arg.len)).take len = arg.text.take len := by
    rw [List.take_take, clampCachedQueryLen_eq_min]
    congr 1
    omega
  have hlength : (arg.text.take len).length = len :=
    List.length_take_of_le ((min_le_left _ _).trans arg.len_le)
  have hbytes := dst.bytes_write_terminate (hlength.trans_le (by omega))
  rw [hlength] at hbytes
  rw [hsize, htake]
  refine ⟨hbytes, CharBuf.byteAt_terminate_self _ _, ?_⟩
  have hlt : len < 65536 := by omega
  rw [UInt16.toNat_ofNat_of_lt' hlt]

/-- After any calls the table has the keys of the list, each once and at most `max_entries` of
them; an id is found exactly if fewer than `max_entries` others were used since its last
use, with the text last remembered of it; and a miss changes nothing. -/
theorem cache_refines_lru (normalizeCacheMax maxEntries : ℤ) (m : ℕ) (hm : 1 ≤ m)
    (hmax : (if 0 < maxEntries then maxEntries else normalizeCacheMax) = m)
    (calls : List CacheCall) :
    ∃ c, execAll normalizeCacheMax calls { maxEntries } = .ok () c ∧
      c.lru.Nodup ∧ (∀ k, k ∈ c.table.keys ↔ k ∈ c.lru) ∧ c.lru.length ≤ m ∧
      ∀ (queryId : UInt64) (n : ℕ) (dst : CharBuf n), queryId ≠ 0 → n ≠ 0 →
        let r := calls.foldl (Recall.step m) {}
        let len := min (r.texts queryId).len (min 2047 (n - 1))
        (r.Hits m queryId → ∃ buf out c', lookup queryId dst c = .ok (some (buf, out)) c' ∧
          buf.bytes len = (r.texts queryId).text.take len ∧ buf.byteAt len = 0 ∧
          out.toNat = len) ∧
        (¬ r.Hits m queryId → lookup queryId dst c = .ok none c) := by
  have hwp := wp_execAll (refines_init hmax) hm calls
  obtain ⟨⟨⟩, c, hrun⟩ := exists_ok hwp
  have h := wp_of_ok hrun hwp
  refine ⟨c, hrun, h.holds.nodup, h.holds.inv.keys, h.length_le, ?_⟩
  intro queryId n dst hid hn r len
  constructor
  · intro hhits
    have hmem := h.mem_lru_iff.mpr hhits
    exact ⟨_, _, _, lookup_present dst h.holds hid hn hmem rfl, (r.texts queryId).copied dst⟩
  · intro hmiss
    exact lookup_absent dst h.holds fun hmem => hmiss (h.mem_lru_iff.mp hmem)

/-- `S`. -/
def sampleArg : QueryArg := ⟨[83], 1, le_rfl⟩

/-- The smallest cache that can be set is filled, and the first id looked up again. -/
def fillsCache : List CacheCall :=
  (List.range 64).map (fun i => .remember (UInt64.ofNat (i + 1)) sampleArg) ++
    [.lookup 1 8 (.zero 8), .lookup 100 8 (.zero 8)]

/-- Then there is another id. -/
def oneTooMany : List CacheCall := fillsCache ++ [.remember 65 sampleArg]

/-- It drives out the second one, which is the one that was not used since. -/
theorem cache_refines_lru_evicts :
    ∃ c, execAll 64 oneTooMany {} = .ok () c ∧ lookup 2 (.zero 8) c = .ok none c ∧
      ∃ buf out c', lookup 1 (.zero 8) c = .ok (some (buf, out)) c' ∧ buf.bytes 1 = [83] ∧
        out.toNat = 1 := by
  obtain ⟨c, hrun, -, -, -, hlookup⟩ :=
    cache_refines_lru 64 0 64 (by decide) (by decide) oneTooMany
  obtain ⟨hhit, -⟩ := hlookup 1 8 (.zero 8) (by decide) (by decide)
  obtain ⟨-, hmiss⟩ := hlookup 2 8 (.zero 8) (by decide) (by decide)
  have htext : (oneTooMany.foldl (Recall.step 64) {}).texts 1 = sampleArg := by decide +kernel
  obtain ⟨buf, out, c', hok, hbytes, -, hout⟩ := hhit (by decide +kernel)
  rw [htext] at hbytes hout
  exact ⟨c, hrun, hmiss (by decide +kernel), buf, out, c', hok, hbytes, hout⟩

/-! ## Out of memory -/

/-- A session's calls. A call that runs out of memory raises an error, and the session goes on
with the cache as it is; there is no going on from undefined behaviour. -/
def machine (normalizeCacheMax : ℤ) :
    Machine PschNormalizedQueryCache (CacheAlloc × CacheCall) where
  Init := fun c => c.htab = none ∧ c.lru = [] ∧ 1 ≤ capacity normalizeCacheMax c
  step := fun l c =>
    match exec normalizeCacheMax l.1 l.2 c with
    | .ok _ c' => some c'
    | .error .outOfMemory c' => some c'
    | .error _ _ => none

/-- The allocation of the text does not fail. -/
def TextAllocated (_ : PschNormalizedQueryCache) (l : CacheAlloc × CacheCall) : Prop :=
  l.1.text = true

/-- A cache with the content of some history. -/
def Usable (normalizeCacheMax : ℤ) (c : PschNormalizedQueryCache) : Prop :=
  ∃ m r, 1 ≤ m ∧ Refines normalizeCacheMax m r c

theorem Usable.inv (h : Usable normalizeCacheMax c) : Inv c := by
  obtain ⟨m, r, -, h⟩ := h
  exact h.holds.inv

theorem usable_init (h : (machine normalizeCacheMax).Init c) : Usable normalizeCacheMax c := by
  obtain ⟨hhtab, hlru, hcap⟩ := h
  obtain ⟨m, hm⟩ := Int.eq_ofNat_of_zero_le (by omega : 0 ≤ capacity normalizeCacheMax c)
  refine ⟨m, {}, by omega, ⟨?_, fun k => ⟨?_, ?_⟩, fun _ => QueryArg.entry_live _⟩, ?_, hm⟩
  · simp [hlru]
  · simp [hlru]
  · simp [table, hhtab]
  · simp [hlru, recent]

/-- What a call on a usable cache can do. -/
theorem Usable.wp_exec (h : Usable normalizeCacheMax c) (a : CacheAlloc) (call : CacheCall) :
    wp (exec normalizeCacheMax a call) (fun _ c' => Usable normalizeCacheMax c')
      (fun e c' => e = .outOfMemory ∧ (failsEarly a c ∧ Usable normalizeCacheMax c' ∨
        ¬ failsEarly a c ∧ a.text = false ∧
          ∃ queryId ≠ 0, (∃ arg, call = .remember queryId arg) ∧ Dangling queryId c')) c := by
  obtain ⟨m, r, hm, h⟩ := h
  cases call with
  | remember queryId arg =>
    refine wp_mono (wp_exec_remember h hm a arg) (fun _ c' h' => ⟨m, _, hm, h'⟩) ?_
    rintro e c' ⟨he, ⟨hearly, h'⟩ | ⟨hearly, htext, hid, hdangling⟩⟩
    · exact ⟨he, Or.inl ⟨hearly, m, r, hm, h'⟩⟩
    · exact ⟨he, Or.inr ⟨hearly, htext, queryId, hid, ⟨arg, rfl⟩, hdangling⟩⟩
  | lookup queryId n dst =>
    exact wp_mono (wp_exec_lookup h a dst) (fun _ c' h' => ⟨m, _, hm, h'⟩) fun _ _ => False.elim

theorem Usable.step {l : CacheAlloc × CacheCall} (h : Usable normalizeCacheMax c)
    (htext : TextAllocated c l) (hstep : (machine normalizeCacheMax).step l c = some c') :
    Usable normalizeCacheMax c' := by
  have hwp := h.wp_exec l.1 l.2
  simp only [machine] at hstep
  split at hstep
  · next c₁ hok =>
    cases hstep
    have h' := wp_of_ok hok hwp
    exact h'
  · next herror =>
    cases hstep
    obtain ⟨-, ⟨-, h'⟩ | ⟨-, hfail, -⟩⟩ := wp_of_error herror hwp
    · exact h'
    · rw [htext] at hfail
      cases hfail
  · cases hstep

/-- A remember that runs out of memory keeps the invariant exactly if an allocation before
the one of the text failed. Then every later call is well defined, as long as the text
allocations succeed; otherwise the next call for the same id is not. -/
theorem oom_inv_iff {a : CacheAlloc} {arg : QueryArg}
    (hs : ((machine normalizeCacheMax).under TextAllocated).Reachable c)
    (herror : exec normalizeCacheMax a (.remember queryId arg) c = .error .outOfMemory c') :
    (Inv c' ↔ a.enter = false ∨ a.init = false ∧ c.htab = none) ∧
    (Inv c' → ∀ ls : List (CacheAlloc × CacheCall), (∀ l ∈ ls, l.1.text = true) →
      ∀ b call e c'', exec normalizeCacheMax b call ((machine normalizeCacheMax).run c' ls) =
        .error e c'' → e = .outOfMemory) ∧
    (¬ Inv c' →
      (∀ (n : ℕ) (dst : CharBuf n), n ≠ 0 →
        ∃ c'', lookup queryId dst c' = .error .undefined c'') ∧
      ∀ b arg', b.enter = true →
        ∃ c'', exec normalizeCacheMax b (.remember queryId arg') c' = .error .undefined c'') := by
  have husable : Usable normalizeCacheMax c :=
    Machine.invariant_under (fun _ _ => trivial) (fun _ => usable_init)
      (fun _ _ _ (_ : True) h htext hstep => h.step htext hstep) hs
  obtain ⟨-, hcase⟩ := wp_of_error herror (husable.wp_exec a (.remember queryId arg))
  rcases hcase with ⟨hearly, husable'⟩ | ⟨hearly, -, k, hid, ⟨arg', hcall⟩, hdangling⟩
  · -- nothing was changed yet
    refine ⟨iff_of_true husable'.inv hearly, fun _ ls hls b call e c'' herror' => ?_,
      fun hno => absurd husable'.inv hno⟩
    have hrun : Usable normalizeCacheMax ((machine normalizeCacheMax).run c' ls) :=
      Machine.run_invariant husable' fun l hl _ _ h hstep => h.step (hls l hl) hstep
    exact (wp_of_error herror' (hrun.wp_exec b call)).1
  · -- the entry has no text and no place
    cases hcall
    refine ⟨iff_of_false hdangling.not_inv hearly, fun hinv => absurd hinv hdangling.not_inv,
      fun _ => ⟨fun n dst hn => lookup_dangling dst hdangling hid hn, fun b arg' henter => ?_⟩⟩
    exact remember_dangling hdangling hid arg' henter

/-- The ids 7 and 8 are remembered, in a cache of the smallest size that can be set. -/
def twoRemembered : PschNormalizedQueryCache :=
  (machine 64).run {} [({}, .remember 7 sampleArg), ({}, .remember 8 sampleArg)]

/-- There is no memory for the entry of a third id. -/
theorem oom_inv_iff_insert :
    ∃ c', exec 64 { enter := false } (.remember 9 sampleArg) twoRemembered =
      .error .outOfMemory c' ∧ c'.lru = [8, 7] ∧ Inv c' := by
  have hinit : ((machine 64).under TextAllocated).Reachable {} :=
    .init ⟨rfl, rfl, by decide⟩
  have hs : ((machine 64).under TextAllocated).Reachable twoRemembered := by
    refine Machine.run_reachable_under hinit _ ?_
    rintro l hl c
    simp only [List.mem_cons, List.not_mem_nil, or_false] at hl
    rcases hl with rfl | rfl <;> rfl
  have hoom := oom_inv_iff hs
    (rfl : exec 64 { enter := false } (.remember 9 sampleArg) twoRemembered =
      .error .outOfMemory _)
  exact ⟨_, rfl, rfl, hoom.1.mpr (Or.inl rfl)⟩

/-- The text of an id is remembered again, and there is no memory for it: the old text is
freed, and the next lookup unlinks an entry that is not linked. -/
theorem oom_dangles :
    ∃ c', (machine 64).toSpec.Reachable twoRemembered ∧
      exec 64 { text := false } (.remember 7 sampleArg) twoRemembered = .error .outOfMemory c' ∧
      ¬ Inv c' ∧ lookup 7 (.zero 8) c' = .error .undefined c' := by
  have hinit : (machine 64).toSpec.Reachable {} := .init ⟨rfl, rfl, by decide⟩
  refine ⟨_, (machine 64).run_reachable _ hinit _, rfl, ?_, rfl⟩
  intro hinv
  have hmem : 7 ∈ [(8 : UInt64)] := (hinv.keys 7).mp (by decide)
  revert hmem
  decide

end PschNormalizedQueryCache

end PgStatCh
