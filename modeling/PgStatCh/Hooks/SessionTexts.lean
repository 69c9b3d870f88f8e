import PgStatCh.Hooks.SessionEvents

/-!
# Hooks.SessionTexts — which text the event of a statement has

The parse hook stores a text for the id of a query, and the hooks at the end of a
statement look the text up by its id. In between any number of other statements can be
parsed and executed. An event gets the text that was last stored for its id if fewer
other ids than the cache has room for were used since, and no text otherwise
(`query_text_recalled`); it never gets the text of another id.

The size of the cache is the setting at the moment when the first text is stored. Before
that it can be anything, so the invariant (`TextInv`) holds for every size that is still
possible.

As long as there is memory for the texts, no hook does anything undefined
(`hooks_defined`).
-/

namespace PgStatCh

open Lib Tla Prog

/-! ## The size of the cache -/

namespace PschNormalizedQueryCache

variable {c c' : PschNormalizedQueryCache} {queryId : UInt64} {normalizeCacheMax : ℤ}

/-- A cache that is there stays there, with its size. -/
structure SameSize (c c' : PschNormalizedQueryCache) : Prop where
  isSome : c'.htab.isSome
  maxEntries : c'.maxEntries = c.maxEntries

def KeepsSize {α : Type} (x : M α) : Prop :=
  ∀ c : PschNormalizedQueryCache, c.htab.isSome →
    wp x (fun _ => SameSize c) (fun _ => SameSize c) c

theorem KeepsSize.bind {α β : Type} {x : M α} {f : α → M β} (hx : KeepsSize x)
    (hf : ∀ a, KeepsSize (f a)) : KeepsSize (x >>= f) := by
  intro c hc
  have htrans : ∀ {c₁ c₂ : PschNormalizedQueryCache}, SameSize c c₁ → SameSize c₁ c₂ →
      SameSize c c₂ := fun h₁ h₂ => ⟨h₂.isSome, h₂.maxEntries.trans h₁.maxEntries⟩
  rw [wp_bind]
  refine wp_mono (hx c hc) ?_ fun _ _ => id
  intro a c₁ h₁
  exact wp_mono (hf a c₁ h₁.isSome) (fun _ _ => htrans h₁) fun _ _ => htrans h₁

theorem keepsSize_get : KeepsSize (get : M PschNormalizedQueryCache) := fun _ hc => ⟨hc, rfl⟩

theorem keepsSize_pure {α : Type} (a : α) : KeepsSize (pure a : M α) := fun _ hc => ⟨hc, rfl⟩

theorem keepsSize_throw {α : Type} (e : Abort) : KeepsSize (throw e : M α) :=
  fun _ hc => ⟨hc, rfl⟩

theorem keepsSize_alloc (ok : Bool) : KeepsSize (alloc ok) := by
  cases ok
  · exact keepsSize_throw _
  · exact keepsSize_pure _

theorem keepsSize_setEntry (entry : PschNormalizeCacheEntry) :
    KeepsSize (setEntry queryId entry) := fun _ _ => ⟨rfl, rfl⟩

theorem keepsSize_pushEntryToMru : KeepsSize (pushEntryToMru queryId) := fun _ hc => ⟨hc, rfl⟩

theorem keepsSize_freeText (entry : PschNormalizeCacheEntry) :
    KeepsSize (freeText queryId entry) := by
  unfold freeText
  split
  · exact keepsSize_setEntry _
  · exact keepsSize_throw _

theorem keepsSize_unlink : KeepsSize (unlink queryId) := by
  refine keepsSize_get.bind fun c => ?_
  split
  · exact fun _ hc => ⟨hc, rfl⟩
  · exact keepsSize_throw _

theorem keepsSize_evictLru : KeepsSize evictLru := by
  refine keepsSize_get.bind fun c => ?_
  split
  · exact keepsSize_throw _
  · refine keepsSize_unlink.bind fun _ => ?_
    split
    · exact keepsSize_throw _
    · exact (keepsSize_freeText _).bind fun _ _ _ => ⟨rfl, rfl⟩

theorem keepsSize_enterKey : KeepsSize (enterKey queryId) := by
  refine keepsSize_get.bind fun c => ?_
  split
  · exact (keepsSize_freeText _).bind fun _ => keepsSize_unlink
  · refine (keepsSize_setEntry _).bind fun _ => ?_
    split
    · exact keepsSize_evictLru
    · exact keepsSize_pure _

theorem keepsSize_lookup {n : ℕ} (dst : CharBuf n) : KeepsSize (lookup queryId dst) := by
  refine keepsSize_get.bind fun c => ?_
  split
  · exact keepsSize_pure _
  · split
    · exact keepsSize_pure _
    · refine (keepsSize_unlink.bind fun _ => keepsSize_pushEntryToMru).bind fun _ => ?_
      split
      · exact keepsSize_pure _
      · exact keepsSize_throw _

/-- A lookup in a cache that is not there does nothing. -/
theorem lookup_sized {n : ℕ} {dst : CharBuf n} {found : Option (CharBuf n × UInt16)}
    (h : lookup queryId dst c = .ok found c') : c' = c ∨ c.htab.isSome ∧ SameSize c c' := by
  cases hhtab : c.htab with
  | none =>
    have hwp : wp (lookup queryId dst) (fun _ c' => c' = c) (fun _ _ => False) c := by
      rw [lookup, wp_bind, wp_get, if_pos (Or.inl (by simp [hhtab])), wp_pure]
    have hsame := wp_of_ok h hwp
    exact Or.inl hsame
  | some t =>
    have hsome : c.htab.isSome := by simp [hhtab]
    have hsame := wp_of_ok h (keepsSize_lookup dst c hsome)
    exact Or.inr ⟨rfl, hsame⟩

/-- The cache is there, with the size it has to have. -/
structure Sized (normalizeCacheMax : ℤ) (c c' : PschNormalizedQueryCache) : Prop where
  isSome : c'.htab.isSome
  maxEntries : c'.maxEntries = capacity normalizeCacheMax c

/-- Only if there is no memory for the cache itself it is not there afterwards. -/
theorem wp_remember_sized (normalizeCacheMax : ℤ) (c : PschNormalizedQueryCache)
    (hid : queryId ≠ 0) (a : CacheAlloc) (text : List UInt8) (len : ℕ) :
    wp (remember normalizeCacheMax a queryId text len) (fun _ => Sized normalizeCacheMax c)
      (fun _ c' => c' = c ∨ Sized normalizeCacheMax c c') c := by
  have hrest : KeepsSize (do
      alloc a.enter
      enterKey queryId
      let len := clampCachedQueryLen len
      alloc a.text
      setEntry queryId { normalizedQuery := .live (text.take len), normalizedLen := len }
      pushEntryToMru queryId) :=
    (keepsSize_alloc _).bind fun _ => keepsSize_enterKey.bind fun _ =>
      (keepsSize_alloc _).bind fun _ => (keepsSize_setEntry _).bind fun _ =>
        keepsSize_pushEntryToMru
  have hthen : ∀ c₁ : PschNormalizedQueryCache, c₁.maxEntries = capacity normalizeCacheMax c →
      ∀ c₂, SameSize c₁ c₂ → Sized normalizeCacheMax c c₂ :=
    fun c₁ hmax c₂ h => ⟨h.isSome, h.maxEntries.trans hmax⟩
  rw [remember, if_neg hid, wp_bind, ensureInitialized, wp_bind, wp_get]
  split
  · next hsome =>
    have hmax : c.maxEntries = capacity normalizeCacheMax c := (if_pos hsome).symm
    rw [wp_pure]
    exact wp_mono (hrest c hsome) (fun _ => hthen c hmax) fun _ c' h => Or.inr (hthen c hmax c' h)
  · next hnone =>
    rw [wp_bind]
    unfold alloc
    split
    · rw [wp_pure, wp_modify]
      have hmax : (if 0 < c.maxEntries then c.maxEntries else normalizeCacheMax) =
          capacity normalizeCacheMax c := (if_neg hnone).symm
      exact wp_mono (hrest _ rfl) (fun _ => hthen _ hmax) fun _ c' h => Or.inr (hthen _ hmax c' h)
    · exact Or.inl rfl

/-! ## What was remembered -/

/-- What the calls so far amount to. -/
def recalled (m : ℕ) (calls : List CacheCall) : Recall := calls.foldl (Recall.step m) {}

theorem recalled_append (m : ℕ) (calls : List CacheCall) (call : CacheCall) :
    recalled m (calls ++ [call]) = (recalled m calls).step m call := by
  simp [recalled]

/-- The id 0 stands for no id. -/
theorem zero_notMem_uses (m : ℕ) (calls : List CacheCall) : 0 ∉ (recalled m calls).uses := by
  induction calls using List.reverseRecOn with
  | nil => exact List.not_mem_nil
  | append_singleton calls call ih =>
    rw [recalled_append]
    unfold Recall.step
    split
    · split
      · exact ih
      · next hid => simp [ih, Ne.symm hid]
    · split
      · next hhit => simp [ih, Ne.symm hhit.1]
      · exact ih

/-- The text that an event of this query gets after these calls. -/
def recalledText (m : ℕ) (calls : List CacheCall) (queryId : UInt64) : List UInt8 :=
  if (recalled m calls).Hits m queryId then
    ((recalled m calls).texts queryId).text.take (min ((recalled m calls).texts queryId).len 2047)
  else []

theorem recalledText_zero (m : ℕ) (calls : List CacheCall) : recalledText m calls 0 = [] :=
  if_neg fun hhits => zero_notMem_uses m calls hhits.1

variable {m : ℕ} {r : Recall}

/-- The size does not depend on the setting when the cache is there. -/
theorem Refines.of_isSome (h : Refines normalizeCacheMax m r c) (hsome : c.htab.isSome)
    (normalizeCacheMax' : ℤ) : Refines normalizeCacheMax' m r c where
  holds := h.holds
  lru := h.lru
  capacity := by
    have hcap := h.capacity
    rw [PschNormalizedQueryCache.capacity, if_pos hsome] at hcap ⊢
    exact hcap

end PschNormalizedQueryCache

namespace BackendHooks

open PschNormalizedQueryCache

variable {s s' : BackendHooks} {isParallelWorker : Bool} {core : PgCore} {l : Label}

/-- The lookup for an event of this query. -/
theorem lookupText_recalled {m : ℕ} {calls : List CacheCall} {c : PschNormalizedQueryCache}
    (h : Refines m m (recalled m calls) c) (queryId : UInt64) :
    ∃ found c', lookupText queryId c = .ok found c' ∧
      Refines m m (recalled m (calls ++ [.lookup queryId pschMaxQueryLen (.zero _)])) c' ∧
      ∀ f : FixedPrefix, (copyQueryText found f).queryText = recalledText m calls queryId := by
  have hwp : wp (exec m {} (.lookup queryId pschMaxQueryLen (.zero _)))
      (fun _ c' => Refines m m
        ((recalled m calls).step m (.lookup queryId pschMaxQueryLen (.zero _))) c')
      (fun _ _ => False) c := wp_exec_lookup h {} _
  rw [exec, wp_bind] at hwp
  obtain ⟨found, c', hlookup⟩ := exists_ok hwp
  refine ⟨found, c', hlookup, ?_, fun f => ?_⟩
  · have hrefines := wp_of_ok hlookup hwp
    rw [wp_pure, ← recalled_append] at hrefines
    exact hrefines
  · cases found with
    | none =>
      -- a text that was to be found would have been
      have hmiss : ¬ (recalled m calls).Hits m queryId := by
        intro hhits
        have hid : queryId ≠ 0 := by
          rintro rfl
          exact zero_notMem_uses m calls hhits.1
        rw [lookup_present _ h.holds hid (by decide) (h.mem_lru_iff.mpr hhits) rfl]
          at hlookup
        cases hlookup
      rw [recalledText, if_neg hmiss]
      rfl
    | some p =>
      have hhits := h.mem_lru_iff.mp (lookup_found h hlookup).2
      rw [recalledText, if_pos hhits]
      exact copyQueryText_queryText h hlookup f

/-! ## The invariant -/

/-- The number of texts that can be the size of the cache, now or once it is there. -/
def SizeIs (s : BackendHooks) (m : ℕ) : Prop :=
  1 ≤ m ∧ (s.backendState.normalizeCache.htab.isSome →
    s.backendState.normalizeCache.maxEntries = m)

/-- The cache has the texts that were remembered, and each event had the text that was to be
found. -/
structure TextInv (s : BackendHooks) : Prop where
  fresh : s.backendState.normalizeCache.htab = none → s.backendState.normalizeCache.maxEntries = 0
  size : ∃ m, SizeIs s m
  refines : ∀ m, SizeIs s m → Refines m m (recalled m s.calls) s.backendState.normalizeCache
  built : ∀ m, SizeIs s m → ∀ b ∈ s.built,
    b.event.queryText = recalledText m b.calls b.event.fixed.queryid

theorem Logged.recalled {b : Built} (h : Logged b) (m : ℕ) :
    b.event.queryText = recalledText m b.calls b.event.fixed.queryid := by
  rw [h.1, h.2, recalledText_zero]

theorem TextInv.quiet (h : TextInv s) (hquiet : Quiet s s') : TextInv s' := by
  have hsize : ∀ m, SizeIs s' m ↔ SizeIs s m := fun m => by rw [SizeIs, SizeIs, hquiet.cache]
  refine ⟨?_, ?_, fun m hm => ?_, fun m hm b hb => ?_⟩
  · rw [hquiet.cache]
    exact h.fresh
  · obtain ⟨m, hm⟩ := h.size
    exact ⟨m, (hsize m).mpr hm⟩
  · rw [hquiet.cache, hquiet.calls]
    exact h.refines m ((hsize m).mp hm)
  · rcases hquiet.built b hb with hb | hb
    · exact h.built m ((hsize m).mp hm) b hb
    · exact hb.recalled m

theorem TextInv.lookedUp (h : TextInv s) (hlooked : LookedUp s s') : TextInv s' := by
  obtain ⟨queryId, found, c, f, hlookup, hid, hcache, hcalls, hbuilt⟩ := hlooked
  have hsized := lookup_sized hlookup
  rw [← hcache] at hlookup hsized
  have hsize : ∀ m, SizeIs s' m ↔ SizeIs s m := by
    intro m
    rcases hsized with hsame | ⟨hsome, hsame⟩
    · rw [SizeIs, SizeIs, hsame]
    · rw [SizeIs, SizeIs, hsame.maxEntries, iff_true_intro hsome, iff_true_intro hsame.isSome]
  have hrecalled : ∀ m, SizeIs s m →
      Refines m m (recalled m s'.calls) s'.backendState.normalizeCache ∧
      (copyQueryText found f).queryText = recalledText m s.calls queryId := by
    intro m hm
    obtain ⟨found', c', hlookup', hrefines, htext⟩ :=
      lookupText_recalled (h.refines m hm) queryId
    rw [hlookup] at hlookup'
    cases hlookup'
    rw [hcalls]
    exact ⟨hrefines, htext f⟩
  refine ⟨fun hnone => ?_, ?_, fun m hm => (hrecalled m ((hsize m).mp hm)).1,
    fun m hm b hb => ?_⟩
  · rcases hsized with hsame | ⟨-, hsame⟩
    · rw [hsame] at hnone ⊢
      exact h.fresh hnone
    · have hsome := hsame.isSome
      rw [hnone] at hsome
      cases hsome
  · obtain ⟨m, hm⟩ := h.size
    exact ⟨m, (hsize m).mpr hm⟩
  · rcases hbuilt b hb with hb | hb | ⟨hbefore, hevent⟩
    · exact h.built m ((hsize m).mp hm) b hb
    · exact hb.recalled m
    · rw [hbefore, hevent, (hrecalled m ((hsize m).mp hm)).2, Executor.copyQueryText_fixed, hid]

/-! ## The parse hook -/

theorem exportedQuery_le {query : AnalyzedQuery} {jstate : Option JumbleState}
    {text : List UInt8} {len : ℕ} (h : exportedQuery core query jstate = .ok (some (text, len))) :
    len ≤ text.length := by
  simp only [exportedQuery] at h
  split at h
  · cases hnormalized : pschNormalizeQuery core _ _ _ jstate with
    | error e =>
      rw [hnormalized] at h
      cases h
    | ok normalized =>
      rw [hnormalized] at h
      obtain ⟨text', -, heq⟩ := Option.map_eq_some_iff.mp (Except.ok.inj h)
      cases heq
      exact le_rfl
  · obtain ⟨text', -, heq⟩ := Option.map_eq_some_iff.mp (Except.ok.inj h)
    cases heq
    exact (List.takeWhile_sublist _).length_le

theorem replaceConstants_error {query : List UInt8} {queryLoc : ℤ} {j : JumbleState}
    {ls : List LocationLen} {v : NormLoop} {e : Abort}
    (h : replaceConstants query queryLoc j ls v = .error e) : e ≠ .undefined := by
  induction ls generalizing v with
  | nil => cases h
  | cons l ls ih =>
    rw [replaceConstants] at h
    split at h
    · exact ih h
    · simp only at h
      split at h
      · exact ih h
      · unfold appendBinaryStringInfo at h
        split at h
        · cases h
          simp
        · exact ih h

theorem pschNormalizeQuery_error {query : List UInt8} {queryLoc queryLen : ℤ}
    {jstate : Option JumbleState} {e : Abort}
    (h : pschNormalizeQuery core query queryLoc queryLen jstate = .error e) : e ≠ .undefined := by
  unfold pschNormalizeQuery at h
  split at h
  · cases h
  · next j =>
    split at h
    · cases h
    · cases hloop : replaceConstants query queryLoc j
          (fillInConstantLengths core query queryLoc j.clocations) {} with
      | error e' =>
        simp only [hloop] at h
        cases h
        exact replaceConstants_error hloop
      | ok v =>
        simp only [hloop, appendBinaryStringInfo, bind, Except.bind] at h
        split at h
        · next happend =>
          split at happend
          · cases happend
            cases h
            simp
          · cases happend
        · cases h

theorem exportedQuery_error {query : AnalyzedQuery} {jstate : Option JumbleState} {e : Abort}
    (h : exportedQuery core query jstate = .error e) : e ≠ .undefined := by
  simp only [exportedQuery] at h
  split at h
  · cases hnormalized : pschNormalizeQuery core _ _ _ jstate with
    | error e' =>
      rw [hnormalized] at h
      cases h
      exact pschNormalizeQuery_error hnormalized
    | ok normalized =>
      rw [hnormalized] at h
      cases h
  · cases h

/-- The text up to its length is all that matters. -/
theorem remember_take {normalizeCacheMax : ℤ} {a : CacheAlloc} {queryId : UInt64}
    {text : List UInt8} {len : ℕ} (h : len ≤ text.length) :
    remember normalizeCacheMax a queryId text len =
      exec normalizeCacheMax a
        (.remember queryId ⟨text.take len, (text.take len).length, le_rfl⟩) := by
  have hclamp : clampCachedQueryLen len ≤ len := by
    rw [clampCachedQueryLen_eq_min]
    exact min_le_left _ _
  simp only [exec, remember, List.length_take_of_le h, List.take_take, min_eq_left hclamp]

/-- What the parse hook does with the cache: nothing, or one call that is in the history if it goes
through. -/
theorem postParseAnalyze_cases (isParallelWorker : Bool) (core : PgCore) (p : Parse) :
    let x := pschPostParseAnalyze core (p.settings isParallelWorker) p.alloc p.query p.jstate
    (p.remembers isParallelWorker core = none ∧
      (x = pure () ∨ ∃ e, e ≠ .undefined ∧ x = throw e)) ∨
    ∃ queryId arg, queryId ≠ 0 ∧
      p.remembers isParallelWorker core = some (.remember queryId arg) ∧
      x = exec p.normalizeCacheMax p.alloc (.remember queryId arg) := by
  intro x
  by_cases hoff : p.pschEnabled = false ∨ isParallelWorker = true
  · exact Or.inl ⟨if_pos (or_assoc.mp (Or.inl hoff)), Or.inl (if_pos hoff)⟩
  · have hx : x = if p.query.queryId = 0 then pure () else _ := if_neg hoff
    by_cases hid : p.query.queryId = 0
    · rw [if_pos hid] at hx
      exact Or.inl ⟨if_pos (Or.inr (Or.inr hid)), Or.inl hx⟩
    · have hon : ¬ (p.pschEnabled = false ∨ isParallelWorker = true ∨ p.query.queryId = 0) := by
        rw [← or_assoc]
        exact not_or.mpr ⟨hoff, hid⟩
      rw [if_neg hid] at hx
      rw [Parse.remembers, if_neg hon, hx]
      cases hexported : exportedQuery core p.query p.jstate with
      | error e => exact Or.inl ⟨rfl, Or.inr ⟨e, exportedQuery_error hexported, rfl⟩⟩
      | ok text =>
        cases text with
        | none => exact Or.inl ⟨rfl, Or.inl rfl⟩
        | some text =>
          obtain ⟨text, len⟩ := text
          exact Or.inr ⟨p.query.queryId, _, hid, rfl, remember_take (exportedQuery_le hexported)⟩

/-- The text allocation of the parse hook does not fail. -/
def TextAllocated (_ : BackendHooks) (l : Label) : Prop :=
  ∀ p, l = .parse p → p.alloc.text = true

theorem TextInv.one_le_capacity (h : TextInv s) (p : Parse) :
    1 ≤ capacity p.normalizeCacheMax s.backendState.normalizeCache := by
  obtain ⟨m, hm, hsize⟩ := h.size
  unfold capacity
  split
  · next hsome =>
    rw [hsize hsome]
    exact_mod_cast hm
  · next hnone =>
    -- the cache has not been set up, and takes its size from the setting
    have hmin := p.normalizeCacheMax.2.1
    rw [h.fresh (by simpa using hnone), if_neg (Int.lt_irrefl 0)]
    omega

/-- The cache is as large as it is, or will be with this setting. -/
theorem TextInv.exists_capacity (h : TextInv s) (p : Parse) :
    ∃ m : ℕ, 1 ≤ m ∧ capacity p.normalizeCacheMax s.backendState.normalizeCache = m := by
  have hpos := h.one_le_capacity p
  obtain ⟨m, hm⟩ := Int.eq_ofNat_of_zero_le (Int.le_trans (by decide) hpos)
  exact ⟨m, by omega, hm⟩

theorem TextInv.at_capacity {m : ℕ} (h : TextInv s) {p : Parse} (hm : 1 ≤ m)
    (hcap : capacity p.normalizeCacheMax s.backendState.normalizeCache = m) :
    SizeIs s m ∧
      Refines p.normalizeCacheMax m (recalled m s.calls) s.backendState.normalizeCache := by
  have hsize : SizeIs s m := by
    refine ⟨hm, fun hsome => ?_⟩
    rw [capacity, if_pos hsome] at hcap
    exact hcap
  have hrefines := h.refines m hsize
  exact ⟨hsize, hrefines.holds, hrefines.lru, hcap⟩

/-- A text is remembered, or the cache was only set up for it. -/
theorem TextInv.sized {p : Parse} (h : TextInv s)
    (hsized : Sized p.normalizeCacheMax s.backendState.normalizeCache
      s'.backendState.normalizeCache)
    (hbuilt : s'.built = s.built)
    (hrefines : ∀ m, 1 ≤ m →
      Refines p.normalizeCacheMax m (recalled m s.calls) s.backendState.normalizeCache →
      Refines p.normalizeCacheMax m (recalled m s'.calls) s'.backendState.normalizeCache) :
    TextInv s' := by
  have hback : ∀ m, SizeIs s' m → SizeIs s m ∧
      Refines p.normalizeCacheMax m (recalled m s.calls) s.backendState.normalizeCache :=
    fun m hm => h.at_capacity hm.1 (hsized.maxEntries.symm.trans (hm.2 hsized.isSome))
  refine ⟨fun hnone => ?_, ?_, fun m hm => ?_, fun m hm => ?_⟩
  · have hsome := hsized.isSome
    rw [hnone] at hsome
    cases hsome
  · obtain ⟨m, hm, hcap⟩ := h.exists_capacity p
    exact ⟨m, hm, fun _ => hsized.maxEntries.trans hcap⟩
  · exact (hrefines m hm.1 (hback m hm).2).of_isSome hsized.isSome m
  · rw [hbuilt]
    exact h.built m (hback m hm).1

/-- The parse hook leaves the cache alone, or it is there afterwards with its size. -/
theorem Parsed.sized {p : Parse} (h : Parsed isParallelWorker core p s s') :
    s'.backendState.normalizeCache = s.backendState.normalizeCache ∨
      (p.remembers isParallelWorker core).isSome ∧
        Sized p.normalizeCacheMax s.backendState.normalizeCache
          s'.backendState.normalizeCache := by
  obtain ⟨-, hrun⟩ := h
  rcases postParseAnalyze_cases isParallelWorker core p with
    ⟨-, hx | ⟨e', -, hx⟩⟩ | ⟨queryId, arg, hid, hsome, hx⟩
  · rw [hx] at hrun
    rcases hrun with ⟨c, hok, hcache, -⟩ | ⟨e, c, herror, -⟩
    · cases hok
      exact Or.inl hcache
    · cases herror
  · rw [hx] at hrun
    rcases hrun with ⟨c, hok, -⟩ | ⟨e, c, herror, -, hcache, -⟩
    · cases hok
    · cases herror
      exact Or.inl hcache
  · rw [hx] at hrun
    have hsized := wp_remember_sized p.normalizeCacheMax s.backendState.normalizeCache hid p.alloc
      arg.text arg.len
    have hremembers : (p.remembers isParallelWorker core).isSome := by simp [hsome]
    rcases hrun with ⟨c, hok, hcache, -⟩ | ⟨e, c, herror, -, hcache, -⟩
    · have hafter := wp_of_ok hok hsized
      rw [hcache]
      exact Or.inr ⟨hremembers, hafter⟩
    · have hafter := wp_of_error herror hsized
      rw [hcache]
      exact hafter.imp_right fun h => ⟨hremembers, h⟩

theorem TextInv.parsed {p : Parse} (h : TextInv s) (htext : p.alloc.text = true)
    (hparsed : Parsed isParallelWorker core p s s') : TextInv s' := by
  obtain ⟨hbuilt, hrun⟩ := hparsed
  have hsame : s'.backendState.normalizeCache = s.backendState.normalizeCache →
      s'.calls = s.calls → TextInv s' := by
    intro hcache hcalls
    exact h.quiet ⟨hcache, hcalls, fun b hb => Or.inl (hbuilt ▸ hb)⟩
  rcases postParseAnalyze_cases isParallelWorker core p with
    ⟨hnone, hx⟩ | ⟨queryId, arg, hid, hsome, hx⟩
  · -- the hook ends before it comes to the cache
    rcases hx with hx | ⟨e', -, hx⟩
    · rw [hx, hnone] at hrun
      rcases hrun with ⟨c, hok, hcache, hcalls⟩ | ⟨e, c, herror, -⟩
      · cases hok
        exact hsame hcache (hcalls.trans (List.append_nil _))
      · cases herror
    · rw [hx] at hrun
      rcases hrun with ⟨c, hok, -⟩ | ⟨e, c, herror, -, hcache, hcalls⟩
      · cases hok
      · cases herror
        exact hsame hcache hcalls
  · rw [hx, hsome] at hrun
    have hsized := wp_remember_sized p.normalizeCacheMax s.backendState.normalizeCache hid p.alloc
      arg.text arg.len
    rcases hrun with ⟨c, hok, hcache, hcalls⟩ | ⟨e, c, herror, -, hcache, hcalls⟩
    · have hsized := wp_of_ok hok hsized
      rw [← hcache] at hsized hok
      refine h.sized hsized hbuilt fun m hm hbefore => ?_
      have hafter := wp_of_ok hok (wp_exec_remember hbefore hm p.alloc arg)
      rw [hcalls, Option.toList_some, recalled_append]
      exact hafter
    · -- out of memory: for the cache itself, or behind that for the entry
      rcases wp_of_error herror hsized with hsame' | hsized
      · exact hsame (hcache.trans hsame') hcalls
      · rw [← hcache] at hsized herror
        refine h.sized hsized hbuilt fun m hm hbefore => ?_
        obtain ⟨-, ⟨-, hafter⟩ | ⟨-, hno, -⟩⟩ :=
          wp_of_error herror (wp_exec_remember hbefore hm p.alloc arg)
        · rw [hcalls]
          exact hafter
        · rw [htext] at hno
          cases hno

/-! ## Whole runs -/

theorem textInv_init : TextInv ({} : BackendHooks) := by
  refine ⟨fun _ => rfl, ⟨1, le_rfl, fun hsome => ?_⟩, fun m hm => ?_, fun m hm b hb => ?_⟩
  · cases hsome
  · exact refines_init (if_neg (Int.lt_irrefl 0))
  · cases hb

theorem textInv_reachable
    (hs : ((machine isParallelWorker core).under TextAllocated).Reachable s) : TextInv s := by
  refine Machine.invariant_under (fun _ => inv_reachable) ?_ ?_ hs
  · rintro s rfl
    exact textInv_init
  · intro s s' l hinv h hok hl
    rcases (stepped hinv hl).texts with hquiet | hlooked | ⟨p, hp, hparsed⟩
    · exact h.quiet hquiet
    · exact h.lookedUp hlooked
    · exact h.parsed (hok p hp) hparsed

/-- What a step does to the size of the cache: a cache that is there keeps its size, and one that
is set up takes the setting of the parse for whose text it is. -/
structure SizeStep (isParallelWorker : Bool) (core : PgCore) (l : Label) (s s' : BackendHooks) :
    Prop where
  kept : s.backendState.normalizeCache.htab.isSome →
    SameSize s.backendState.normalizeCache s'.backendState.normalizeCache
  setUp : s.backendState.normalizeCache.htab = none →
    s'.backendState.normalizeCache.htab.isSome →
    ∃ p, l = .parse p ∧ (p.remembers isParallelWorker core).isSome ∧
      s'.backendState.normalizeCache.maxEntries = p.normalizeCacheMax

theorem sizeStep_of_same (h : s'.backendState.normalizeCache = s.backendState.normalizeCache) :
    SizeStep isParallelWorker core l s s' := by
  refine ⟨fun hsome => ?_, fun hnone hsome => ?_⟩
  · rw [h]
    exact ⟨hsome, rfl⟩
  · rw [h, hnone] at hsome
    cases hsome

theorem sizeStep (h : TextInv s) (hstepped : Stepped isParallelWorker core l s s') :
    SizeStep isParallelWorker core l s s' := by
  rcases hstepped.texts with hquiet | ⟨queryId, found, c, f, hlookup, -, hcache, -⟩ |
    ⟨p, rfl, hparsed⟩
  · exact sizeStep_of_same hquiet.cache
  · -- the lookup of a statement's text
    rcases lookup_sized hlookup with hsame | ⟨hsome, hsame⟩
    · exact sizeStep_of_same (hcache.trans hsame)
    · rw [← hcache] at hsame
      refine ⟨fun _ => hsame, fun hnone _ => ?_⟩
      rw [hnone] at hsome
      cases hsome
  · rcases hparsed.sized with hsame | ⟨hremembers, hsized⟩
    · exact sizeStep_of_same hsame
    · refine ⟨fun hsome => ⟨hsized.isSome, ?_⟩, fun hnone _ => ⟨p, rfl, hremembers, ?_⟩⟩
      · rw [hsized.maxEntries, capacity, if_pos hsome]
      · rw [hsized.maxEntries, capacity, if_neg (by simp [hnone]), h.fresh hnone,
          if_neg (Int.lt_irrefl 0)]

/-- Every event has the text that was last remembered for its query, cut to what fits, if fewer
texts than the cache has room for were used since; and none otherwise. The size of the cache is
the setting at the parse for whose text it was set up, and does not change after that. -/
theorem query_text_recalled
    (hs : ((machine isParallelWorker core).under TextAllocated).Reachable s) :
    (∃ m, SizeIs s m ∧ ∀ b ∈ s.built,
      b.event.queryText = recalledText m b.calls b.event.fixed.queryid) ∧
    ∀ l s', (machine isParallelWorker core).step l s = some s' →
      SizeStep isParallelWorker core l s s' := by
  have h := textInv_reachable hs
  obtain ⟨m, hm⟩ := h.size
  refine ⟨⟨m, hm, h.built m hm⟩, fun l s' hl => sizeStep h ?_⟩
  exact stepped (inv_reachable (Machine.reachable_of_under hs)) hl

/-! ## Nothing is undefined -/

theorem TextInv.not_undefined (h : TextInv s) : ¬ Undefined s := by
  rintro ⟨queryId, c, hundefined⟩
  obtain ⟨m, hm⟩ := h.size
  obtain ⟨found, c', hlookup, -⟩ := lookupText_recalled (h.refines m hm) queryId
  rw [hlookup] at hundefined
  cases hundefined

theorem wp_postParseAnalyze_defined {p : Parse} (h : TextInv s) :
    wp (postParseAnalyze isParallelWorker core p) (fun _ _ => True) (fun e _ => e ≠ .undefined)
      s := by
  rw [postParseAnalyze, wp_bind, wp_onCache]
  rcases postParseAnalyze_cases isParallelWorker core p with
    ⟨-, hx | ⟨e, he, hx⟩⟩ | ⟨queryId, arg, -, -, hx⟩
  · rw [hx]
    trivial
  · rw [hx, wp_throw]
    cases e with
    | undefined => exact absurd rfl he
    | outOfMemory => simp [raisedBy]
    | invalidEnlargement n => simp [raisedBy]
  · obtain ⟨m, hm, hcap⟩ := h.exists_capacity p
    rw [hx]
    refine wp_mono (wp_exec_remember (h.at_capacity hm hcap).2 hm p.alloc arg)
      (fun _ _ _ => trivial) ?_
    rintro e c ⟨rfl, -⟩
    simp [raisedBy]

/-- Of the hooks that end statements only the lookup could be undefined. -/
theorem TextInv.breaks_defined {s₀ : BackendHooks} {Ok : Executor → Prop} {e : Raised}
    (h : TextInv s) (hsame : s₀.backendState = s.backendState) (hbreaks : Breaks s₀ Ok e s') :
    e ≠ .undefined := by
  rcases hbreaks with ⟨rfl, -⟩ | ⟨-, hundefined⟩
  · simp
  · rw [Undefined, hsame] at hundefined
    exact absurd hundefined h.not_undefined

theorem wp_program_defined {x : M Unit} (hinv : Inv s) (h : TextInv s)
    (hx : program isParallelWorker core l s = some x) :
    wp x (fun _ _ => True) (fun e _ => e ≠ .undefined) s := by
  cases enabled_of_program hx with
  | parse p hr => exact wp_postParseAnalyze_defined h
  | executor l e he => trivial
  | executorEnd started desc a y hr hstarted =>
    exact wp_mono (wp_pschExecutorEnd hinv) (fun _ _ _ => trivial) fun _ _ => h.breaks_defined rfl
  | returned a y f below hr hstack =>
    rw [returnTo, wp_bind, wp_modify]
    exact wp_mono (wp_utilityEvent (hinv.withExecutor _) rfl) (fun _ _ _ => trivial)
      fun _ _ => h.breaks_defined rfl
  | callOut c hr =>
    refine wp_mono (keeps_run c s hinv) (fun _ _ _ => trivial) ?_
    rintro e s₁ ⟨rfl, -⟩
    simp

/-- No hook follows a dangling pointer or copies beyond a buffer, as long as the parse hook gets
memory for its texts. -/
theorem hooks_defined {x : M Unit}
    (hs : ((machine isParallelWorker core).under TextAllocated).Reachable s)
    (hx : program isParallelWorker core l s = some x) (s₁ : BackendHooks) :
    x s ≠ .error .undefined s₁ := by
  intro hundefined
  have hinv := inv_reachable (Machine.reachable_of_under hs)
  exact wp_of_error hundefined (wp_program_defined hinv (textInv_reachable hs) hx) rfl

/-! ## Samples -/

theorem smallest_inRange : (64 : ℤ) ≤ 64 ∧ (64 : ℤ) ≤ 65536 := by decide

/-- A statement without constants. -/
def sampleParse (queryId : UInt64) (text : String) : Parse where
  normalizeCacheMax := ⟨64, smallest_inRange⟩
  query := { sourceText := ascii text, stmtLen := text.length, queryId }

/-- Two statements are parsed, and the first of them is executed. -/
def parsedAndRun : List Label :=
  [.parse (sampleParse 7 "TABLE t"), .parse (sampleParse 8 "TABLE u"),
    .executor (.executorStart true 1 {}), .returned {} {}, .executorEnd 0 { queryId := 7 } {} {}]

def executed : BackendHooks := (machine false plainCore).run {} parsedAndRun

theorem init_reachable : ((machine false plainCore).under TextAllocated).Reachable {} := .init rfl

theorem sampleRun_reachable {ls : List Label} (h : ∀ l ∈ ls, l ∈ parsedAndRun) :
    ((machine false plainCore).under TextAllocated).Reachable
      ((machine false plainCore).run {} ls) := by
  refine Machine.run_reachable_under init_reachable ls ?_
  intro l hl s p hp
  subst hp
  have hmem := h _ hl
  simp only [parsedAndRun, List.mem_cons, Label.parse.injEq, reduceCtorEq, List.not_mem_nil,
    or_false] at hmem
  rcases hmem with rfl | rfl
  · rfl
  · rfl

theorem executed_reachable :
    ((machine false plainCore).under TextAllocated).Reachable executed :=
  sampleRun_reachable fun _ => id

/-- The event has the text of its statement, and the cache was set up for that text with the
setting of its parse. -/
theorem query_text_recalled_executed :
    executed.built.map (fun b => b.event.queryText) = [ascii "TABLE t"] ∧
    ∃ s', (machine false plainCore).step (.parse (sampleParse 7 "TABLE t")) {} = some s' ∧
      s'.backendState.normalizeCache.maxEntries = 64 := by
  constructor
  · obtain ⟨⟨m, ⟨-, hsize⟩, htexts⟩, -⟩ := query_text_recalled executed_reachable
    have hmax : executed.backendState.normalizeCache.maxEntries = 64 := by decide +kernel
    have hm : (m : ℤ) = 64 := (hsize (by decide +kernel)).symm.trans hmax
    obtain rfl : m = 64 := by exact_mod_cast hm
    exact (List.map_congr_left htexts).trans (by decide +kernel)
  · have hstep : (machine false plainCore).step (.parse (sampleParse 7 "TABLE t")) {} = some _ := rfl
    obtain ⟨p, hp, -, hmax⟩ :=
      ((query_text_recalled init_reachable).2 _ _ hstep).setUp rfl (by decide +kernel)
    cases hp
    exact ⟨_, hstep, hmax⟩

/-- The statement is about to end. -/
def running : BackendHooks := (machine false plainCore).run {} (parsedAndRun.take 4)

theorem running_reachable :
    ((machine false plainCore).under TextAllocated).Reachable running :=
  sampleRun_reachable fun _ hl => List.mem_of_mem_take hl

theorem hooks_defined_ended :
    ∃ x, program false plainCore (.executorEnd 0 { queryId := 7 } {} {}) running = some x ∧
      ∀ s₁, x running ≠ .error .undefined s₁ := by
  have hx : program false plainCore (.executorEnd 0 { queryId := 7 } {} {}) running = some _ := rfl
  exact ⟨_, hx, hooks_defined running_reachable hx⟩

end BackendHooks

end PgStatCh
