import PgStatCh.Hooks.Normalize
import PgStatCh.Lib.FinTable
import Mathlib.Data.List.DropRight

/-!
# Export.Attributes — the setting `psch_otel_extra_attributes`

`ParseExtraAttributes` of the Arrow builder reads the setting, `key:value` pairs between
semicolons, into a map. The scanner cuts one token after the other off a view;
`parseLoop_eq` says that it treats the `;`-separated segments from left to right, each on its
own. From that follow

* what a key is mapped to, for every text (`get_parseExtraAttributes`), and
* that a map written out in any order, with white space and stray semicolons, is read back
  (`parseExtraAttributes_renders`).
-/

namespace PgStatCh

open Lib

/-- `';'`. -/
def semicolon : UInt8 := 59

/-- `':'`. -/
def colon : UInt8 := 58

/-! ## The code -/

/-- `TrimAsciiWhitespace`: one loop for the front, one for the back. -/
def trimAsciiWhitespace (input : List UInt8) : List UInt8 :=
  (input.dropWhile isspace).rdropWhile isspace

/-- `extra_attrs`. -/
abbrev ExtraAttrs := FinTable (List UInt8) (List UInt8)

/-- What the loop of `ParseExtraAttributes` does with one token. -/
def parseToken (attrs : ExtraAttrs) (token : List UInt8) : ExtraAttrs :=
  match token.findIdx? (· == colon) with
  | none => attrs
  | some sep =>
    let key := trimAsciiWhitespace (token.take sep)
    let value := trimAsciiWhitespace (token.drop (sep + 1))
    if key = [] then attrs else attrs.emplace key value

/-- The loop of `ParseExtraAttributes`. -/
def parseLoop (attrs : ExtraAttrs) (input : List UInt8) : ExtraAttrs :=
  if input = [] then attrs
  else
    match input.findIdx? (· == semicolon) with
    | none => parseToken attrs input
    | some nextDelim =>
      parseLoop (parseToken attrs (input.take nextDelim)) (input.drop (nextDelim + 1))
termination_by input.length
decreasing_by
  have hpos := List.length_pos_of_ne_nil ‹input ≠ []›
  rw [List.length_drop]
  omega

/-- `ParseExtraAttributes`; the setting may be a null pointer. -/
def parseExtraAttributes (rawAttrs : Option (List UInt8)) : ExtraAttrs :=
  parseLoop .empty (rawAttrs.getD [])

/-- `ExtraAttr`. -/
def extraAttr (attrs : ExtraAttrs) (key : List UInt8) : List UInt8 := (attrs.get key).getD []

/-! ## Token by token -/

theorem findIdx?_of_notMem {c : UInt8} {l : List UInt8} (h : c ∉ l) :
    l.findIdx? (· == c) = none := by
  rw [List.findIdx?_eq_none_iff]
  intro x hx
  rw [beq_eq_false_iff_ne]
  rintro rfl
  exact h hx

/-- `find` stops at the first occurrence. -/
theorem findIdx?_first {c : UInt8} {a : List UInt8} (b : List UInt8) (h : c ∉ a) :
    (a ++ c :: b).findIdx? (· == c) = some a.length := by
  simp [List.findIdx?_append, findIdx?_of_notMem h, List.findIdx?_cons]

theorem parseToken_of_notMem {attrs : ExtraAttrs} {token : List UInt8} (h : colon ∉ token) :
    parseToken attrs token = attrs := by
  rw [parseToken, findIdx?_of_notMem h]

theorem parseLoop_last {attrs : ExtraAttrs} {input : List UInt8} (h : semicolon ∉ input) :
    parseLoop attrs input = parseToken attrs input := by
  rw [parseLoop, findIdx?_of_notMem h]
  split
  · next hempty =>
    rw [hempty, parseToken_of_notMem List.not_mem_nil]
  · rfl

theorem parseLoop_cut {attrs : ExtraAttrs} {a : List UInt8} (b : List UInt8)
    (h : semicolon ∉ a) :
    parseLoop attrs (a ++ semicolon :: b) = parseLoop (parseToken attrs a) b := by
  rw [parseLoop, findIdx?_first b h, if_neg (by simp)]
  simp

/-- The segments of a text, between its semicolons. -/
def segments (input : List UInt8) : List (List UInt8) := input.splitOn semicolon

theorem segments_last {input : List UInt8} (h : semicolon ∉ input) : segments input = [input] := by
  unfold segments List.splitOn
  apply List.splitOnP_eq_singleton
  intro c hc
  rw [beq_eq_false_iff_ne]
  rintro rfl
  exact h hc

theorem segments_cut {a : List UInt8} (b : List UInt8) (h : semicolon ∉ a) :
    segments (a ++ semicolon :: b) = a :: segments b := by
  unfold segments List.splitOn
  refine List.splitOnP_append_cons_of_forall_mem (p := (· == semicolon)) ?_ semicolon
    (beq_self_eq_true _) b
  intro c hc
  rw [beq_eq_false_iff_ne]
  rintro rfl
  exact h hc

/-- The loop treats the segments from left to right. -/
theorem parseLoop_eq (attrs : ExtraAttrs) (input : List UInt8) :
    parseLoop attrs input = (segments input).foldl parseToken attrs := by
  -- on the length of what is left of the view
  induction hn : input.length using Nat.strong_induction_on generalizing attrs input with
  | _ n ih =>
    by_cases hmem : semicolon ∈ input
    · obtain ⟨a, b, rfl, ha⟩ := List.eq_append_cons_of_mem hmem
      rw [parseLoop_cut b ha, segments_cut b ha, List.foldl_cons]
      refine ih b.length ?_ _ _ rfl
      rw [← hn, List.length_append, List.length_cons]
      omega
    · rw [parseLoop_last hmem, segments_last hmem, List.foldl_cons, List.foldl_nil]

/-! ## What a key is mapped to -/

/-- The segment has this text, trimmed, in front of its first colon, and this one behind. -/
def Pair (segment key value : List UInt8) : Prop :=
  ∃ k v, segment = k ++ colon :: v ∧ colon ∉ k ∧ trimAsciiWhitespace k = key ∧
    trimAsciiWhitespace v = value

/-- The first segment with this key has this value. -/
def FirstPair (segs : List (List UInt8)) (key value : List UInt8) : Prop :=
  ∃ before segment after, segs = before ++ segment :: after ∧ Pair segment key value ∧
    ∀ s ∈ before, ∀ value', ¬ Pair s key value'

/-- The entry that a segment makes, if it makes one. -/
def entryOf (segment : List UInt8) : Option (List UInt8 × List UInt8) :=
  match segment.findIdx? (· == colon) with
  | none => none
  | some sep =>
    let key := trimAsciiWhitespace (segment.take sep)
    if key = [] then none else some (key, trimAsciiWhitespace (segment.drop (sep + 1)))

theorem entryOf_of_notMem {segment : List UInt8} (h : colon ∉ segment) : entryOf segment = none := by
  rw [entryOf, findIdx?_of_notMem h]

theorem entryOf_pair {k : List UInt8} (v : List UInt8) (h : colon ∉ k) :
    entryOf (k ++ colon :: v) =
      if trimAsciiWhitespace k = [] then none
      else some (trimAsciiWhitespace k, trimAsciiWhitespace v) := by
  rw [entryOf, findIdx?_first v h]
  simp

theorem entryOf_eq_some {segment key value : List UInt8} :
    entryOf segment = some (key, value) ↔ key ≠ [] ∧ Pair segment key value := by
  constructor
  · intro h
    by_cases hmem : colon ∈ segment
    · obtain ⟨k, v, rfl, hk⟩ := List.eq_append_cons_of_mem hmem
      rw [entryOf_pair v hk] at h
      split at h
      · cases h
      · next hkey =>
        cases h
        exact ⟨hkey, k, v, rfl, hk, rfl, rfl⟩
    · rw [entryOf_of_notMem hmem] at h
      cases h
  · rintro ⟨hkey, k, v, rfl, hk, rfl, rfl⟩
    rw [entryOf_pair v hk, if_neg hkey]

theorem parseToken_eq (attrs : ExtraAttrs) (token : List UInt8) :
    parseToken attrs token = ((entryOf token).elim attrs fun e => attrs.emplace e.1 e.2) := by
  unfold parseToken entryOf
  cases token.findIdx? (· == colon) with
  | none => rfl
  | some sep =>
    simp only
    split <;> rfl

/-- The map is made of the entries of the segments, in their order. -/
theorem parseExtraAttributes_eq (rawAttrs : Option (List UInt8)) :
    parseExtraAttributes rawAttrs =
      ((segments (rawAttrs.getD [])).filterMap entryOf).foldl (fun t e => t.emplace e.1 e.2)
        .empty := by
  rw [parseExtraAttributes, parseLoop_eq, List.foldl_filterMap]
  congr 1
  funext attrs token
  rw [parseToken_eq]
  cases entryOf token <;> rfl

theorem get_parseExtraAttributes (rawAttrs : Option (List UInt8)) (key value : List UInt8) :
    (parseExtraAttributes rawAttrs).get key = some value ↔
      key ≠ [] ∧ FirstPair (segments (rawAttrs.getD [])) key value := by
  rw [parseExtraAttributes_eq, FinTable.get_foldl_emplace, FinTable.get_empty, Option.none_or,
    List.find?_filterMap]
  generalize segments (rawAttrs.getD []) = segs
  have hany (s : List UInt8) : (entryOf s).any (fun e => decide (e.1 = key)) = true ↔
      ∃ v, entryOf s = some (key, v) := by
    cases entryOf s with
    | none => simp
    | some e =>
      simp only [Option.any_some, decide_eq_true_eq, Option.some.injEq]
      constructor
      · rintro rfl
        exact ⟨e.2, rfl⟩
      · rintro ⟨v, rfl⟩
        rfl
  constructor
  · intro h
    obtain ⟨e, he, rfl⟩ := Option.map_eq_some_iff.mp h
    obtain ⟨s, hs, hentry⟩ := Option.bind_eq_some_iff.mp he
    obtain ⟨hkey, before, after, rfl, hbefore⟩ := List.find?_eq_some_iff_append.mp hs
    obtain ⟨v, hv⟩ := (hany s).mp hkey
    rw [hv] at hentry
    cases hentry
    obtain ⟨hne, hpair⟩ := entryOf_eq_some.mp hv
    refine ⟨hne, before, s, after, rfl, hpair, ?_⟩
    intro s' hs' v' hpair'
    have hno := hbefore s' hs'
    rw [(hany s').mpr ⟨v', entryOf_eq_some.mpr ⟨hne, hpair'⟩⟩] at hno
    cases hno
  · rintro ⟨hne, before, s, after, rfl, hpair, hbefore⟩
    have hv := entryOf_eq_some.mpr ⟨hne, hpair⟩
    have hfind : (before ++ s :: after).find?
        (fun s => (entryOf s).any fun e => decide (e.1 = key)) = some s := by
      rw [List.find?_eq_some_iff_append]
      refine ⟨(hany s).mpr ⟨_, hv⟩, before, after, rfl, ?_⟩
      intro s' hs'
      rw [Bool.not_eq_true', Bool.eq_false_iff, ne_eq, hany]
      rintro ⟨v', hv'⟩
      exact hbefore s' hs' v' (entryOf_eq_some.mp hv').2
    rw [hfind]
    simp [hv]

/-! ## Writing a map out and reading it back -/

/-- Neither the first nor the last byte is white space. -/
def Trimmed (l : List UInt8) : Prop :=
  (∀ c ∈ l.head?, isspace c = false) ∧ ∀ c ∈ l.getLast?, isspace c = false

/-- White space only. -/
def Blank (l : List UInt8) : Prop := ∀ c ∈ l, isspace c = true

instance (l : List UInt8) : Decidable (Trimmed l) :=
  @instDecidableAnd _ _ (Option.decidableForallMem l.head?) (Option.decidableForallMem l.getLast?)

instance (l : List UInt8) : Decidable (Blank l) := List.decidableBAll _ l

theorem rdropWhile_append_blank (l : List UInt8) {post : List UInt8} (hpost : Blank post) :
    (l ++ post).rdropWhile isspace = l.rdropWhile isspace := by
  have hrev : ∀ c ∈ post.reverse, isspace c = true := fun c hc => hpost c (List.mem_reverse.mp hc)
  rw [List.rdropWhile, List.reverse_append, List.dropWhile_append_of_pos hrev, List.rdropWhile]

/-- Padding is trimmed off. -/
theorem trim_padded {pre l post : List UInt8} (hpre : Blank pre) (hl : Trimmed l)
    (hpost : Blank post) : trimAsciiWhitespace (pre ++ l ++ post) = l := by
  rw [trimAsciiWhitespace, List.append_assoc, List.dropWhile_append_of_pos hpre]
  cases l with
  | nil => rw [List.nil_append, List.dropWhile_eq_nil_iff.mpr hpost, List.rdropWhile_nil]
  | cons c m =>
    have hfront : ((c :: m) ++ post).dropWhile isspace = (c :: m) ++ post := by
      rw [List.cons_append, List.dropWhile_cons_of_neg]
      rw [hl.1 c rfl]
      exact Bool.false_ne_true
    rw [hfront, rdropWhile_append_blank _ hpost, List.rdropWhile_eq_self_iff]
    intro hne
    rw [hl.2 _ (List.getLast?_eq_some_getLast hne)]
    exact Bool.false_ne_true

/-- The map has keys and values that can be written out. -/
structure Renderable (attrs : ExtraAttrs) : Prop where
  key : ∀ k v, attrs.get k = some v → k ≠ [] ∧ Trimmed k ∧ semicolon ∉ k ∧ colon ∉ k
  value : ∀ k v, attrs.get k = some v → Trimmed v ∧ semicolon ∉ v

/-- The list has every entry of the map, once. -/
def Lists (attrs : ExtraAttrs) (entries : List (List UInt8 × List UInt8)) : Prop :=
  (entries.map Prod.fst).Nodup ∧ ∀ k v, (k, v) ∈ entries ↔ attrs.get k = some v

/-- The segments write out the entries in their order, `key:value` each, with white space around
keys and values. A stray semicolon makes a segment that holds nothing, or nothing but white
space. -/
inductive Renders : List (List UInt8 × List UInt8) → List (List UInt8) → Prop where
  | nil : Renders [] []
  | stray {entries segs blank} (hblank : Blank blank) (h : Renders entries segs) :
      Renders entries (blank :: segs)
  | entry {entries segs} (k v w₁ w₂ w₃ w₄) (h₁ : Blank w₁) (h₂ : Blank w₂) (h₃ : Blank w₃)
      (h₄ : Blank w₄) (h : Renders entries segs) :
      Renders ((k, v) :: entries) ((w₁ ++ k ++ w₂ ++ colon :: (w₃ ++ v ++ w₄)) :: segs)

/-- The segments with semicolons between them. -/
def joined (segs : List (List UInt8)) : List UInt8 := [semicolon].intercalate segs

theorem Blank.notMem {l : List UInt8} (h : Blank l) {c : UInt8} (hc : isspace c = false) : c ∉ l := by
  intro hmem
  rw [h c hmem] at hc
  cases hc

theorem segments_joined {segs : List (List UInt8)} (h : ∀ s ∈ segs, semicolon ∉ s)
    (hne : segs ≠ []) : segments (joined segs) = segs :=
  List.splitOn_intercalate semicolon h hne

variable {attrs : ExtraAttrs} {entries : List (List UInt8 × List UInt8)}
  {segs : List (List UInt8)}

/-- What can be written out has no semicolon in a segment. -/
theorem Renders.notMem (h : Renders entries segs)
    (hentries : ∀ e ∈ entries, semicolon ∉ e.1 ∧ semicolon ∉ e.2) :
    ∀ s ∈ segs, semicolon ∉ s := by
  have hspace : isspace semicolon = false := rfl
  have hcolon : semicolon ≠ colon := by decide
  induction h with
  | nil => exact fun s hs => absurd hs List.not_mem_nil
  | stray hblank _ ih =>
    intro s hs
    rcases List.mem_cons.mp hs with rfl | hs
    · exact hblank.notMem hspace
    · exact ih hentries s hs
  | entry k v w₁ w₂ w₃ w₄ h₁ h₂ h₃ h₄ _ ih =>
    intro s hs
    rcases List.mem_cons.mp hs with rfl | hs
    · obtain ⟨hk, hv⟩ := hentries _ List.mem_cons_self
      simp only [List.mem_append, List.mem_cons, not_or]
      exact ⟨⟨⟨h₁.notMem hspace, hk⟩, h₂.notMem hspace⟩, hcolon,
        ⟨h₃.notMem hspace, hv⟩, h₄.notMem hspace⟩
    · exact ih (fun e he => hentries e (List.mem_cons_of_mem _ he)) s hs

/-- Each segment is read back as the entry it writes out. -/
theorem Renders.filterMap (h : Renders entries segs)
    (hentries : ∀ e ∈ entries, e.1 ≠ [] ∧ Trimmed e.1 ∧ colon ∉ e.1 ∧ Trimmed e.2) :
    segs.filterMap entryOf = entries := by
  have hspace : isspace colon = false := rfl
  induction h with
  | nil => rfl
  | stray hblank _ ih =>
    rw [List.filterMap_cons_none (entryOf_of_notMem (hblank.notMem hspace)), ih hentries]
  | entry k v w₁ w₂ w₃ w₄ h₁ h₂ h₃ h₄ _ ih =>
    obtain ⟨hne, hk, hcolon, hv⟩ := hentries _ List.mem_cons_self
    have hfront : colon ∉ w₁ ++ k ++ w₂ := by
      simp only [List.mem_append, not_or]
      exact ⟨⟨h₁.notMem hspace, hcolon⟩, h₂.notMem hspace⟩
    have hentry : entryOf (w₁ ++ k ++ w₂ ++ colon :: (w₃ ++ v ++ w₄)) = some (k, v) := by
      rw [entryOf_pair _ hfront, trim_padded h₁ hk h₂, trim_padded h₃ hv h₄, if_neg hne]
    rw [List.filterMap_cons_some hentry, ih fun e he => hentries e (List.mem_cons_of_mem _ he)]

/-- A list of the entries of a map, put into an empty map, gives the map. -/
theorem Lists.foldl_emplace (h : Lists attrs entries) :
    entries.foldl (fun t e => t.emplace e.1 e.2) .empty = attrs := by
  apply FinTable.ext_get
  intro k
  rw [FinTable.get_foldl_emplace, FinTable.get_empty, Option.none_or]
  obtain ⟨hnodup, hmem⟩ := h
  apply Option.ext
  intro v
  rw [← hmem k v, Option.map_eq_some_iff]
  constructor
  · rintro ⟨⟨k', v'⟩, hfind, rfl⟩
    have hk : k' = k := by simpa using List.find?_some hfind
    subst hk
    exact List.mem_of_find?_eq_some hfind
  · intro hkv
    obtain ⟨e, he⟩ : ∃ e, entries.find? (fun e => e.1 = k) = some e := by
      rw [← Option.isSome_iff_exists, List.find?_isSome]
      exact ⟨(k, v), hkv, decide_eq_true rfl⟩
    have hk : e.1 = k := by simpa using List.find?_some he
    have heq : e = (k, v) := List.inj_on_of_nodup_map hnodup (List.mem_of_find?_eq_some he) hkv hk
    exact ⟨e, he, congrArg Prod.snd heq⟩

theorem parseExtraAttributes_renders (hattrs : Renderable attrs) (hlists : Lists attrs entries)
    (h : Renders entries segs) : parseExtraAttributes (some (joined segs)) = attrs := by
  have hkey (e) (he : e ∈ entries) := hattrs.key e.1 e.2 ((hlists.2 e.1 e.2).mp he)
  have hvalue (e) (he : e ∈ entries) := hattrs.value e.1 e.2 ((hlists.2 e.1 e.2).mp he)
  have hentries : (segments (joined segs)).filterMap entryOf = entries := by
    rcases eq_or_ne segs [] with rfl | hne
    · -- nothing is written: the text is one empty segment
      cases h
      rfl
    · rw [segments_joined (h.notMem fun e he => ⟨(hkey e he).2.2.1, (hvalue e he).2⟩) hne]
      exact h.filterMap fun e he =>
        ⟨(hkey e he).1, (hkey e he).2.1, (hkey e he).2.2.2, (hvalue e he).1⟩
  rw [parseExtraAttributes_eq, Option.getD_some, hentries]
  exact hlists.foldl_emplace

/-! ## The parser is exact -/

/-- For every text the map sends a key to the value of the first segment with that key; and a map
that can be written out is read back, however it was written. -/
theorem parseExtraAttributes_exact :
    (∀ (rawAttrs : Option (List UInt8)) (key value : List UInt8),
      (parseExtraAttributes rawAttrs).get key = some value ↔
        key ≠ [] ∧ FirstPair (segments (rawAttrs.getD [])) key value) ∧
    (∀ (attrs : ExtraAttrs) (entries : List (List UInt8 × List UInt8)) (segs : List (List UInt8)),
      Renderable attrs → Lists attrs entries → Renders entries segs →
        parseExtraAttributes (some (joined segs)) = attrs) :=
  ⟨get_parseExtraAttributes, fun _ _ _ => parseExtraAttributes_renders⟩

/-- The setting ` env : a:b;;region:` is a map of two entries. -/
theorem parseExtraAttributes_exact_two :
    parseExtraAttributes (some (ascii " env : a:b;;region:")) =
      (FinTable.empty.set (ascii "env") (ascii "a:b")).set (ascii "region") [] := by
  have hget (k v : List UInt8) : ((FinTable.empty.set (ascii "env") (ascii "a:b")).set
      (ascii "region") []).get k = some v ↔
      k = ascii "region" ∧ v = [] ∨ k = ascii "env" ∧ v = ascii "a:b" := by
    have hne : ascii "env" ≠ ascii "region" := by decide
    rw [FinTable.get_set, FinTable.get_set, FinTable.get_empty]
    split
    · next hk => simp [hk, hne.symm, eq_comm]
    · next hk =>
      split
      · next hk' => simp [hk', hne, eq_comm]
      · next hk' => simp [hk, hk']
  have hrenders : Renders [(ascii "env", ascii "a:b"), (ascii "region", [])]
      [ascii " env : a:b", [], ascii "region:"] :=
    .entry _ _ (ascii " ") (ascii " ") (ascii " ") [] (by decide) (by decide) (by decide)
      (by decide) (.stray (by decide)
        (.entry _ _ [] [] [] [] (by decide) (by decide) (by decide) (by decide) .nil))
  refine parseExtraAttributes_exact.2 _ _ _ ⟨?_, ?_⟩ ⟨by decide, ?_⟩ hrenders
  · intro k v h
    rcases (hget k v).mp h with ⟨rfl, -⟩ | ⟨rfl, -⟩ <;> decide
  · intro k v h
    rcases (hget k v).mp h with ⟨-, rfl⟩ | ⟨-, rfl⟩ <;> decide
  · intro k v
    rw [hget]
    simp [or_comm]

end PgStatCh
