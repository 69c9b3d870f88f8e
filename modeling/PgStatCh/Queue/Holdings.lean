import PgStatCh.Queue.Resources
import PgStatCh.Queue.Slot

/-!
# Queue.Holdings — what each program holds of the string area, step by step

For each of the small programs of `Intern` and `Slot`: what it holds at each of
its steps (`res`), and the data it relies on (`Ok`). The results are one lemma
per program. From `MemInv` for what the program holds and an arbitrary rest `F`,
a step leads to `MemInv` for what the program then holds and the same rest.
-/

namespace PgStatCh

open Lib

variable {cfg : Config} {hash : List UInt8 → UInt64} {key : PschQueryInternKey}
  {text : List UInt8} {m m' : Mem} {F : Multiset Res}

/-! ## Acquiring a reference -/

/-- The reference a pointer stands for, if it is valid. -/
def refRes (key : PschQueryInternKey) (text : List UInt8) (p : DsaPointer) : Multiset Res :=
  if p = invalidDsaPointer then 0 else {.ref p key text}

@[simp] theorem refRes_invalid : refRes key text invalidDsaPointer = 0 := by
  simp [refRes]

theorem refRes_valid {p : DsaPointer} (hp : p ≠ invalidDsaPointer) :
    refRes key text p = {.ref p key text} := by
  simp [refRes, hp]

/-- What `PschQueryInternAcquire` holds. -/
def AcquirePc.res (key : PschQueryInternKey) (text : List UInt8) : AcquirePc → Multiset Res
  | .lookup => 0
  | .returnHit p => {.ref p key text}
  | .allocObject => 0
  | .enter p => {.obj p key text}
  | .backOut p result => {.obj p key text} + refRes key text result
  | .done result => refRes key text result

/-- What was found under the key was made for the key. -/
def SameKey (hash : List UInt8 → UInt64) (key : PschQueryInternKey) (met : List Met) : Prop :=
  ∀ x ∈ met, ∀ other, x.live = some other → KeyFits hash key other

/-- What `PschQueryInternAcquire` knows: it returns no reference exactly if it has met
something for which the text is lost. -/
def AcquirePc.Ok (text : List UInt8) (met : List Met) : AcquirePc → Prop
  | .lookup => ¬ LostBy text met
  | .returnHit p => p ≠ invalidDsaPointer ∧ ¬ LostBy text met
  | .allocObject => ¬ LostBy text met
  | .enter _ => ¬ LostBy text met
  | .backOut _ result => LostBy text met ↔ result = invalidDsaPointer
  | .done result => LostBy text met ↔ result = invalidDsaPointer

theorem not_lostBy_nil : ¬ LostBy text [] := by simp [LostBy]

theorem lostBy_concat {met : List Met} {x : Met} (h : ¬ LostBy text met) :
    LostBy text (met ++ [x]) ↔ x.Loses text := by
  constructor
  · rintro ⟨y, hy, hloses⟩
    rcases List.mem_append.mp hy with hy | hy
    · exact absurd ⟨y, hy, hloses⟩ h
    · rwa [List.mem_singleton.mp hy] at hloses
  · exact fun hloses => ⟨x, by simp, hloses⟩

theorem SameKey.concat {met : List Met} {x : Met} (h : SameKey hash key met)
    (hx : ∀ other, x.live = some other → KeyFits hash key other) :
    SameKey hash key (met ++ [x]) := by
  intro y hy
  rcases List.mem_append.mp hy with hy | hy
  · exact h y hy
  · rw [List.mem_singleton.mp hy]
    exact hx

/-- Under the key is a text of the key's. It is the one that is looked for, and one more
reference is taken, or another one, and nothing happens. -/
theorem takeRef_spec {H : Multiset Res} (h : MemInv hash m H) (hfit : KeyFits hash key text)
    {entry : PschQueryInternEntry} (hget : m.table.get key = some entry)
    (hroom : refs H + 1 < 2 ^ 32) (hit : DsaPointer → AcquirePc) (miss : AcquirePc) :
    ∃ t, m.liveText key = some t ∧ KeyFits hash key t ∧
      ((t = text ∧ ∃ m', takeRef m key text entry hit miss = (m', hit entry.object) ∧
          MemInv hash m' (.ref entry.object key text ::ₘ H) ∧
          entry.object ≠ invalidDsaPointer) ∨
        t ≠ text ∧ takeRef m key text entry hit miss = (m, miss)) := by
  obtain ⟨t, ht, hb, -, -⟩ := h.entry key entry hget
  have hobj : m.object? entry.object = some (internObject key t) := Mem.object?_of_body hb
  have hlive : m.liveText key = some t := by
    have htake : (internObject key t).query.take key.queryLen.toNat = t := by
      rw [ht.2, internObject, List.take_left]
    rw [Mem.liveText, hget, Option.map_some, hobj]
    exact congrArg some htake
  refine ⟨t, hlive, ht, ?_⟩
  by_cases heq : t = text
  · subst heq
    left
    refine ⟨rfl, _, ?_, h.take hget ht hb ?_, ?_⟩
    · simp [takeRef, hobj, (objectMatches_internObject ht ht).mpr rfl]
    · have hle := h.refcount_le hget
      omega
    · rintro hnull
      rw [hnull, h.null] at hb
      cases hb
  · right
    have hmatch : objectMatches (internObject key t) text = false := by
      rw [Bool.eq_false_iff]
      exact fun hm => heq ((objectMatches_internObject ht hfit).mp hm)
    refine ⟨heq, ?_⟩
    simp [takeRef, hobj, hmatch]

/-- One step of `PschQueryInternAcquire`. -/
theorem acquireStep_inv {a : Answer} {pc pc' : AcquirePc} {met : List Met}
    (hstep : acquireStep cfg key text m a pc = some (m', pc'))
    (hfit : KeyFits cfg.hash key text) (hok : pc.Ok text met)
    (hkey : SameKey cfg.hash key met) (h : MemInv cfg.hash m (pc.res key text + F))
    (hroom : refs (pc.res key text + F) + 1 < 2 ^ 32) :
    MemInv cfg.hash m' (pc'.res key text + F) ∧ pc'.Ok text (met ++ pc.meets m key a) ∧
      SameKey cfg.hash key (met ++ pc.meets m key a) := by
  cases pc with
  | lookup =>
    simp only [acquireStep] at hstep
    split at hstep
    · next hget =>
      cases hstep
      have hlive := Mem.liveText_eq_none.mpr hget
      refine ⟨h, fun hlost => ?_, hkey.concat fun other hother => ?_⟩
      · have hcollides := (lostBy_concat hok).mp hlost
        rw [hlive] at hcollides
        exact hcollides
      · rw [Met.live, hlive] at hother
        cases hother
    · next entry hget =>
      obtain ⟨t, hlive, ht, hcase⟩ :=
        takeRef_spec h hfit hget hroom .returnHit (.done invalidDsaPointer)
      have hkey' := hkey.concat (x := .lookup (m.liveText key)) fun other hother => by
        rw [Met.live, hlive] at hother
        exact Option.some_inj.mp hother ▸ ht
      have hlost := lostBy_concat hok (x := .lookup (m.liveText key))
      rw [Met.Loses, hlive] at hlost
      rcases hcase with ⟨rfl, m₁, htake, hinv, hne⟩ | ⟨hne, htake⟩
      · rw [htake] at hstep
        cases hstep
        refine ⟨by simpa [AcquirePc.res] using hinv, ⟨hne, fun hl => ?_⟩, hkey'⟩
        rw [AcquirePc.meets, hlive] at hl
        exact hlost.mp hl rfl
      · rw [htake] at hstep
        cases hstep
        refine ⟨by simpa [AcquirePc.res] using h, ?_, hkey'⟩
        rw [AcquirePc.meets, hlive]
        exact iff_of_true (hlost.mpr hne) rfl
  | returnHit p =>
    -- the reference keeps the entry in place until its object is read
    obtain ⟨entry, hget, hobj⟩ := h.ref_entry p key text (by simp [AcquirePc.res])
    simp only [acquireStep, hget, Option.some.injEq, Prod.mk.injEq] at hstep
    obtain ⟨rfl, rfl⟩ := hstep
    subst hobj
    rw [AcquirePc.meets, List.append_nil]
    refine ⟨?_, iff_of_false hok.2 hok.1, hkey⟩
    rw [AcquirePc.res, refRes_valid hok.1]
    exact h
  | allocObject =>
    simp only [acquireStep, Option.map_eq_some_iff, Prod.exists, Prod.mk.injEq] at hstep
    obtain ⟨m₁, p, halloc, rfl, rfl⟩ := hstep
    have hkey' := hkey.concat (x := .alloc a.block) fun other hother => by cases hother
    have hlost : LostBy text (met ++ [.alloc a.block]) ↔ a.block = none := lostBy_concat hok
    rcases h.dsaAllocate (fun q => .obj q key text) (fun q => ⟨trivial, rfl, rfl⟩) halloc with
      ⟨rfl, hblock, hinv⟩ | ⟨hne, hblock, hinv⟩
    · rw [if_pos rfl]
      exact ⟨by simpa [AcquirePc.res] using hinv, iff_of_true (hlost.mpr hblock) rfl, hkey'⟩
    · rw [if_neg hne]
      exact ⟨by simpa [AcquirePc.res] using hinv, fun hl => hblock (hlost.mp hl), hkey'⟩
  | enter newDp =>
    simp only [acquireStep] at hstep
    have hlost : LostBy text (met ++ [.enter (m.liveText key) a.tableFull]) ↔
        Collides text (m.liveText key) ∨ m.liveText key = none ∧ a.tableFull = true :=
      lostBy_concat hok
    split at hstep
    · next entry hget =>
      obtain ⟨t, hlive, ht, hcase⟩ :=
        takeRef_spec h hfit hget hroom (.backOut newDp) (.backOut newDp invalidDsaPointer)
      have hkey' := hkey.concat (x := .enter (m.liveText key) a.tableFull) fun other hother => by
        rw [Met.live, hlive] at hother
        exact Option.some_inj.mp hother ▸ ht
      have hcollides : LostBy text (met ++ [.enter (m.liveText key) a.tableFull]) ↔ t ≠ text := by
        rw [hlost, hlive]
        simp [Collides]
      rcases hcase with ⟨rfl, m₁, htake, hinv, hne⟩ | ⟨hne, htake⟩
      · rw [htake] at hstep
        cases hstep
        refine ⟨?_, iff_of_false (fun hl => hcollides.mp hl rfl) hne, hkey'⟩
        rw [AcquirePc.res, refRes_valid hne, add_comm {Res.obj newDp key t}, add_assoc]
        exact hinv
      · rw [htake] at hstep
        cases hstep
        exact ⟨by simpa [AcquirePc.res] using h, iff_of_true (hcollides.mpr hne) rfl, hkey'⟩
    · next hget =>
      have hlive := Mem.liveText_eq_none.mpr hget
      have hkey' := hkey.concat (x := .enter (m.liveText key) a.tableFull) fun other hother => by
        rw [Met.live, hlive] at hother
        cases hother
      have hfull : LostBy text (met ++ [.enter (m.liveText key) a.tableFull]) ↔
          a.tableFull = true := by
        rw [hlost, hlive]
        simp [Collides]
      split at hstep
      · next hanswer =>
        split at hstep
        · cases hstep
          exact ⟨by simpa [AcquirePc.res] using h, iff_of_true (hfull.mpr hanswer) rfl, hkey'⟩
        · cases hstep
      · next hanswer =>
        cases hstep
        have hb := h.held (.obj newDp key text) (by simp [AcquirePc.res])
        have hne : newDp ≠ invalidDsaPointer := h.ne_null hb
        refine ⟨?_, iff_of_false (fun hl => hanswer (hfull.mp hl)) hne, hkey'⟩
        rw [AcquirePc.res, refRes_valid hne]
        exact h.enter hfit hget
  | backOut newDp result =>
    simp only [acquireStep, Option.some.injEq, Prod.mk.injEq] at hstep
    obtain ⟨rfl, rfl⟩ := hstep
    rw [AcquirePc.res, Multiset.singleton_add, Multiset.cons_add] at h
    rw [AcquirePc.meets, List.append_nil]
    exact ⟨h.free trivial, hok, hkey⟩
  | done result => simp [acquireStep] at hstep

/-! ## Releasing a reference -/

/-- What `ReleaseRef(ref)` holds. -/
def ReleasePc.res (key : PschQueryInternKey) (text : List UInt8) (ref : DsaPointer) :
    ReleasePc → Multiset Res
  | .read => refRes key text ref
  | .drop _ => {.ref ref key text}
  | .free p => {.obj p key text}
  | .done => 0

/-- What `ReleaseRef(ref)` knows. -/
def ReleasePc.Ok (key : PschQueryInternKey) : ReleasePc → Prop
  | .read => True
  | .drop k => k = key
  | .free _ => True
  | .done => True

/-- One step of `ReleaseRef`. -/
theorem releaseStep_inv {ref : DsaPointer} {pc pc' : ReleasePc}
    (hstep : releaseStep m ref pc = some (m', pc')) (hok : pc.Ok key)
    (h : MemInv hash m (pc.res key text ref + F)) :
    MemInv hash m' (pc'.res key text ref + F) ∧ pc'.Ok key := by
  cases pc with
  | read =>
    simp only [releaseStep] at hstep
    split at hstep
    · next hinvalid =>
      cases hstep
      subst hinvalid
      exact ⟨h, trivial⟩
    · next hvalid =>
      rw [ReleasePc.res, refRes_valid hvalid] at h
      have hb := h.held (.ref ref key text) (by simp)
      have hobj : m.object? ref = some (internObject key text) := Mem.object?_of_body hb
      simp only [hobj, internObject, ne_eq, not_true, if_false, Option.some.injEq,
        Prod.mk.injEq] at hstep
      obtain ⟨rfl, rfl⟩ := hstep
      exact ⟨h, rfl⟩
  | drop k =>
    obtain rfl : k = key := hok
    obtain ⟨entry, hget, rfl⟩ := h.ref_entry ref k text (by simp [ReleasePc.res])
    rw [ReleasePc.res, Multiset.singleton_add] at h
    simp only [releaseStep, hget, if_true] at hstep
    split at hstep
    · next hlast =>
      cases hstep
      exact ⟨h.dropLast hget hlast, trivial⟩
    · next hmore =>
      cases hstep
      exact ⟨by simpa [ReleasePc.res] using h.drop hget hmore, trivial⟩
  | free p =>
    simp only [releaseStep, Option.some.injEq, Prod.mk.injEq] at hstep
    obtain ⟨rfl, rfl⟩ := hstep
    rw [ReleasePc.res, Multiset.singleton_add] at h
    refine ⟨?_, trivial⟩
    rw [ReleasePc.res, zero_add]
    exact h.free trivial
  | done => simp [releaseStep] at hstep

/-! ## Filling a slot -/

/-- The error text a slot owns. -/
def errRes (e : PschEvent) (slot : PschRingEntry) : Multiset Res :=
  if slot.errMessageDsa = invalidDsaPointer then 0
  else {.str slot.errMessageDsa (e.errText ++ [0])}

/-- The reference to a query text that a slot holds. -/
def queryRes (hash : List UInt8 → UInt64) (e : PschEvent) (slot : PschRingEntry) : Multiset Res :=
  refRes (e.internKey hash) e.queryText slot.queryDsa

/-- What a producer holds while it fills the slot. -/
def BuildPc.res (hash : List UInt8 → UInt64) (e : PschEvent) (slot : PschRingEntry) :
    BuildPc → Multiset Res
  | .copyPrefix => 0
  | .allocErr => 0
  | .query _ => errRes e slot
  | .acquire _ _ pc => pc.res (e.internKey hash) e.queryText + errRes e slot
  | .ready _ _ => queryRes hash e slot + errRes e slot

/-- The slot has the error text, unless there is none or there was no block for it. -/
structure ErrStored (e : PschEvent) (slot : PschRingEntry) (errBlock : Option DsaPointer) : Prop where
  lost : e.errMessageLen = 0 ∨ errBlock = none → slot.errMessageDsa = invalidDsaPointer
  kept : ¬ (e.errMessageLen = 0 ∨ errBlock = none) →
    slot.errMessageDsa ≠ invalidDsaPointer ∧ slot.errMessageLen = e.errMessageLen

/-- The slot has a reference to the query text, unless there is none or it was lost. -/
structure QueryStored (hash : List UInt8 → UInt64) (e : PschEvent) (slot : PschRingEntry)
    (met : List Met) : Prop where
  lost : e.queryLen = 0 ∨ LostBy e.queryText met ↔ slot.queryDsa = invalidDsaPointer
  sameKey : SameKey hash (e.internKey hash) met

/-- A slot that is filled with its event. -/
structure Stored (hash : List UInt8 → UInt64) (pub : Published) : Prop where
  fixed : pub.slot.fixed = pub.event.fixed
  err : ErrStored pub.event pub.slot pub.errBlock
  query : QueryStored hash pub.event pub.slot pub.met

/-- What a filled slot holds. -/
def Published.res (hash : List UInt8 → UInt64) (pub : Published) : Multiset Res :=
  queryRes hash pub.event pub.slot + errRes pub.event pub.slot

/-- What a producer has written so far. -/
def BuildPc.Ok (hash : List UInt8 → UInt64) (e : PschEvent) (slot : PschRingEntry) :
    BuildPc → Prop
  | .copyPrefix => True
  | .allocErr => slot.fixed = e.fixed ∧ slot.errMessageLen = e.errMessageLen
  | .query errBlock => slot.fixed = e.fixed ∧ ErrStored e slot errBlock
  | .acquire errBlock met pc => slot.fixed = e.fixed ∧ ErrStored e slot errBlock ∧
    e.queryLen ≠ 0 ∧ pc.Ok e.queryText met ∧ SameKey hash (e.internKey hash) met
  | .ready errBlock met => Stored hash ⟨e, slot, errBlock, met⟩

theorem PschEvent.internKey_fits (e : PschEvent) (hash : List UInt8 → UInt64) :
    KeyFits hash (e.internKey hash) e.queryText := by
  apply makeKey_fits
  have hlt : clampLen e.queryLen pschMaxQueryLen < pschMaxQueryLen := clampLen_lt (by decide)
  rw [PschEvent.queryText_length]
  exact lt_trans hlt (by decide)

/-- The allocation of the error text. -/
theorem allocErr_inv {a : Answer} {e : PschEvent} {dp : DsaPointer}
    (halloc : pschDsaAllocString m e.errMessage e.errMessageLen pschMaxErrMsgLen a
      = some (m', dp)) (h : MemInv hash m F) :
    (e.errMessageLen = 0 ∨ a.block = none) ∧ dp = invalidDsaPointer ∧ MemInv hash m' F ∨
    ¬ (e.errMessageLen = 0 ∨ a.block = none) ∧ dp ≠ invalidDsaPointer ∧
      MemInv hash m' (.str dp (e.errText ++ [0]) ::ₘ F) := by
  unfold pschDsaAllocString at halloc
  split at halloc
  · next hzero =>
    cases halloc
    exact Or.inl ⟨Or.inl hzero, rfl, h⟩
  · next hlen =>
    rcases h.dsaAllocate (fun q => .str q (e.errText ++ [0])) (fun q => ⟨trivial, rfl, rfl⟩)
      halloc with ⟨hdp, hblock, hinv⟩ | ⟨hdp, hblock, hinv⟩
    · exact Or.inl ⟨Or.inr hblock, hdp, hinv⟩
    · exact Or.inr ⟨not_or.mpr ⟨hlen, hblock⟩, hdp, hinv⟩

/-- One step of filling a slot. -/
theorem buildStep_inv {a : Answer} {e : PschEvent} {slot slot' : PschRingEntry}
    {pc pc' : BuildPc} (hstep : buildStep cfg e a m slot pc = some (m', slot', pc'))
    (hok : pc.Ok cfg.hash e slot) (h : MemInv cfg.hash m (pc.res cfg.hash e slot + F))
    (hroom : refs (pc.res cfg.hash e slot + F) + 1 < 2 ^ 32) :
    MemInv cfg.hash m' (pc'.res cfg.hash e slot' + F) ∧ pc'.Ok cfg.hash e slot' := by
  cases pc with
  | copyPrefix =>
    cases hstep
    exact ⟨h, rfl, rfl⟩
  | allocErr =>
    simp only [buildStep, Option.map_eq_some_iff, Prod.exists] at hstep
    obtain ⟨m₁, dp, halloc, hstep⟩ := hstep
    rw [BuildPc.res, zero_add] at h
    obtain ⟨hfixed, hlen⟩ := hok
    -- no message and no block for it, or a copy of the message
    rcases allocErr_inv halloc h with ⟨hlost, rfl, hinv⟩ | ⟨hkept, hdp, hinv⟩
    · split at hstep <;> cases hstep <;>
        exact ⟨by simpa [BuildPc.res, errRes] using hinv, hfixed, fun _ => rfl,
          fun hkept => absurd hlost hkept⟩
    · rw [if_neg (by simp [hdp])] at hstep
      cases hstep
      exact ⟨by simpa [BuildPc.res, errRes, hdp] using hinv, hfixed,
        fun hlost => absurd hlost hkept, fun _ => ⟨hdp, hlen⟩⟩
  | query errBlock =>
    simp only [buildStep] at hstep
    split at hstep
    · next hpos =>
      cases hstep
      refine ⟨by simpa [BuildPc.res, AcquirePc.res] using h, hok.1, hok.2, ?_, not_lostBy_nil,
        nofun⟩
      rintro hzero
      simp [hzero] at hpos
    · next hzero =>
      cases hstep
      have hlen : e.queryLen = 0 := by simpa [UInt16.pos_iff_ne_zero] using hzero
      refine ⟨by simpa [BuildPc.res, queryRes, errRes] using h, hok.1, ⟨hok.2.lost, hok.2.kept⟩, ?_⟩
      exact ⟨iff_of_true (Or.inl hlen) rfl, nofun⟩
  | acquire errBlock met pc =>
    obtain ⟨hfixed, herr, hlen, hacq, hkey⟩ := hok
    rw [BuildPc.res, add_assoc] at h hroom
    -- either the interner has settled the text, or it takes one more step of its own
    by_cases hdone : ∃ dp, pc = .done dp
    · obtain ⟨dp, rfl⟩ := hdone
      have hstored : e.queryLen = 0 ∨ LostBy e.queryText met ↔ dp = invalidDsaPointer :=
        (or_iff_right hlen).trans hacq
      simp only [buildStep] at hstep
      split at hstep <;> cases hstep <;>
        exact ⟨by simpa [BuildPc.res, queryRes, errRes, AcquirePc.res, add_assoc] using h,
          hfixed, ⟨herr.lost, herr.kept⟩, hstored, hkey⟩
    · have hstep' : (acquireStep cfg (e.internKey cfg.hash) e.queryText m a pc).map
          (fun x => (x.1, slot, BuildPc.acquire errBlock
            (met ++ pc.meets m (e.internKey cfg.hash) a) x.2)) = some (m', slot', pc') := by
        cases pc with
        | done dp => exact absurd ⟨dp, rfl⟩ hdone
        | _ => exact hstep
      simp only [Option.map_eq_some_iff, Prod.exists, Prod.mk.injEq] at hstep'
      obtain ⟨m₁, pc₁, hacqStep, rfl, rfl, rfl⟩ := hstep'
      obtain ⟨hinv, hok₁, hkey₁⟩ := acquireStep_inv hacqStep (e.internKey_fits _) hacq hkey h hroom
      exact ⟨by rw [BuildPc.res, add_assoc]; exact hinv, hfixed, herr, hlen, hok₁, hkey₁⟩
  | ready errBlock met => simp [buildStep] at hstep

/-! ## Reading a slot back -/

/-- What the consumer, and the slot it reads, hold. -/
def ConsumePc.res (hash : List UInt8 → UInt64) (pub : Published) : ConsumePc → Multiset Res
  | .copyPrefix => pub.res hash
  | .resolveErr => pub.res hash
  | .freeErr => pub.res hash
  | .resolveQuery => queryRes hash pub.event pub.slot
  | .release pc => pc.res (pub.event.internKey hash) pub.event.queryText pub.slot.queryDsa

/-- What the consumer has copied so far. -/
def ConsumePc.Ok (hash : List UInt8 → UInt64) (pub : Published) (out : PschEvent) :
    ConsumePc → Prop
  | .copyPrefix => True
  | .resolveErr => out.fixed = pub.event.fixed
  | .freeErr => out.fixed = pub.event.fixed ∧ pub.slot.errMessageDsa ≠ invalidDsaPointer ∧
    TextOut pub.event.errText pub.ErrLost out.errMessageLen out.errMessage
  | .resolveQuery => out.fixed = pub.event.fixed ∧
    TextOut pub.event.errText pub.ErrLost out.errMessageLen out.errMessage
  | .release pc => RoundTrip hash pub out ∧ pc.Ok (pub.event.internKey hash)

/-- A text that fits, copied and terminated. -/
theorem textOut_kept {n : ℕ} (buf : CharBuf n) {text : List UInt8} {lost : Prop} (hkept : ¬ lost)
    (hn : text.length < n) (h16 : text.length < 2 ^ 16) :
    TextOut text lost (UInt16.ofNat text.length)
      ((buf.write text).terminate text.length) := by
  have hlen : (UInt16.ofNat text.length).toNat = text.length := by
    rw [UInt16.toNat_ofNat']
    exact Nat.mod_eq_of_lt h16
  refine ⟨fun hlost => absurd hlost hkept, fun _ => ⟨hlen, ?_⟩, ?_⟩
  · exact CharBuf.bytes_write_terminate buf (le_of_lt hn)
  · rw [hlen]
    exact CharBuf.byteAt_terminate_self _ _

/-- An empty output. -/
theorem textOut_lost {n : ℕ} (buf : CharBuf n) {text : List UInt8} {lost : Prop}
    (hlost : lost) : TextOut text lost 0 (buf.terminate 0) :=
  ⟨fun _ => rfl, fun hkept => absurd hlost hkept, CharBuf.byteAt_terminate_self _ _⟩

/-- `PschDsaResolveString` copies the stored text. -/
theorem resolveErr_inv {pub : Published} {out : PschEvent} (hst : Stored hash pub)
    (hfixed : out.fixed = pub.event.fixed) (h : MemInv hash m (pub.res hash + F)) :
    ∃ out' pc', resolveErr m pub.slot out = (m, out', pc') ∧
      MemInv hash m (pc'.res hash pub + F) ∧ pc'.Ok hash pub out' := by
  unfold resolveErr
  by_cases hlost : pub.ErrLost
  · have hdp := hst.err.lost hlost
    simp only [if_pos hdp]
    refine ⟨_, _, rfl, ?_, hfixed, textOut_lost _ hlost⟩
    simpa [Published.res, errRes, hdp, ConsumePc.res] using h
  · obtain ⟨hdp, hlen⟩ := hst.err.kept hlost
    have hb := h.held (.str pub.slot.errMessageDsa (pub.event.errText ++ [0]))
      (by simp [Published.res, errRes, hdp])
    have htext : clampLen pub.slot.errMessageLen pschMaxErrMsgLen = pub.event.errText.length := by
      rw [hlen, PschEvent.errText_length]
    have hlt : pub.event.errText.length < pschMaxErrMsgLen := by
      rw [PschEvent.errText_length]
      exact clampLen_lt (by decide)
    simp only [Res.ptr, Res.body] at hb
    simp only [if_neg hdp, hb, htext, List.length_append, Nat.le_add_right, if_true,
      List.take_left]
    exact ⟨_, _, rfl, h, hfixed, hdp, textOut_kept _ hlost hlt (lt_trans hlt (by decide))⟩

/-- `ResolveInto` copies the interned text. -/
theorem resolveInto_inv {pub : Published} (out : PschEvent) (hst : Stored hash pub)
    (h : MemInv hash m (queryRes hash pub.event pub.slot + F)) :
    ∃ out', resolveInto m pub.slot.queryDsa
        { out with queryLen := 0, query := out.query.terminate 0 } = (m, out') ∧
      out'.fixed = out.fixed ∧ out'.errMessageLen = out.errMessageLen ∧
      out'.errMessage = out.errMessage ∧
      TextOut pub.event.queryText pub.QueryLost out'.queryLen out'.query := by
  unfold resolveInto
  by_cases hdp : pub.slot.queryDsa = invalidDsaPointer
  · simp only [if_pos hdp]
    exact ⟨_, rfl, rfl, rfl, rfl, textOut_lost _ (hst.query.lost.mpr hdp)⟩
  · have hb := h.held (.ref pub.slot.queryDsa (pub.event.internKey hash) pub.event.queryText)
      (by simp [queryRes, refRes_valid hdp])
    have hobj := Mem.object?_of_body hb
    have hfit := pub.event.internKey_fits hash
    have hlt : pub.event.queryText.length < pschMaxQueryLen := by
      rw [PschEvent.queryText_length]
      exact clampLen_lt (by decide)
    have hlen : clampLen (pub.event.internKey hash).queryLen pschMaxQueryLen
        = pub.event.queryText.length := by
      rw [clampLen, hfit.2]
      exact Nat.min_eq_left (Nat.le_sub_one_of_lt hlt)
    simp only [Res.ptr] at hobj
    simp only [if_neg hdp, hobj, internObject, ne_eq, not_true, if_false, hlen,
      List.length_append, Nat.le_add_right, if_true, List.take_left]
    have hkept : ¬ pub.QueryLost := fun hlost => hdp (hst.query.lost.mp hlost)
    exact ⟨_, rfl, rfl, rfl, rfl, textOut_kept _ hkept hlt (lt_trans hlt (by decide))⟩

/-- One step of reading a slot. -/
theorem consumeStep_inv {pub : Published} {out out' : PschEvent} {pc pc' : ConsumePc}
    (hstep : consumeStep m pub.slot out pc = some (m', out', pc')) (hst : Stored hash pub)
    (hok : pc.Ok hash pub out) (h : MemInv hash m (pc.res hash pub + F)) :
    MemInv hash m' (pc'.res hash pub + F) ∧ pc'.Ok hash pub out' := by
  cases pc with
  | copyPrefix =>
    cases hstep
    exact ⟨h, hst.fixed⟩
  | resolveErr =>
    obtain ⟨out₁, pc₁, heq, hinv, hok₁⟩ := resolveErr_inv hst hok h
    simp only [consumeStep, heq, Option.some.injEq, Prod.mk.injEq] at hstep
    obtain ⟨rfl, rfl, rfl⟩ := hstep
    exact ⟨hinv, hok₁⟩
  | freeErr =>
    cases hstep
    obtain ⟨hfixed, hdp, herr⟩ := hok
    refine ⟨?_, hfixed, herr⟩
    rw [ConsumePc.res, Published.res, errRes, if_neg hdp, add_comm (queryRes _ _ _),
      Multiset.singleton_add, Multiset.cons_add] at h
    exact h.free trivial
  | resolveQuery =>
    obtain ⟨hfixed, herr⟩ := hok
    obtain ⟨out₁, heq, hfixed₁, hlen₁, hbuf₁, hquery⟩ := resolveInto_inv out hst h
    simp only [consumeStep, heq, Option.some.injEq, Prod.mk.injEq] at hstep
    obtain ⟨rfl, rfl, rfl⟩ := hstep
    refine ⟨h, ⟨hfixed₁.trans hfixed, ?_, hquery, hst.query.sameKey⟩, trivial⟩
    rw [hlen₁, hbuf₁]
    exact herr
  | release pc =>
    obtain ⟨htrip, hrel⟩ := hok
    have hstep' : (releaseStep m pub.slot.queryDsa pc).map
        (fun x => (x.1, out, ConsumePc.release x.2)) = some (m', out', pc') := by
      cases pc with
      | done => simp [consumeStep] at hstep
      | _ => exact hstep
    simp only [Option.map_eq_some_iff, Prod.exists, Prod.mk.injEq] at hstep'
    obtain ⟨m₁, pc₁, hrelStep, rfl, rfl, rfl⟩ := hstep'
    obtain ⟨hinv, hok₁⟩ := releaseStep_inv hrelStep hrel h
    exact ⟨hinv, htrip, hok₁⟩

/-! ## What a step frees -/

/-- Nothing was freed, or one block whose owner is among `H`. -/
def FreesOwn (m m' : Mem) (H : Multiset Res) : Prop :=
  m'.dsa.freed = m.dsa.freed ∨
    ∃ r ∈ H, r.Sole ∧ ∃ c, m.dsa.live r.ptr = some c ∧ m'.dsa.freed = c.serial :: m.dsa.freed

theorem FreesOwn.mono_left {H H' : Multiset Res} (h : FreesOwn m m' H) : FreesOwn m m' (H + H') :=
  h.imp_right fun ⟨r, hr, hrest⟩ => ⟨r, Multiset.mem_add.mpr (Or.inl hr), hrest⟩

theorem dsaFree_freesOwn {H : Multiset Res} {r : Res} (hr : r ∈ H) (hs : r.Sole) :
    FreesOwn m (m.dsaFree r.ptr) H := by
  unfold Mem.dsaFree
  split
  · exact (m.dsa.free_freed r.ptr).imp_right fun hfreed => ⟨r, hr, hs, hfreed⟩
  · exact Or.inl rfl

theorem dsaAllocate_freed {b : Body} {answer : Option DsaPointer} {p : DsaPointer}
    (h : m.dsaAllocate b answer = some (m', p)) : m'.dsa.freed = m.dsa.freed := by
  cases answer with
  | none =>
    cases h
    rfl
  | some q =>
    simp only [Mem.dsaAllocate] at h
    split at h
    · cases h
      rfl
    · cases h

theorem takeRef_freed (m : Mem) (key : PschQueryInternKey) (text : List UInt8)
    (entry : PschQueryInternEntry) (hit : DsaPointer → AcquirePc) (miss : AcquirePc) :
    (takeRef m key text entry hit miss).1.dsa.freed = m.dsa.freed := by
  unfold takeRef
  split
  · rfl
  · split <;> rfl

theorem acquireStep_freesOwn {a : Answer} {pc pc' : AcquirePc}
    (hstep : acquireStep cfg key text m a pc = some (m', pc')) :
    FreesOwn m m' (pc.res key text) := by
  cases pc with
  | lookup =>
    left
    simp only [acquireStep] at hstep
    split at hstep
    · cases hstep
      rfl
    · next entry _ =>
      have h := takeRef_freed m key text entry .returnHit
        (.done invalidDsaPointer)
      rw [Option.some.inj hstep] at h
      exact h
  | returnHit p =>
    left
    simp only [acquireStep] at hstep
    split at hstep <;> cases hstep <;> rfl
  | allocObject =>
    left
    simp only [acquireStep, Option.map_eq_some_iff, Prod.exists, Prod.mk.injEq] at hstep
    obtain ⟨m₁, p, halloc, rfl, -⟩ := hstep
    exact dsaAllocate_freed halloc
  | enter newDp =>
    left
    simp only [acquireStep] at hstep
    split at hstep
    · next entry _ =>
      have h := takeRef_freed m key text entry
        (.backOut newDp) (.backOut newDp invalidDsaPointer)
      rw [Option.some.inj hstep] at h
      exact h
    · split at hstep
      · split at hstep
        · cases hstep
          rfl
        · cases hstep
      · cases hstep
        rfl
  | backOut newDp result =>
    cases hstep
    exact dsaFree_freesOwn (r := .obj newDp key text) (by simp [AcquirePc.res]) trivial
  | done result => simp [acquireStep] at hstep

theorem buildStep_freesOwn {a : Answer} {e : PschEvent} {slot slot' : PschRingEntry}
    {pc pc' : BuildPc} (hstep : buildStep cfg e a m slot pc = some (m', slot', pc')) :
    FreesOwn m m' (pc.res cfg.hash e slot) := by
  cases pc with
  | copyPrefix =>
    cases hstep
    exact Or.inl rfl
  | allocErr =>
    left
    simp only [buildStep, Option.map_eq_some_iff, Prod.exists] at hstep
    obtain ⟨m₁, dp, halloc, hstep⟩ := hstep
    have hm : m₁ = m' := by
      split at hstep <;> exact (Prod.mk.inj hstep).1
    subst hm
    unfold pschDsaAllocString at halloc
    split at halloc
    · cases halloc
      rfl
    · exact dsaAllocate_freed halloc
  | query errBlock =>
    left
    simp only [buildStep] at hstep
    split at hstep <;> cases hstep <;> rfl
  | acquire errBlock met pc =>
    cases pc with
    | done dp =>
      left
      simp only [buildStep] at hstep
      split at hstep <;> cases hstep <;> rfl
    | _ =>
      simp only [buildStep, Option.map_eq_some_iff, Prod.exists, Prod.mk.injEq] at hstep
      obtain ⟨m₁, pc₁, hacq, rfl, -, -⟩ := hstep
      exact (acquireStep_freesOwn hacq).mono_left
  | ready errBlock met => simp [buildStep] at hstep

theorem releaseStep_freesOwn {ref : DsaPointer} {pc pc' : ReleasePc}
    (hstep : releaseStep m ref pc = some (m', pc')) :
    FreesOwn m m' (pc.res key text ref) := by
  cases pc with
  | read =>
    left
    simp only [releaseStep] at hstep
    split at hstep
    · cases hstep
      rfl
    · split at hstep <;> cases hstep <;> rfl
  | drop k =>
    left
    simp only [releaseStep] at hstep
    split at hstep
    · cases hstep
      rfl
    · split at hstep
      · split at hstep <;> cases hstep <;> rfl
      · cases hstep
        rfl
  | free p =>
    cases hstep
    exact dsaFree_freesOwn (r := .obj p key text) (by simp [ReleasePc.res]) trivial
  | done => simp [releaseStep] at hstep

theorem resolveInto_freed (ref : DsaPointer) (event : PschEvent) :
    (resolveInto m ref event).1.dsa.freed = m.dsa.freed := by
  unfold resolveInto
  split
  · rfl
  · split
    · rfl
    · split
      · rfl
      · dsimp only
        split <;> rfl

theorem consumeStep_freesOwn {pub : Published} {out out' : PschEvent} {pc pc' : ConsumePc}
    (hstep : consumeStep m pub.slot out pc = some (m', out', pc'))
    (hok : pc.Ok hash pub out) : FreesOwn m m' (pc.res hash pub) := by
  cases pc with
  | copyPrefix =>
    cases hstep
    exact Or.inl rfl
  | resolveErr =>
    left
    simp only [consumeStep, resolveErr, Option.some.injEq] at hstep
    split at hstep
    · cases hstep
      rfl
    · split at hstep
      · split at hstep <;> cases hstep <;> rfl
      · cases hstep
        rfl
  | freeErr =>
    cases hstep
    exact dsaFree_freesOwn (r := .str pub.slot.errMessageDsa (pub.event.errText ++ [0]))
      (by simp [ConsumePc.res, Published.res, errRes, hok.2.1]) trivial
  | resolveQuery =>
    simp only [consumeStep, Option.some.injEq, Prod.mk.injEq] at hstep
    rw [← hstep.1]
    exact Or.inl (resolveInto_freed _ _)
  | release pc =>
    cases pc with
    | done => simp [consumeStep] at hstep
    | _ =>
      simp only [consumeStep, Option.map_eq_some_iff, Prod.exists, Prod.mk.injEq] at hstep
      obtain ⟨m₁, pc₁, hrel, rfl, -, -⟩ := hstep
      exact releaseStep_freesOwn hrel

/-! ## One reference at most -/

theorem refs_refRes_le (key : PschQueryInternKey) (text : List UInt8) (p : DsaPointer) :
    refs (refRes key text p) ≤ 1 := by
  unfold refRes
  split <;> simp

@[simp] theorem refs_errRes (e : PschEvent) (slot : PschRingEntry) : refs (errRes e slot) = 0 := by
  unfold errRes
  split <;> simp

theorem AcquirePc.refs_res_le (pc : AcquirePc) : refs (pc.res key text) ≤ 1 := by
  cases pc <;> simp [-Multiset.singleton_add, AcquirePc.res, refs_refRes_le]

theorem BuildPc.refs_res_le (hash : List UInt8 → UInt64) (pc : BuildPc) (e : PschEvent)
    (slot : PschRingEntry) :
    refs (pc.res hash e slot) ≤ 1 := by
  cases pc <;> simp [BuildPc.res, AcquirePc.refs_res_le, queryRes, refs_refRes_le]

theorem Published.refs_res_le (pub : Published) : refs (pub.res hash) ≤ 1 := by
  simp [Published.res, queryRes, refs_refRes_le]

theorem ReleasePc.refs_res_le (pc : ReleasePc) (ref : DsaPointer) :
    refs (pc.res key text ref) ≤ 1 := by
  cases pc <;> simp [ReleasePc.res, refs_refRes_le]

theorem ConsumePc.refs_res_le (pc : ConsumePc) (pub : Published) :
    refs (pc.res hash pub) ≤ 1 := by
  cases pc <;> simp [ConsumePc.res, Published.refs_res_le, queryRes, refs_refRes_le,
    ReleasePc.refs_res_le]

end PgStatCh
