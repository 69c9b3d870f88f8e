import PgStatCh.Export.Delivery

/-!
# Export.Calls — one call of `PschExportBatch` after the other

The calls of a worker are looked at in sequence here, whatever they find in the queue: what goes
wrong in them decides what becomes of the exporter's count of consecutive failures and of
`send_failures`. Those of a worker in a run of the whole system are such calls
(`System.exportState_calls`).

A call finds the queue empty, or exports its batch, which adds it to `exported`, or fails
(`Failed`); a call that an ERROR leaves fails, too. How it fails is a matter of the first thing
that goes wrong in it (`CallEnds`), in the opening or behind the dequeuing.
-/

namespace PgStatCh

open Lib Tla Prog StatsExporter

/-! ## A call -/

/-- A call of `PschExportBatch`: what it is answered before and after the dequeuing, and the
events it finds. -/
structure ExportCall where
  opening : Plan
  plan : Plan
  settings : Settings
  events : List PschEvent
  fits : events.length ≤ settings.batchMax

section Calls

variable {ε : Type} [StatsExporter ε]

def pschExportBatch (call : ExportCall) : ExportM ε ℕ := do
  if ← beginExport call.opening then
    modify fun s => { s with sent := 0 }
    exportEvents call.plan call.settings call.events
  else pure 0

/-- The state after a call. -/
def after (s : ExportState ε) (call : ExportCall) : ExportState ε :=
  (System.recovered 0 (pschExportBatch call s)).2

/-- The call adds its batch to `exported`, and records that as a success. -/
def Succeeded (s : ExportState ε) (call : ExportCall) : Prop :=
  (after s call).exported ≠ s.exported

instance (s : ExportState ε) (call : ExportCall) : Decidable (Succeeded s call) :=
  inferInstanceAs (Decidable (_ ≠ _))

/-- A batch is smaller than the counter's range. -/
theorem ExportCall.add_length_ne (call : ExportCall) (hevents : call.events ≠ []) (n : UInt64) :
    n + UInt64.ofNat call.events.length ≠ n := by
  have hpos := List.length_pos_iff.mpr hevents
  have hle := call.fits.trans call.settings.batchMax_range.2
  have hlt : call.events.length < UInt64.size := hle.trans_lt (by decide)
  intro h
  have hzero : UInt64.ofNat call.events.length = 0 := by simpa using h
  have hnat := congrArg UInt64.toNat hzero
  rw [UInt64.toNat_ofNat_of_lt' hlt] at hnat
  exact absurd hnat (by simpa using hpos.ne')

/-- `PschExportBatch` goes on from the dequeuing where its opening got that far. -/
theorem after_begun {call : ExportCall} {s s₁ s₂ : ExportState ε} {n : ℕ}
    (h : System.recovered false (beginExport call.opening s) = (true, s₁))
    (h' : System.recovered 0
      (exportEvents call.plan call.settings call.events { s₁ with sent := 0 }) = (n, s₂)) :
    after s call = s₂ := by
  have hbegin : beginExport call.opening s = .ok true s₁ := by
    cases hres : beginExport call.opening s with
    | ok b s' =>
      rw [hres] at h
      cases h
      rfl
    | error e s' =>
      rw [hres] at h
      cases h
  unfold after pschExportBatch
  simp only [bind, EStateM.bind, hbegin, if_true]
  exact congrArg Prod.snd h'

theorem after_notBegun {call : ExportCall} {s s₁ : ExportState ε}
    (h : System.recovered false (beginExport call.opening s) = (false, s₁)) :
    after s call = s₁ := by
  unfold after pschExportBatch
  simp only [bind, EStateM.bind]
  cases hres : beginExport call.opening s with
  | ok b s' =>
    rw [hres] at h
    cases h
    rfl
  | error e s' =>
    rw [hres] at h
    cases h
    rfl

/-! ## How it ends -/

variable [Scheduled ε]

/-- Nothing goes wrong before the dequeuing. -/
def Begun (s : ExportState ε) (call : ExportCall) : Prop :=
  call.opening.Served (openingAsks s.exporter)

instance (s : ExportState ε) (call : ExportCall) : Decidable (Begun s call) :=
  inferInstanceAs (Decidable (Plan.Served _ _))

/-- The way that its batch takes. -/
def ExportCall.way (s : ExportState ε) (call : ExportCall) : Route :=
  route (opened s.exporter) call.settings call.events

/-- The call finds the queue empty. -/
def FoundNothing (s : ExportState ε) (call : ExportCall) : Prop :=
  Begun s call ∧ call.events.length = 0

instance (s : ExportState ε) (call : ExportCall) : Decidable (FoundNothing s call) :=
  inferInstanceAs (Decidable (_ ∧ _))

/-- The call makes an attempt at exporting, which fails. -/
def Failed (s : ExportState ε) (call : ExportCall) : Prop :=
  ¬ FoundNothing s call ∧ ¬ Succeeded s call

instance (s : ExportState ε) (call : ExportCall) : Decidable (Failed s call) :=
  inferInstanceAs (Decidable (_ ∧ _))

/-- How a call can end. -/
inductive CallEnds (s : ExportState ε) (call : ExportCall) (s' : ExportState ε) : Prop where
  /-- before the dequeuing something goes wrong -/
  | notBegun (a : Ask) (hfault : call.opening.firstFault (openingAsks s.exporter) = some a)
      (hexported : s'.exported = s.exported) (hcount : s'.failures = s.failures)
      (hrecorded : s'.sendFailures = s.sendFailures +
        UInt64.ofNat ((opening s.exporter).handled call.opening a).recorded)
  | empty (hfound : FoundNothing s call) (hexported : s'.exported = s.exported)
      (hcount : s'.failures = s.failures) (hrecorded : s'.sendFailures = s.sendFailures)
  | exported (hbegun : Begun s call) (hserved : call.plan.Served (call.way s).asks)
      (hevents : call.events ≠ []) (hexported : s'.exported ≠ s.exported) (hcount : s'.failures = 0)
      (hrecorded : s'.sendFailures = s.sendFailures)
  /-- behind the dequeuing something goes wrong -/
  | broken (hbegun : Begun s call) (hevents : call.events ≠ []) (a : Ask)
      (new : List (List PschEvent)) (hfault : call.plan.FaultAt (call.way s).asks a new)
      (hrequest : ∀ j, a = .call (.send j) → j = new.length) (hexported : s'.exported = s.exported)
      (hcount : s'.failures = (call.way s).settled s.failures new +
        ((call.way s).handled call.plan a).counted.toNat)
      (hrecorded : s'.sendFailures = s.sendFailures +
        UInt64.ofNat ((call.way s).handled call.plan a).recorded)

variable [LawfulExporter ε] {s : ExportState ε}

theorem call_ends (hwf : LawfulExporter.WF s.exporter) (call : ExportCall) :
    LawfulExporter.WF (after s call).exporter ∧ CallEnds s call (after s call) := by
  rcases hopen : System.recovered false (beginExport call.opening s) with ⟨b, s₁⟩
  obtain ⟨r, ⟨hwf₁, hbegins⟩, hb⟩ :=
    System.recovered_of_barred (barred_beginExport call.opening hwf) hopen
  rcases hbegins with ⟨rfl, hbegun, hexporter, hsame⟩ | ⟨a, new, -, hbroken, hr⟩
  · obtain rfl : b = true := hb
    rcases hexport : System.recovered 0
      (exportEvents call.plan call.settings call.events { s₁ with sent := 0 }) with ⟨n, s₂⟩
    have hconn : isConnected s₁.exporter = true := hexporter ▸ isConnected_opened s.exporter
    obtain ⟨r, ⟨hwf₂, hends⟩, -⟩ := System.recovered_of_barred
      (LawfulExporter.exportEvents call.plan call.settings call.events
        (s := { s₁ with sent := 0 }) hwf₁ hconn rfl) hexport
    rw [after_begun hopen hexport]
    refine ⟨hwf₂, ?_⟩
    have hway : route s₁.exporter call.settings call.events = call.way s := by
      rw [hexporter]
      rfl
    cases hends with
    | empty r s₂ hevents hsame₂ hr =>
      exact .empty ⟨hbegun, List.length_eq_zero_iff.mpr hevents⟩
        (hsame₂.exported.trans hsame.exported) (hsame₂.failures.trans hsame.failures)
        (hsame₂.recorded.trans hsame.recorded)
    | exported s₂ new hevents hserved hacked hall hexported hcount hrecorded =>
      refine .exported hbegun (hway ▸ hserved) hevents ?_ hcount (hrecorded.trans hsame.recorded)
      rw [hexported, ← hsame.exported]
      exact call.add_length_ne hevents _
    | broken s₂ a new hevents hle hb =>
      change Broken call.plan (route s₁.exporter call.settings call.events) a new
        ((route s₁.exporter call.settings call.events).handled call.plan a) _ _ at hb
      rw [hway] at hb
      refine .broken hbegun hevents a new hb.fault hb.request (hb.exported.trans hsame.exported)
        ?_ ?_
      · rw [hb.failures, ← hsame.failures]
        rfl
      · rw [hb.recorded, ← hsame.recorded]
  · -- an opening that fails is not counted, and makes no request
    have hb' : b = false := by
      rcases hr with ⟨rfl, -⟩ | ⟨rfl, -⟩ <;> exact hb
    subst hb'
    rw [after_notBegun hopen]
    refine ⟨hwf₁, .notBegun a hbroken.fault.first hbroken.exported ?_ hbroken.recorded⟩
    rw [hbroken.failures, Route.settled, if_neg (fun hno => Bool.false_ne_true hno.1)]
    rcases opening_handled_cases s.exporter call.opening a with h | h <;> rw [h] <;> rfl

/-! ## Sequences of calls -/

/-- Every call of the sequence has the property, in the state it starts from. -/
def EveryCall (P : ExportState ε → ExportCall → Prop) : ExportState ε → List ExportCall → Prop
  | _, [] => True
  | s, call :: calls => P s call ∧ EveryCall P (after s call) calls

/-- How many calls of the sequence fail. -/
def failedCalls : ExportState ε → List ExportCall → ℕ
  | _, [] => 0
  | s, call :: calls => (if Failed s call then 1 else 0) + failedCalls (after s call) calls

end Calls

/-! ## The calls of a run -/

namespace System

variable {ε : Type} [StatsExporter ε] {cfg : Config} {s s' : System ε cfg}

/-- Where the worker is between two calls, its exporter is in the state `x`; inside one it has
begun the call from there. -/
def Since (x : ExportState ε) (s : System ε cfg) : Prop :=
  match s.pc with
  | .dequeuing _ => ∃ opening, recovered false (PgStatCh.beginExport opening x) = (true, s.exportState)
  | .exporting _ => ∃ opening, recovered false (PgStatCh.beginExport opening x) = (true, s.exportState)
  | _ => s.exportState = x

/-- The state of the exporter comes from calls, one after the other. -/
def FromCalls (s : System ε cfg) : Prop :=
  ∃ (x : ε) (plan : Plan) (ok : Bool) (x₀ : ExportState ε) (calls : List ExportCall),
    Made x ∧ establishNewConnection plan { exporter := x } = .ok ok x₀ ∧
    Since (calls.foldl after x₀) s

theorem since_of_goOn {x : ExportState ε} {settings : Settings} (h : s.exportState = x) :
    Since x (s.goOn settings) := by
  unfold Since goOn
  cases settings.pschEnabled <;> exact h

theorem FromCalls.step [Scheduled ε] [LawfulExporter ε] (hi : Inv s) (h : FromCalls s) {l : Label cfg}
    (hl : Step s l s') : FromCalls s' := by
  obtain ⟨x, plan₀, ok, x₀, calls, hmade, hinit, hsince⟩ := h
  -- the same calls, or one more
  have hsame : Since (calls.foldl after x₀) s' → FromCalls s' :=
    fun hs' => ⟨x, plan₀, ok, x₀, calls, hmade, hinit, hs'⟩
  have hmore : ∀ call, Since (after (calls.foldl after x₀) call) s' → FromCalls s' := by
    intro call hs'
    refine ⟨x, plan₀, ok, x₀, calls ++ [call], hmade, hinit, ?_⟩
    rw [List.foldl_append]
    exact hs'
  unfold Since at hsince
  cases hl with
  | queue l q hl hq => exact hsame hsince
  | wake settings hpc =>
    rw [hpc] at hsince
    exact hsame (since_of_goOn (s := s) hsince)
  | connected plan x' hpc hx =>
    rw [hpc] at hsince
    simp only at hsince
    exact hsame ⟨plan, hsince ▸ hx⟩
  | notConnected plan x' hpc hx =>
    rw [hpc] at hsince
    simp only at hsince
    refine hmore ⟨plan, plan, s.settings, [], Nat.zero_le _⟩ ?_
    exact (after_notBegun (hsince ▸ hx)).symm
  | dequeue buf events hpc hlt hw =>
    refine hsame ?_
    unfold Since
    exact hsince
  | full buf events hpc hle =>
    rw [hpc] at hsince
    exact hsame hsince
  | dequeueInside events m' tail out pc hpc hw =>
    refine hsame ?_
    unfold Since
    exact hsince
  | dequeueEmpty events buf hpc hw =>
    rw [hpc] at hsince
    exact hsame hsince
  | dequeueTaken events tail out hpc hw =>
    rw [hpc] at hsince
    exact hsame hsince
  | exported plan events n x' hpc hx =>
    have hfits := hi.pc
    rw [hpc] at hsince hfits
    obtain ⟨opening, hbegin⟩ := hsince
    refine hmore ⟨opening, plan, s.settings, events, hfits.2.1⟩ ?_
    exact (after_begun hbegin hx).symm
  | sleep settings n hpc hlt =>
    rw [hpc] at hsince
    exact hsame hsince
  | again settings n hpc hle =>
    rw [hpc] at hsince
    exact hsame (since_of_goOn (s := s) hsince)

/-- While the worker sleeps, and decides for how long, its exporter is in the state that the
calls so far have left. -/
theorem exportState_calls [Scheduled ε] [LawfulExporter ε] (hs : (machine ε cfg).toSpec.Reachable s)
    (hpc : s.pc = .sleeping) :
    ∃ (x : ε) (plan : Plan) (ok : Bool) (x₀ : ExportState ε) (calls : List ExportCall),
      Made x ∧ establishNewConnection plan { exporter := x } = .ok ok x₀ ∧
      s.exportState = calls.foldl after x₀ := by
  have hcalls : FromCalls s := by
    refine Spec.Reachable.invariant_of (fun _ => inv_reachable) ?_ ?_ hs
    · rintro s ⟨-, hpc, -, -, x, plan, ok, hmade, hx⟩
      refine ⟨x, plan, ok, s.exportState, [], hmade, hx, ?_⟩
      unfold Since
      rw [hpc]
      rfl
    · rintro s s' hi h ⟨l, hl⟩
      exact h.step hi (step_cases hl)
  obtain ⟨x, plan, ok, x₀, calls, hmade, hinit, hsince⟩ := hcalls
  unfold Since at hsince
  rw [hpc] at hsince
  exact ⟨x, plan, ok, x₀, calls, hmade, hinit, hsince⟩

end System

end PgStatCh
