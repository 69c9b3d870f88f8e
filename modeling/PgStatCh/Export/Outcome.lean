import PgStatCh.Export.Schedule

/-!
# Export.Outcome — what a call of `PschExportBatch` leaves behind

The code goes the way that `Schedule` says, for either exporter (`Begins`, `Ends`): which requests
the backend has acknowledged after the call, what was added to `exported` and to `send_failures`,
how many consecutive failures the exporter counts, and what the call returned. The acknowledged
requests always are a prefix of the batch, in order. When nothing goes wrong they are the whole
batch, and all numbers say so. Otherwise the first thing that goes wrong decides.

Here are the rules for the calls to the outside, what is asked of any exporter
(`LawfulExporter`), and ClickHouse's; OpenTelemetry's is in `OTelOutcome`.
-/

namespace PgStatCh

open Lib Prog StatsExporter

/-! ## The calls to the outside -/

section Calls

variable {ε α : Type} {plan : Plan} {p : Point} {s : ExportState ε}

theorem wp_call {Q : Option String → ExportState ε → Prop} {E : Exit → ExportState ε → Prop}
    (hok : plan p = .ok → Q none s) (hfails : ∀ m, plan p = .fails m → Q (some m) s)
    (hexit : ∀ x, plan.exit (.call p) = some x → E x s) : wp (plan.call p) Q E s := by
  unfold Plan.call
  split
  · next h => exact hok h
  · next m h => exact hfails m h
  · next e h => exact hexit _ (by rw [Plan.exit, h]; rfl)
  · next h => exact hexit _ (by rw [Plan.exit, h]; rfl)

theorem wp_run {Q : Unit → ExportState ε → Prop} {E : Exit → ExportState ε → Prop}
    (hok : plan.passes (.run p) = true → Q () s)
    (hexit : ∀ x, plan.exit (.run p) = some x → E x s) : wp (plan.run p) Q E s := by
  unfold Plan.run
  split
  · next e h => exact hexit _ (by rw [Plan.exit, h]; rfl)
  · next h => exact hexit _ (by rw [Plan.exit, h]; rfl)
  · next hthrows hraises =>
    refine hok ?_
    rw [Plan.passes]
    cases h : plan p with
    | ok | fails => rfl
    | throws e => exact absurd h (hthrows e)
    | raises => exact absurd h hraises

theorem wp_log {l : LogStatement} {Q : Unit → ExportState ε → Prop}
    {E : Exit → ExportState ε → Prop} (hok : plan.passes (.log l) = true → Q () s)
    (hraises : plan (.log l) = .raises → E .error s) : wp (plan.log l) Q E s := by
  unfold Plan.log
  split
  · next h => exact hraises h
  · next h => exact hok (decide_eq_true h)

theorem wp_send {rows : List PschEvent} {Q : Option String → ExportState ε → Prop}
    {E : Exit → ExportState ε → Prop}
    (hok : plan (.send s.sent) = .ok →
      Q none { s with sent := s.sent + 1, acked := s.acked ++ [rows] })
    (hfails : ∀ m, plan (.send s.sent) = .fails m → Q (some m) { s with sent := s.sent + 1 })
    (hexit : ∀ x, plan.exit (.call (.send s.sent)) = some x → E x { s with sent := s.sent + 1 }) :
    wp (plan.send rows) Q E s := by
  unfold Plan.send
  simp only [wp_bind, wp_get, wp_modify]
  exact wp_call hok hfails hexit

@[simp] theorem wp_recordExporterFailure {m : String} {Q : Unit → ExportState ε → Prop}
    {E : Exit → ExportState ε → Prop} :
    wp (recordExporterFailure m) Q E s =
      Q () { s with sendFailures := s.sendFailures + 1, lastErrorText := m } := rfl

/-- `M` holds of what the body is left with, and the handler goes on from there, unless it is an
ERROR. -/
theorem wp_catching {body : ExportM ε α} {handler : Exception → ExportM ε α}
    {Q : α → ExportState ε → Prop} {E M : Exit → ExportState ε → Prop} (hbody : wp body Q M s)
    (hhandler : ∀ e s', M (.exception e) s' → wp (handler e) Q E s')
    (herror : ∀ s', M .error s' → E .error s') : wp (catching body handler) Q E s := by
  refine wp_catch hbody ?_
  intro x s' h
  cases x with
  | exception e => exact hhandler e s' h
  | error => exact herror s' h

theorem wp_handleException {l : LogStatement} {oom : String} {stop : α} {e : Exception}
    {Q : α → ExportState ε → Prop} {E : Exit → ExportState ε → Prop}
    (hok : ∀ m, plan.passes (.log l) = true →
      Q stop { s with sendFailures := s.sendFailures + 1, lastErrorText := m })
    (hraises : plan (.log l) = .raises → E .error s) :
    wp (handleException plan l oom stop e) Q E s := by
  unfold handleException
  rw [wp_bind]
  refine wp_log (fun hpass => ?_) hraises
  simp only [wp_bind, wp_recordExporterFailure, wp_pure]
  exact hok _ hpass

/-- `x` returns, or is left by an ERROR: `P` holds of the value, if there is one. -/
def barred (x : ExportM ε α) (P : Option α → ExportState ε → Prop) (s : ExportState ε) : Prop :=
  wp x (fun a s' => P (some a) s') (fun e s' => e = .error ∧ P none s') s

theorem barred_mono {x : ExportM ε α} {P P' : Option α → ExportState ε → Prop}
    (h : barred x P s) (hP : ∀ r s', P r s' → P' r s') : barred x P' s :=
  wp_mono h (fun a s' => hP (some a) s') fun _ s' he => ⟨he.1, hP none s' he.2⟩

/-- The outermost handlers have nothing left to do. -/
theorem barred_exportBarrier {stop : α} {x : ExportM ε α}
    {P : Option α → ExportState ε → Prop} (h : barred x P s) :
    barred (exportBarrier plan stop x) P s := by
  refine wp_catching h ?_ fun s' he => ⟨rfl, he.2⟩
  rintro e s' ⟨hno, -⟩
  cases hno

theorem barred_log_bind {l : LogStatement} {k : Unit → ExportM ε α}
    {P : Option α → ExportState ε → Prop} (hok : plan.passes (.log l) = true → barred (k ()) P s)
    (hraises : plan (.log l) = .raises → P none s) : barred (plan.log l >>= k) P s := by
  unfold barred
  rw [wp_bind]
  exact wp_log hok fun h => ⟨rfl, hraises h⟩

end Calls

theorem Plan.exit_log {plan : Plan} {l : LogStatement} (h : plan (.log l) = .raises) :
    plan.exit (.log l) = some .error := if_pos h

theorem Plan.not_passes_log {plan : Plan} {l : LogStatement} (h : plan (.log l) = .raises) :
    ¬ plan.passes (.log l) = true := by
  rw [Plan.not_passes_of_exit (Plan.exit_log h)]
  exact Bool.false_ne_true

theorem Plan.not_passes_of_fails {plan : Plan} {p : Point} {m : String} (h : plan p = .fails m) :
    plan.passes (.call p) = false := by
  refine decide_eq_false fun hok => ?_
  rw [hok] at h
  cases h

/-! ## What a call reports -/

section Reports

variable {ε : Type} [StatsExporter ε]

/-- The exporter's count of consecutive failures. -/
def ExportState.failures (s : ExportState ε) : ℕ := numConsecutiveFailures s.exporter

/-- Nothing was acknowledged, counted or recorded. -/
structure Untouched (s s' : ExportState ε) : Prop where
  acked : s'.acked = s.acked
  exported : s'.exported = s.exported
  failures : s'.failures = s.failures
  recorded : s'.sendFailures = s.sendFailures

theorem Untouched.refl (s : ExportState ε) : Untouched s s := ⟨rfl, rfl, rfl, rfl⟩

/-- The batch went wrong for the first time at `a`, with the requests `new` acknowledged, and `h`
was done about it. -/
structure Broken (plan : Plan) (way : Route) (a : Ask) (new : List (List PschEvent)) (h : Handled)
    (s s' : ExportState ε) : Prop where
  fault : plan.FaultAt way.asks a new
  /-- the requests are numbered -/
  request : ∀ j, a = .call (.send j) → j = new.length
  acked : s'.acked = s.acked ++ new
  exported : s'.exported = s.exported
  failures : s'.failures = way.settled s.failures new + h.counted.toNat
  recorded : s'.sendFailures = s.sendFailures + UInt64.ofNat h.recorded

section Broken

variable {plan : Plan} {way : Route} {a : Ask} {new : List (List PschEvent)}
  {s s₁ s' : ExportState ε} {h h' : Handled}

/-- Nothing was acknowledged, and nothing has been done about the fault. -/
theorem Untouched.broken (hsame : Untouched s s') (hfault : plan.FaultAt way.asks a [])
    (hrequest : ∀ j, a = .call (.send j) → j = 0) : Broken plan way a [] .raised s s' where
  fault := hfault
  request := hrequest
  acked := by rw [hsame.acked, List.append_nil]
  exported := hsame.exported
  failures := by
    rw [hsame.failures, Route.settled, if_neg (fun hno => hno.2 rfl)]
    rfl
  recorded := by
    rw [hsame.recorded]
    exact (UInt64.add_zero _).symm

/-- More was done about it: a failure was counted or not, and recorded `n` times. -/
theorem Broken.more (hb : Broken plan way a new h s s₁) {n : ℕ} (hacked : s'.acked = s₁.acked)
    (hexported : s'.exported = s₁.exported)
    (hfailures : s'.failures = s₁.failures + (h'.counted.toNat - h.counted.toNat))
    (hrecorded : s'.sendFailures = s₁.sendFailures + UInt64.ofNat n)
    (hle : h.counted.toNat ≤ h'.counted.toNat) (hn : h'.recorded = h.recorded + n) :
    Broken plan way a new h' s s' where
  fault := hb.fault
  request := hb.request
  acked := hacked.trans hb.acked
  exported := hexported.trans hb.exported
  failures := by
    rw [hfailures, hb.failures]
    omega
  recorded := by rw [hrecorded, hb.recorded, hn, UInt64.ofNat_add, UInt64.add_assoc]

/-- The message about it is left by an ERROR, or nothing else is done. -/
theorem Broken.same (hb : Broken plan way a new h s s₁) (hsame : Untouched s₁ s')
    (hcounted : h'.counted = h.counted) (hrecorded : h'.recorded = h.recorded) :
    Broken plan way a new h' s s' := by
  refine hb.more (n := 0) hsame.acked hsame.exported ?_ ?_ (by rw [hcounted]) hrecorded
  · rw [hsame.failures, hcounted]
    omega
  · rw [hsame.recorded]
    exact (UInt64.add_zero _).symm

end Broken

/-- The batch went wrong, and so a function returns `stop`, after which the call returns `ret`, or
an ERROR leaves it. -/
def BrokenOff {α : Type} (plan : Plan) (way : Route) (events : List PschEvent) (s : ExportState ε)
    (stop : α) (ret : Returned) (r : Option α) (s' : ExportState ε) : Prop :=
  ∃ a new, new.flatten <+: events ∧ Broken plan way a new (way.handled plan a) s s' ∧
    (r = some stop ∧ (way.handled plan a).returns = some ret ∨
      r = none ∧ (way.handled plan a).returns = none)

section BrokenOff

variable {α : Type} {plan : Plan} {way : Route} {events : List PschEvent} {a : Ask}
  {new : List (List PschEvent)} {h : Handled} {s s' : ExportState ε} {stop : α} {ret : Returned}

theorem Broken.off (hb : Broken plan way a new h s s') (hle : new.flatten <+: events)
    (hhandled : way.handled plan a = h) (hreturns : h.returns = some ret) :
    BrokenOff plan way events s stop ret (some stop) s' := by
  subst hhandled
  exact ⟨a, new, hle, hb, Or.inl ⟨rfl, hreturns⟩⟩

theorem Broken.off_raised (hb : Broken plan way a new h s s') (hle : new.flatten <+: events)
    (hhandled : way.handled plan a = h) (hreturns : h.returns = none) :
    BrokenOff plan way events s stop ret none s' := by
  subst hhandled
  exact ⟨a, new, hle, hb, Or.inr ⟨rfl, hreturns⟩⟩

/-- What is done about a fault in all, when `h` has been done and the body of a function is left
whose handlers write `l`. -/
def Handled.leftBy (plan : Plan) (l : LogStatement) (h : Handled) : Exit → Handled
  | .error => h
  | .exception _ =>
    if plan.passes (.log l) then ⟨h.counted, h.recorded + 1, some .zero⟩ else h

/-- How the body is left. -/
def Left (plan : Plan) (way : Route) (l : LogStatement) (events : List PschEvent)
    (s : ExportState ε) (x : Exit) (s' : ExportState ε) : Prop :=
  ∃ a new h, Broken plan way a new h s s' ∧ new.flatten <+: events ∧ h.returns = none ∧
    way.handled plan a = h.leftBy plan l x

/-- Nothing else was done about it. -/
theorem Broken.left {l : LogStatement} {x : Exit} (hb : Broken plan way a new .raised s s')
    (hle : new.flatten <+: events) (hhandled : way.handled plan a = Handled.raised.leftBy plan l x) :
    Left plan way l events s x s' := ⟨a, new, .raised, hb, hle, rfl, hhandled⟩

/-- What the handlers make of it, with `C` an invariant of the body. -/
theorem barred_handled {body : ExportM ε α} {l : LogStatement} {oom : String} {C : ε → Prop}
    {G : α → ExportState ε → Prop} {s₁ : ExportState ε}
    (hbody : wp body (fun r s' => C s'.exporter ∧ G r s')
      (fun x s' => C s'.exporter ∧ Left plan way l events s x s') s₁) :
    barred (catching body (handleException plan l oom stop))
      (fun r s' => C s'.exporter ∧
        ((∃ v, r = some v ∧ G v s') ∨ BrokenOff plan way events s stop .zero r s')) s₁ := by
  refine wp_catching (wp_mono hbody ?_ fun _ _ => id) ?_ ?_
  · rintro r s' ⟨hC, hG⟩
    exact ⟨hC, Or.inl ⟨r, rfl, hG⟩⟩
  · rintro e s' ⟨hC, a, new, h, hb, hle, hnone, hhandled⟩
    refine wp_handleException (fun m hpass => ?_) fun hraises => ?_
    · have hrecorded : Broken plan way a new ⟨h.counted, h.recorded + 1, some .zero⟩ s
          { s' with sendFailures := s'.sendFailures + 1, lastErrorText := m } :=
        hb.more (n := 1) rfl rfl (by simp [ExportState.failures]) rfl le_rfl rfl
      exact ⟨hC, Or.inr (hrecorded.off hle (hhandled.trans (if_pos hpass)) rfl)⟩
    · exact ⟨rfl, hC, Or.inr (hb.off_raised hle
        (hhandled.trans (if_neg (Plan.not_passes_log hraises))) hnone)⟩
  · rintro s' ⟨hC, a, new, h, hb, hle, hnone, hhandled⟩
    exact ⟨rfl, hC, Or.inr (hb.off_raised hle hhandled hnone)⟩

end BrokenOff

variable [Scheduled ε]

/-- How `PschExportBatch` gets to the dequeuing, or does not. -/
def Begins (plan : Plan) (s : ExportState ε) (r : Option Bool) (s' : ExportState ε) : Prop :=
  r = some true ∧ plan.Served (openingAsks s.exporter) ∧ s'.exporter = opened s.exporter ∧
      Untouched s s' ∨
    BrokenOff plan (opening s.exporter) [] s false .zero r s'

/-- What `PschExportBatch` does with the events it has dequeued, and what it returns. -/
inductive Ends (plan : Plan) (settings : Settings) (events : List PschEvent)
    (s : ExportState ε) : Option ℕ → ExportState ε → Prop where
  | empty (r : Option ℕ) (s' : ExportState ε) (hevents : events = []) (hsame : Untouched s s')
      (hr : r = some 0 ∨ r = none) : Ends plan settings events s r s'
  | exported (s' : ExportState ε) (new : List (List PschEvent)) (hevents : events ≠ [])
      (hserved : plan.Served (route s.exporter settings events).asks)
      (hacked : s'.acked = s.acked ++ new) (hall : new.flatten = events)
      (hexported : s'.exported = s.exported + UInt64.ofNat events.length)
      (hcount : s'.failures = 0) (hrecorded : s'.sendFailures = s.sendFailures) :
      Ends plan settings events s (some events.length) s'
  | broken (s' : ExportState ε) (a : Ask) (new : List (List PschEvent)) (hevents : events ≠ [])
      (hle : new.flatten <+: events)
      (hbroken : Broken plan (route s.exporter settings events) a new
        ((route s.exporter settings events).handled plan a) s s') :
      Ends plan settings events s
        (((route s.exporter settings events).handled plan a).returns.map
          (Returned.value new.flatten.length events.length)) s'

/-- What a batch comes to: the requests `new` are acknowledged, and the loop that made the call goes
on with `ret`. -/
structure Report (plan : Plan) (way : Route) (events : List PschEvent) (s s' : ExportState ε)
    (ret : ℕ) (new : List (List PschEvent)) : Prop where
  acked : s'.acked = s.acked ++ new
  inOrder : new.flatten <+: events
  served : (events ≠ [] → plan.Served way.asks) → new.flatten = events ∧ ret = events.length
  counts : (events ≠ [] → way.CountsExactly plan) →
    s'.exported = s.exported + UInt64.ofNat new.flatten.length
  returns : (events ≠ [] → way.ReturnsExactly plan) → ret = new.flatten.length

theorem Ends.report {plan : Plan} {settings : Settings} {events : List PschEvent}
    {s s' : ExportState ε} {r : Option ℕ} (h : Ends plan settings events s r s') :
    ∃ new, Report plan (route s.exporter settings events) events s s' (r.getD 0) new := by
  cases h with
  | empty r s' hevents hsame hr =>
    subst hevents
    have hret : r.getD 0 = 0 := by rcases hr with rfl | rfl <;> rfl
    exact ⟨[], by rw [hsame.acked, List.append_nil], List.nil_prefix, fun _ => ⟨rfl, hret⟩,
      fun _ => by rw [hsame.exported]; exact (UInt64.add_zero _).symm, fun _ => hret⟩
  | exported s' new hevents hserved hacked hall hexported hcount hrecorded =>
    have hlen : new.flatten.length = events.length := by rw [hall]
    exact ⟨new, hacked, hall ▸ List.prefix_rfl, fun _ => ⟨hall, rfl⟩,
      fun _ => by rw [hexported, hlen], fun _ => hlen.symm⟩
  | broken s' a new hevents hle hb =>
    have hnone := hb.fault.unacknowledged
    have hserved := Plan.not_served_of_firstFault hb.fault.first
    refine ⟨new, hb.acked, hle, fun hno => absurd (hno hevents) hserved, fun hcounts => ?_,
      fun hreturns => ?_⟩
    · rw [hb.exported, hnone ((hcounts hevents).resolve_left hserved)]
      exact (UInt64.add_zero _).symm
    · rcases hreturns hevents a hb.fault.first with hret | ⟨hun, hret⟩
      · rw [hret]
        rfl
      · -- nothing was acknowledged, and it returns nothing, or 0 in one way or another
        rw [hnone hun]
        rcases h : ((route s.exporter settings events).handled plan a).returns with _ | ret
        · rfl
        · cases ret with
          | batch => exact absurd h hret
          | zero | acked => rfl

section Ends

variable {α : Type} {plan : Plan} {settings : Settings} {events : List PschEvent}
  {s s' : ExportState ε} {stop r : α} {ret : Returned}

theorem Broken.ends {a : Ask} {new : List (List PschEvent)} {h : Handled} (hevents : events ≠ [])
    (hb : Broken plan (route s.exporter settings events) a new h s s')
    (hle : new.flatten <+: events)
    (hhandled : (route s.exporter settings events).handled plan a = h) :
    Ends plan settings events s (h.returns.map (Returned.value new.flatten.length events.length))
      s' := by
  subst hhandled
  exact .broken s' a new hevents hle hb

/-- The function has returned, and its caller returns, too. -/
theorem BrokenOff.ends (hevents : events ≠ [])
    (h : BrokenOff plan (route s.exporter settings events) events s stop ret (some r) s') :
    r = stop ∧ ∃ new, s'.acked = s.acked ++ new ∧
      Ends plan settings events s (some (ret.value new.flatten.length events.length)) s' := by
  obtain ⟨a, new, hle, hbroken, ⟨hr, hreturns⟩ | ⟨hno, -⟩⟩ := h
  · have hends := Ends.broken s' a new hevents hle hbroken
    rw [hreturns] at hends
    exact ⟨Option.some_inj.mp hr, new, hbroken.acked, hends⟩
  · cases hno

theorem BrokenOff.ends_raised (hevents : events ≠ [])
    (h : BrokenOff plan (route s.exporter settings events) events s stop ret none s') :
    Ends plan settings events s none s' := by
  obtain ⟨a, new, hle, hbroken, ⟨hno, -⟩ | ⟨-, hreturns⟩⟩ := h
  · cases hno
  · have hends := Ends.broken s' a new hevents hle hbroken
    rwa [hreturns] at hends

/-- What is left to prove of `exportEvents` is how a batch goes that is not empty, from the message
about it on. -/
theorem barred_exportEvents_of {W : ε → Prop} (asks : List Ask) (hwf : W s.exporter)
    (hasks : (route s.exporter settings events).asks = .log .exporting :: asks)
    (hhandled : (route s.exporter settings events).handled plan (.log .exporting) = .raised)
    (hbatch : events ≠ [] → plan.Reached (route s.exporter settings events).asks asks [] →
      barred (if useOtel ε && settings.arrowPassthrough then exportEventsAsArrow plan settings events
          else exportAsRows plan events)
        (fun r s' => W s'.exporter ∧ Ends plan settings events s r s') s) :
    barred (exportEvents plan settings events)
      (fun r s' => W s'.exporter ∧ Ends plan settings events s r s') s := by
  refine barred_exportBarrier ?_
  split
  · next hempty =>
    refine barred_log_bind (fun _ => ?_) fun _ => ?_
    · exact ⟨hwf, .empty _ s hempty (.refl s) (Or.inl rfl)⟩
    · exact ⟨hwf, .empty _ s hempty (.refl s) (Or.inr rfl)⟩
  · next hevents =>
    have hstart := Plan.Reached.start plan (route s.exporter settings events).asks
    nth_rewrite 2 [hasks] at hstart
    refine barred_log_bind (fun hlog => hbatch hevents (hstart.pass hlog)) fun hraises => ?_
    have hbroken : Broken plan (route s.exporter settings events) (.log .exporting) [] .raised s s :=
      (Untouched.refl s).broken (hstart.fault (Plan.not_passes_of_exit (Plan.exit_log hraises)))
        (fun j hj => by cases hj)
    exact ⟨hwf, hbroken.ends hevents List.nil_prefix hhandled⟩

end Ends

/-- How `EstablishNewConnection` returns. -/
def Connects (plan : Plan) (s : ExportState ε) (ok : Bool) (s' : ExportState ε) : Prop :=
  ok = true ∧ plan.Served (Scheduled.connectAsks s.exporter) ∧
      s'.exporter = Scheduled.connected s.exporter ∨
    ok = false ∧ ∃ p, plan.firstFault (Scheduled.connectAsks s.exporter) = some (.call p) ∧
      Scheduled.connectHandled s.exporter plan p = ⟨false, 1, some .zero⟩

/-- How it is left. -/
def ConnectLeft (plan : Plan) (s : ExportState ε) (x : Exit) : Prop :=
  ∃ a, plan.firstFault (Scheduled.connectAsks s.exporter) = some a ∧
    (opening s.exporter).handled plan a = Handled.raised.leftBy plan .exportBatch x

/-- What the worker relies on, of any exporter: `WF` holds from the start. -/
class LawfulExporter (ε : Type) [StatsExporter ε] [Scheduled ε] where
  WF : ε → Prop
  made : ∀ {x : ε}, Made x → WF x
  isConnected_connected : ∀ x : ε, isConnected (Scheduled.connected x) = true
  noRequest : ∀ (x : ε) (j : ℕ), Ask.call (.send j) ∉ Scheduled.connectAsks x
  connectHandled_cases : ∀ (x : ε) (plan : Plan) (p : Point),
    Scheduled.connectHandled x plan p = .raised ∨
      Scheduled.connectHandled x plan p = ⟨false, 1, some .zero⟩
  connect : ∀ (plan : Plan) {s : ExportState ε}, WF s.exporter →
    wp (establishNewConnection plan)
      (fun ok s' => WF s'.exporter ∧ Untouched s s' ∧ Connects plan s ok s')
      (fun x s' => WF s'.exporter ∧ Untouched s s' ∧ ConnectLeft plan s x) s
  exportEvents : ∀ (plan : Plan) (settings : Settings) (events : List PschEvent)
      {s : ExportState ε}, WF s.exporter → isConnected s.exporter = true → s.sent = 0 →
    barred (exportEvents plan settings events)
      (fun r s' => WF s'.exporter ∧ Ends plan settings events s r s') s

section Begin

variable [LawfulExporter ε] {plan : Plan} {s : ExportState ε}

theorem isConnected_opened (x : ε) : isConnected (opened x) = true := by
  unfold opened
  split
  · next h => exact h
  · exact LawfulExporter.isConnected_connected x

/-- The opening makes no request. -/
theorem send_not_mem_openingAsks (x : ε) (j : ℕ) : Ask.call (.send j) ∉ openingAsks x := by
  have hconnect := LawfulExporter.noRequest x j
  unfold openingAsks
  split <;> simp [hconnect]

theorem unacknowledged_opening (plan : Plan) (x : ε) : plan.Unacknowledged (opening x).asks :=
  fun j hmem => send_not_mem_openingAsks x j ((List.takeWhile_prefix _).subset hmem)

theorem opening_broken {asks : List Ask} {a : Ask} {s₁ : ExportState ε} (hsame : Untouched s s₁)
    (h : plan.Reached (opening s.exporter).asks asks []) (hfault : plan.firstFault asks = some a) :
    Broken plan (opening s.exporter) a [] .raised s s₁ := by
  have hfirst : plan.firstFault (opening s.exporter).asks = some a := h.firstFault_eq.trans hfault
  refine hsame.broken ⟨hfirst, fun _ => rfl⟩ ?_
  rintro j rfl
  exact absurd (Plan.mem_of_firstFault hfirst) (send_not_mem_openingAsks _ j)

theorem opening_left {rest : List Ask} {a : Ask} {x : Exit} {s₁ : ExportState ε}
    (ha : (∃ p, a = .run p) ∨ ∃ l, a = .log l) (hsame : Untouched s s₁)
    (h : plan.Reached (opening s.exporter).asks (a :: rest) []) (hx : plan.exit a = some x) :
    Left plan (opening s.exporter) .exportBatch [] s x s₁ := by
  have hfault : plan.firstFault (a :: rest) = some a :=
    Plan.firstFault_cons_of_not_passes (Plan.not_passes_of_exit hx)
  refine (opening_broken hsame h hfault).left List.nil_prefix ?_
  rcases ha with ⟨p, rfl⟩ | ⟨l, rfl⟩
  · cases x with
    | error => exact Plan.handle_of_raises (Reply.exit_eq_error.mp hx)
    | exception e => exact Plan.handle_of_throws (Reply.exit_eq_exception.mp hx)
  · rw [Plan.exit] at hx
    split at hx <;> cases hx
    rfl

/-- From a connected exporter on. -/
theorem wp_beginDequeue {s₁ : ExportState ε} (hwf : LawfulExporter.WF s₁.exporter)
    (hsame : Untouched s s₁) (hexporter : s₁.exporter = opened s.exporter)
    (h : plan.Reached (opening s.exporter).asks [.log .dequeuing, .run .reserve] []) :
    wp (beginDequeue plan)
      (fun ok s' => LawfulExporter.WF s'.exporter ∧ Begins plan s (some ok) s')
      (fun x s' => LawfulExporter.WF s'.exporter ∧
        Left plan (opening s.exporter) .exportBatch [] s x s') s₁ := by
  unfold beginDequeue
  rw [wp_bind]
  refine wp_log (fun hlog => ?_) fun hraises => ?_
  · have h₁ := h.pass hlog
    rw [wp_bind]
    refine wp_run (fun hrun => ?_) fun x hx => ?_
    · exact ⟨hwf, Or.inl ⟨rfl, (h₁.pass hrun).served, hexporter, hsame⟩⟩
    · exact ⟨hwf, opening_left (Or.inl ⟨_, rfl⟩) hsame h₁ hx⟩
  · exact ⟨hwf, opening_left (Or.inr ⟨_, rfl⟩) hsame h (Plan.exit_log hraises)⟩

/-- `beginExport` gets as far as the dequeuing, with a connection, or fails. -/
theorem barred_beginExport (plan : Plan) (hwf : LawfulExporter.WF s.exporter) :
    barred (beginExport plan)
      (fun r s' => LawfulExporter.WF s'.exporter ∧ Begins plan s r s') s := by
  have hstart : plan.Reached (opening s.exporter).asks (openingAsks s.exporter) [] :=
    .start plan _
  have hbody : wp (do
        plan.log .called
        let s ← get
        if isConnected s.exporter then beginDequeue plan
        else
          plan.log .initializing
          if ← establishNewConnection plan then beginDequeue plan
          else
            recordExporterFailure "Failed to connect to exporter backend"
            pure false)
      (fun ok s' => LawfulExporter.WF s'.exporter ∧ Begins plan s (some ok) s')
      (fun x s' => LawfulExporter.WF s'.exporter ∧
        Left plan (opening s.exporter) .exportBatch [] s x s') s := by
    rw [wp_bind]
    refine wp_log (fun hcalled => ?_) fun hraises => ?_
    · have h₁ := hstart.pass hcalled
      simp only [wp_bind, wp_get]
      split
      · next hconn =>
        rw [if_pos hconn] at h₁
        refine wp_beginDequeue hwf (.refl s) ?_ h₁
        rw [opened, if_pos hconn]
      · next hconn =>
        rw [Bool.not_eq_true] at hconn
        rw [if_neg (by simp [hconn])] at h₁
        rw [wp_bind]
        refine wp_log (fun hinit => ?_) fun hraises => ?_
        · have h₂ := h₁.pass hinit
          rw [wp_bind]
          refine wp_mono (LawfulExporter.connect plan hwf) ?_ ?_
          · rintro ok s₁ ⟨hwf₁, hsame, ⟨rfl, hserved, hexporter⟩ | ⟨rfl, p, hfault, hhandled⟩⟩
            · refine wp_beginDequeue hwf₁ hsame ?_ (h₂.passes hserved)
              rw [hexporter, opened, hconn, if_neg Bool.false_ne_true]
            · have hbroken := opening_broken hsame h₂ (Plan.firstFault_append_of_some hfault)
              have hrecorded : Broken plan (opening s.exporter) (.call p) [] ⟨false, 1, some .zero⟩ s
                  { s₁ with
                    sendFailures := s₁.sendFailures + 1
                    lastErrorText := "Failed to connect to exporter backend" } :=
                hbroken.more (n := 1) rfl rfl rfl rfl le_rfl rfl
              exact ⟨hwf₁, Or.inr (hrecorded.off List.nil_prefix hhandled rfl)⟩
          · rintro x s₁ ⟨hwf₁, hsame, a, hfault, hhandled⟩
            have hbroken := opening_broken hsame h₂ (Plan.firstFault_append_of_some hfault)
            exact ⟨hwf₁, hbroken.left List.nil_prefix hhandled⟩
        · exact ⟨hwf, opening_left (Or.inr ⟨_, rfl⟩) (.refl s) h₁ (Plan.exit_log hraises)⟩
    · exact ⟨hwf, opening_left (Or.inr ⟨_, rfl⟩) (.refl s) hstart (Plan.exit_log hraises)⟩
  refine barred_mono (barred_handled hbody) ?_
  rintro r s' ⟨hwf', ⟨v, rfl, hbegins⟩ | hoff⟩
  · exact ⟨hwf', hbegins⟩
  · exact ⟨hwf', Or.inr hoff⟩

/-- What goes wrong before the dequeuing is recorded once, and not counted, unless an ERROR leaves
the call. -/
theorem opening_handled_cases (x : ε) (plan : Plan) (a : Ask) :
    (opening x).handled plan a = .raised ∨ (opening x).handled plan a = ⟨false, 1, some .zero⟩ := by
  cases a with
  | call p => exact LawfulExporter.connectHandled_cases x plan p
  | run p => exact plan.handle_cases (plan.logged_cases _ _) (plan.logged_cases _ _)
  | log l => exact Or.inl rfl

/-- What has gone wrong by then leaves the requests and their count alone. -/
theorem Begins.same {r : Option Bool} {s' : ExportState ε} (h : Begins plan s r s') :
    s'.acked = s.acked ∧ s'.exported = s.exported := by
  rcases h with ⟨-, -, -, hsame⟩ | ⟨a, new, -, hbroken, -⟩
  · exact ⟨hsame.acked, hsame.exported⟩
  · have hnone := hbroken.fault.unacknowledged (unacknowledged_opening plan _)
    refine ⟨?_, hbroken.exported⟩
    rw [hbroken.acked, hnone, List.append_nil]

end Begin

end Reports

/-! ## ClickHouse -/

namespace ClickHouseExporter

variable {plan : Plan} {n : ℕ} {rest : List Ask} {s s₁ : ExportState ClickHouseExporter}

/-- A connection is only made with the memory contexts in place. -/
def WF (c : ClickHouseExporter) : Prop := c.client = true → c.memoryContextsReady = true

/-! ### Connecting -/

theorem connectLeft_of_exit {p : Point} {x : Exit}
    (h : plan.Reached s.exporter.connectAsks (.call p :: rest) [])
    (hx : plan.exit (.call p) = some x) : ConnectLeft plan s x := by
  refine ⟨_, (h.fault (Plan.not_passes_of_exit hx)).first, ?_⟩
  cases x with
  | error =>
    have hraises : plan p = .raises := Reply.exit_eq_error.mp hx
    cases p
    all_goals exact Plan.handle_of_raises hraises
  | exception e =>
    have hthrows : plan p = .throws e := Reply.exit_eq_exception.mp hx
    cases p
    all_goals exact Plan.handle_of_throws hthrows

/-- The memory contexts are there, or could not be made. -/
theorem wp_ensureMemoryContexts :
    wp (ensureMemoryContexts plan)
      (fun ready s' => ready = true ∧ s' = { s with exporter.memoryContextsReady := true } ∧
          plan.Reached s.exporter.connectAsks [.call .connect, .log .connected] [] ∨
        ready = false ∧ s' = s ∧ Connects plan s false s')
      (fun x s' => s' = s ∧ ConnectLeft plan s x) s := by
  have hstart : plan.Reached s.exporter.connectAsks s.exporter.connectAsks [] := .start plan _
  unfold ensureMemoryContexts
  simp only [wp_bind, wp_get]
  split
  · next hready =>
    have hasks : s.exporter.connectAsks = [.call .connect, .log .connected] := by
      rw [connectAsks, if_pos hready]
      rfl
    rw [hasks] at hstart
    exact Or.inl ⟨rfl, by rw [← hready], hasks.symm ▸ hstart⟩
  · next hready =>
    have hasks : s.exporter.connectAsks =
        .call .memoryContexts :: [.call .connect, .log .connected] := by
      rw [connectAsks, if_neg hready]
      rfl
    nth_rewrite 2 [hasks] at hstart
    rw [wp_bind]
    refine wp_call (fun hok => ?_) (fun m hm => ?_) fun x hx => ?_
    · exact Or.inl ⟨rfl, rfl, hstart.pass (decide_eq_true hok)⟩
    · exact Or.inr ⟨rfl, rfl, Or.inr ⟨rfl, _, (hstart.fault (Plan.not_passes_of_fails hm)).first,
        Plan.handle_of_fails hm⟩⟩
    · exact ⟨rfl, connectLeft_of_exit hstart hx⟩

theorem wp_establishNewConnection (hwf : s.exporter.WF) :
    wp (establishNewConnection plan)
      (fun ok s' => s'.exporter.WF ∧ Untouched s s' ∧ Connects plan s ok s')
      (fun x s' => s'.exporter.WF ∧ Untouched s s' ∧ ConnectLeft plan s x) s := by
  unfold establishNewConnection closeConnection
  rw [wp_bind]
  refine wp_mono wp_ensureMemoryContexts ?_ ?_
  · rintro ready s' (⟨rfl, rfl, hreached⟩ | ⟨rfl, rfl, hconnects⟩)
    · -- from here on the contexts are there, whatever becomes of the client
      have hsame : ∀ client, Untouched s
          { s with exporter.memoryContextsReady := true, exporter.client := client } :=
        fun _ => ⟨rfl, rfl, rfl, rfl⟩
      have hwf' : ∀ client, WF { s.exporter with memoryContextsReady := true, client := client } :=
        fun _ _ => rfl
      simp only [if_true, wp_bind, wp_modify]
      refine wp_call (fun hok => ?_) (fun m hm => ?_) fun x hx => ?_
      · have hreached' := hreached.pass (decide_eq_true hok)
        simp only [wp_bind, wp_modify]
        refine wp_log (fun hlog => ?_) fun hraises => ?_
        · exact ⟨hwf' true, hsame true, Or.inl ⟨rfl, (hreached'.pass hlog).served, rfl⟩⟩
        · exact ⟨hwf' true, hsame true, _,
            (hreached'.fault (Plan.not_passes_of_exit (Plan.exit_log hraises))).first, rfl⟩
      · have hfault := (hreached.fault (Plan.not_passes_of_fails hm)).first
        have hhandled : connectHandled plan .connect =
            plan.logged .connectFailed ⟨false, 1, some .zero⟩ := Plan.handle_of_fails hm
        simp only [wp_bind, wp_modify]
        refine wp_log (fun hpass => ?_) fun hraises => ?_
        · exact ⟨hwf' false, hsame false, Or.inr ⟨rfl, _, hfault,
            hhandled.trans (Plan.logged_of_passes hpass)⟩⟩
        · exact ⟨hwf' _, hsame _, _, hfault,
            hhandled.trans (Plan.logged_of_raises hraises)⟩
      · exact ⟨hwf' false, hsame false, connectLeft_of_exit hreached hx⟩
    · exact ⟨hwf, .refl _, hconnects⟩
  · rintro x s' ⟨rfl, hleft⟩
    exact ⟨hwf, .refl _, hleft⟩

/-! ### Rows -/

/-- What the rows leave of the connection. -/
def SameConnection (c c' : ClickHouseExporter) : Prop :=
  c'.client = c.client ∧ c'.memoryContextsReady = c.memoryContextsReady

theorem SameConnection.wf {c c' : ClickHouseExporter} (h : SameConnection c c') (hwf : c.WF) :
    c'.WF := by
  intro hclient
  rw [h.2]
  exact hwf (h.1.symm.trans hclient)

/-- What can only be left is left with nothing done about it. -/
theorem left_of_exit {l : List Ask} {a : Ask} {x : Exit} {events : List PschEvent}
    (ha : (∃ p, a = .run p) ∨ ∃ l, a = .log l) (hsame : Untouched s s₁)
    (h : plan.Reached (route n).asks (a :: l) []) (hx : plan.exit a = some x) :
    Left plan (route n) .eventStats events s x s₁ := by
  have hfault := h.fault (Plan.not_passes_of_exit hx)
  rcases ha with ⟨p, rfl⟩ | ⟨l, rfl⟩
  · refine (hsame.broken hfault (fun j hj => by cases hj)).left List.nil_prefix ?_
    cases x with
    | error => exact Plan.handle_of_raises (Reply.exit_eq_error.mp hx)
    | exception e => exact Plan.handle_of_throws (Reply.exit_eq_exception.mp hx)
  · refine (hsame.broken hfault (fun j hj => by cases hj)).left List.nil_prefix ?_
    rw [Plan.exit] at hx
    split at hx <;> cases hx
    rfl

/-- The rows go into the columns and are counted, until one throws. -/
theorem wp_exportRows (all : List PschEvent) (i : ℕ) (events : List PschEvent)
    (hsame : Untouched s₁ s)
    (h : plan.Reached (route n).asks (rowsOnly i events.length ++ rest) []) :
    wp (exportRows plan i events)
      (fun _ s' => plan.Reached (route n).asks (.log .builtRows :: rest) [] ∧
        s' = { s with exporter.columns := s.exporter.columns ++ events
                      exporter.exportedCount := s.exporter.exportedCount + events.length })
      (fun x s' => SameConnection s.exporter s'.exporter ∧
        Left plan (route n) .eventStats all s₁ x s') s := by
  induction events generalizing s i with
  | nil => exact ⟨h, by simp⟩
  | cons ev events ih =>
    rw [List.length_cons, rowsOnly_succ, List.cons_append] at h
    unfold exportRows
    simp only [wp_bind]
    change wp (beginRow >>= fun _ => appendRow plan i ev >>= fun _ => exportRows plan (i + 1) events)
      _ _ s
    unfold beginRow appendRow
    simp only [wp_bind, wp_modify]
    have hsame' : ∀ columns count, Untouched s₁
        { s with exporter.columns := columns, exporter.exportedCount := count } :=
      fun _ _ => ⟨hsame.acked, hsame.exported, hsame.failures, hsame.recorded⟩
    refine wp_run (fun hrow => ?_) fun x hx => ?_
    · rw [wp_modify]
      refine wp_mono (ih (i + 1) (hsame' _ _) (h.pass hrow)) ?_ fun _ _ => id
      rintro - s' ⟨hreached, rfl⟩
      exact ⟨hreached, by simp [Nat.add_assoc, Nat.add_comm 1]⟩
    · exact ⟨⟨rfl, rfl⟩, left_of_exit (Or.inl ⟨_, rfl⟩) (hsame' _ _) h hx⟩

/-- All rows are in the columns. -/
structure Built (plan : Plan) (n : ℕ) (rest : List Ask) (events : List PschEvent)
    (s s' : ExportState ClickHouseExporter) : Prop where
  reached : plan.Reached (route n).asks rest []
  same : Untouched s s'
  sent : s'.sent = s.sent
  columns : s'.exporter.columns = events
  count : s'.exporter.exportedCount = events.length

/-- All rows are in the columns, or something threw, and that was recorded. -/
theorem barred_exportEventStats (events : List PschEvent)
    (h : plan.Reached (route n).asks (.log .buildingRows :: .run .beginBatch ::
      (rowsOnly 0 events.length ++ rest)) []) :
    barred (exportEventStats plan events)
      (fun r s' => SameConnection s.exporter s'.exporter ∧
        ((∃ v, r = some v ∧ v = true ∧ Built plan n rest events s s') ∨
          BrokenOff plan (route n) events s false .zero r s')) s := by
  refine barred_handled ?_
  unfold exportEventStatsInternal
  simp only [wp_bind]
  refine wp_log (fun hlog => ?_) fun hraises => ?_
  · rw [wp_bind]
    change wp (beginBatch plan) _ _ s
    unfold beginBatch
    simp only [wp_bind, wp_modify]
    have h₁ := h.pass hlog
    refine wp_run (fun hbegin => ?_) fun x hx => ?_
    · rw [wp_bind]
      have hrows := wp_exportRows events 0 events
        (⟨rfl, rfl, rfl, rfl⟩ : Untouched s
          { s with exporter.columns := [], exporter.exportedCount := 0 }) (h₁.pass hbegin)
      refine wp_mono hrows ?_ fun _ _ => id
      rintro - s' ⟨hreached, rfl⟩
      refine wp_log (fun hlog' => ?_) fun hraises => ?_
      · exact ⟨⟨rfl, rfl⟩, rfl, hreached.pass hlog', ⟨rfl, rfl, rfl, rfl⟩, rfl, rfl, Nat.zero_add _⟩
      · exact ⟨⟨rfl, rfl⟩, left_of_exit (Or.inr ⟨_, rfl⟩) ⟨rfl, rfl, rfl, rfl⟩ hreached
          (Plan.exit_log hraises)⟩
    · exact ⟨⟨rfl, rfl⟩, left_of_exit (Or.inl ⟨_, rfl⟩) ⟨rfl, rfl, rfl, rfl⟩ h₁ hx⟩
  · exact ⟨⟨rfl, rfl⟩, left_of_exit (Or.inr ⟨_, rfl⟩) (.refl s) h (Plan.exit_log hraises)⟩

/-! ### `CommitBatch` -/

/-- What can fail is handled by `RecordFailure`, with a handler in between or not. -/
theorem handled_call {p : Point} (hp : (∃ m, plan p = .fails m) ∨ ∃ e, plan p = .throws e) :
    (route n).handled plan (.call p) = plan.logged .recordFailure ⟨true, 1, some .batch⟩ := by
  rcases hp with ⟨m, hm⟩ | ⟨e, he⟩
  · exact Plan.handle_of_fails hm
  · exact Plan.handle_of_throws he

/-- How `CommitBatch` ends that began in `s`, in a call that began in `s₀`. -/
structure Commits (plan : Plan) (n : ℕ) (s₀ s : ExportState ClickHouseExporter) (r : Option Bool)
    (s' : ExportState ClickHouseExporter) : Prop where
  wf : s'.exporter.WF
  count : s'.exporter.exportedCount = s.exporter.exportedCount
  ends : r = some true ∧ plan.Served (route n).asks ∧
      s'.acked = s₀.acked ++ [s.exporter.columns] ∧ s'.exported = s₀.exported ∧
      s'.failures = 0 ∧ s'.sendFailures = s₀.sendFailures ∨
    BrokenOff plan (route n) s.exporter.columns s₀ false .batch r s'

variable {s₀ : ExportState ClickHouseExporter}

theorem barred_recordFailure {m : String} {close : Bool} {p : Point} (hwf : s₁.exporter.WF)
    (hcount : s₁.exporter.exportedCount = s.exporter.exportedCount)
    (hp : (∃ m, plan p = .fails m) ∨ ∃ e, plan p = .throws e)
    (hbroken : Broken plan (route n) (.call p) [] .raised s₀ s₁) :
    barred (recordFailure plan m close) (Commits plan n s₀ s) s₁ := by
  have hhandled := handled_call (n := n) hp
  unfold recordFailure closeConnection
  refine barred_log_bind (fun hpass => ?_) fun hraises => ?_
  · have hcounted : ∀ client, Broken plan (route n) (.call p) [] ⟨true, 1, some .batch⟩ s₀
        { s₁ with
          exporter.client := client
          exporter.consecutiveFailures := s₁.exporter.consecutiveFailures + 1
          sendFailures := s₁.sendFailures + 1, lastErrorText := m } :=
      fun _ => hbroken.more (n := 1) rfl rfl rfl rfl (Nat.zero_le _) rfl
    have hoff : ∀ client, BrokenOff plan (route n) s.exporter.columns s₀ false .batch (some false)
        { s₁ with
          exporter.client := client
          exporter.consecutiveFailures := s₁.exporter.consecutiveFailures + 1
          sendFailures := s₁.sendFailures + 1, lastErrorText := m } :=
      fun client => (hcounted client).off List.nil_prefix
        (hhandled.trans (Plan.logged_of_passes hpass)) rfl
    unfold barred
    simp only [wp_bind, wp_modify, wp_recordExporterFailure]
    cases close with
    | true => exact ⟨nofun, hcount, Or.inr (hoff false)⟩
    | false => exact ⟨hwf, hcount, Or.inr (hoff s₁.exporter.client)⟩
  · exact ⟨hwf, hcount, Or.inr (hbroken.off_raised List.nil_prefix
      (hhandled.trans (Plan.logged_of_raises hraises)) rfl)⟩

/-- What leaves the body of `CommitBatch`: an exception, about which nothing has been done, or an
ERROR. -/
def CommitLeft (plan : Plan) (n : ℕ) (s₀ s : ExportState ClickHouseExporter) (x : Exit)
    (s' : ExportState ClickHouseExporter) : Prop :=
  x = .error ∧ Commits plan n s₀ s none s' ∨
    ∃ e p, x = .exception e ∧ plan p = .throws e ∧ s'.exporter.WF ∧
      s'.exporter.exportedCount = s.exporter.exportedCount ∧
      Broken plan (route n) (.call p) [] .raised s₀ s'

theorem commitLeft_of_barred {x : M Bool} (h : barred x (Commits plan n s₀ s) s₁) :
    wp x (fun ok s' => Commits plan n s₀ s (some ok) s') (CommitLeft plan n s₀ s) s₁ :=
  wp_mono h (fun _ _ => id) fun _ _ he => Or.inl he

theorem commitLeft_of_exit {p : Point} {x : Exit} (hx : plan.exit (.call p) = some x)
    (hwf : s₁.exporter.WF) (hcount : s₁.exporter.exportedCount = s.exporter.exportedCount)
    (hbroken : Broken plan (route n) (.call p) [] .raised s₀ s₁) :
    CommitLeft plan n s₀ s x s₁ := by
  cases x with
  | error =>
    have hhandled : (route n).handled plan (.call p) = .raised :=
      Plan.handle_of_raises (Reply.exit_eq_error.mp hx)
    exact Or.inl ⟨rfl, hwf, hcount, Or.inr (hbroken.off_raised List.nil_prefix hhandled rfl)⟩
  | exception e =>
    exact Or.inr ⟨e, p, rfl, Reply.exit_eq_exception.mp hx, hwf, hcount, hbroken⟩

theorem wp_insertBlock (hwf : s.exporter.WF) (hsame : Untouched s₀ s) (hsent : s.sent = 0)
    (h : plan.Reached (route n).asks
      [.call .crunch, .log .inserting, .call (.send 0), .log .inserted] []) :
    wp (insertBlock plan) (fun ok s' => Commits plan n s₀ s (some ok) s')
      (CommitLeft plan n s₀ s) s := by
  have hraised : ∀ {l rest}, plan.Reached (route n).asks (.log l :: rest) [] →
      plan (.log l) = .raises → CommitLeft plan n s₀ s .error s := by
    intro l rest h hraises
    have hbroken : Broken plan (route n) (.log l) [] .raised s₀ s :=
      hsame.broken (h.fault (Plan.not_passes_of_exit (Plan.exit_log hraises)))
        (fun j hj => by cases hj)
    exact Or.inl ⟨rfl, hwf, rfl, Or.inr (hbroken.off_raised List.nil_prefix rfl rfl)⟩
  unfold insertBlock
  simp only [wp_bind]
  refine wp_call (fun hcrunch => ?_) (fun m hm => ?_) fun x hx => ?_
  · have h₁ := h.pass (decide_eq_true hcrunch)
    simp only [wp_bind]
    refine wp_log (fun hlog => ?_) (hraised h₁)
    have h₂ := h₁.pass hlog
    rw [← hsent] at h₂
    have hbroken : plan.passes (.call (.send s.sent)) = false →
        Broken plan (route n) (.call (.send s.sent)) [] .raised s₀
          { s with sent := s.sent + 1 } := by
      intro hfault
      have hsame' : Untouched s₀ { s with sent := s.sent + 1 } :=
        ⟨hsame.acked, hsame.exported, hsame.failures, hsame.recorded⟩
      refine hsame'.broken (h₂.fault hfault) fun j hj => ?_
      cases hj
      exact hsent
    simp only [wp_bind, wp_get]
    refine wp_send (fun hok => ?_) (fun m hm => ?_) fun x hx => ?_
    · have h₃ := h₂.ack hok s.exporter.columns
      simp only [wp_bind, wp_modify]
      have hacked : s.acked ++ [s.exporter.columns] = s₀.acked ++ [s.exporter.columns] := by
        rw [hsame.acked]
      refine wp_log (fun hlog' => ?_) fun hraises => ?_
      · exact ⟨hwf, rfl, Or.inl ⟨rfl, (h₃.pass hlog').served, hacked, hsame.exported, rfl,
          hsame.recorded⟩⟩
      · -- the block is in, and the count of failures is zero
        have hbroken : Broken plan (route n) (.log .inserted) [s.exporter.columns] .raised s₀
            { s with sent := s.sent + 1, acked := s.acked ++ [s.exporter.columns]
                     exporter.consecutiveFailures := 0 } :=
          ⟨h₃.fault (Plan.not_passes_of_exit (Plan.exit_log hraises)), (fun j hj => by cases hj),
            hacked, hsame.exported, rfl, hsame.recorded.trans (UInt64.add_zero _).symm⟩
        exact Or.inl ⟨rfl, hwf, rfl, Or.inr (hbroken.off_raised (by simp) rfl rfl)⟩
    · exact commitLeft_of_barred (barred_recordFailure hwf rfl (Or.inl ⟨m, hm⟩)
        (hbroken (Plan.not_passes_of_fails hm)))
    · exact commitLeft_of_exit hx hwf rfl (hbroken (Plan.not_passes_of_exit hx))
  · exact commitLeft_of_barred (barred_recordFailure hwf rfl (Or.inl ⟨m, hm⟩)
      (hsame.broken (h.fault (Plan.not_passes_of_fails hm)) (fun j hj => by cases hj)))
  · exact commitLeft_of_exit hx hwf rfl
      (hsame.broken (h.fault (Plan.not_passes_of_exit hx)) (fun j hj => by cases hj))

/-- Every failure of `CommitBatch` is recorded and counted, unless an ERROR leaves it. -/
theorem barred_commitBatch (hwf : s.exporter.WF) (hclient : s.exporter.client = true)
    (hsame : Untouched s₀ s) (hsent : s.sent = 0)
    (h : plan.Reached (route n).asks commitAsks []) :
    barred (commitBatch plan) (Commits plan n s₀ s) s := by
  unfold commitBatch ensureClient
  refine wp_catching (M := CommitLeft plan n s₀ s) ?_ ?_ ?_
  · simp only [wp_bind, wp_get, hwf hclient, if_true]
    refine wp_call (fun hok => ?_) (fun m hm => ?_) fun x hx => ?_
    · simp only [wp_bind, wp_get, hclient, if_true, wp_pure]
      exact wp_insertBlock hwf hsame hsent (h.pass (decide_eq_true hok))
    · exact commitLeft_of_barred (barred_recordFailure hwf rfl (Or.inl ⟨m, hm⟩)
        (hsame.broken (h.fault (Plan.not_passes_of_fails hm)) (fun j hj => by cases hj)))
    · exact commitLeft_of_exit hx hwf rfl
        (hsame.broken (h.fault (Plan.not_passes_of_exit hx)) (fun j hj => by cases hj))
  · rintro e s' (⟨hno, -⟩ | ⟨e', p, he, hp, hwf', hcount, hbroken⟩)
    · cases hno
    · cases e <;> exact barred_recordFailure hwf' hcount (Or.inr ⟨e', hp⟩) hbroken
  · rintro s' (⟨-, hcommits⟩ | ⟨e, p, hno, -⟩)
    · exact ⟨rfl, hcommits⟩
    · cases hno

/-! ### The whole call -/

theorem barred_exportAsRows (settings : Settings) (events : List PschEvent) (hevents : events ≠ [])
    (hwf : s.exporter.WF) (hclient : s.exporter.client = true) (hsent : s.sent = 0)
    (h : plan.Reached (route events.length).asks (.log .buildingRows :: .run .beginBatch ::
      (rowsOnly 0 events.length ++ commitAsks)) []) :
    barred (exportAsRows plan events)
      (fun r s' => s'.exporter.WF ∧ Ends plan settings events s r s') s := by
  have hway : PgStatCh.route s.exporter settings events = route events.length := rfl
  unfold exportAsRows barred
  rw [wp_bind]
  refine wp_mono (barred_exportEventStats events h) ?_ ?_
  · rintro ok s₁ ⟨hconn, ⟨v, hok, rfl, hreached, hsame, hsent', hcolumns, hcount⟩ | hoff⟩
    · -- all rows are in the columns
      obtain rfl := Option.some_inj.mp hok
      simp only [if_true, wp_bind]
      refine wp_mono (barred_commitBatch (hconn.wf hwf) (hconn.1.trans hclient) hsame
        (hsent'.trans hsent) hreached) ?_ ?_
      · rintro ok s₂ ⟨hwf₂, hcount₂, hends⟩
        have hnum : numExported s₂.exporter = events.length := hcount₂.trans hcount
        rw [hcolumns] at hends
        rcases hends with ⟨hok, hserved, hacked, hexported, hfailures, hrecorded⟩ | hoff
        · obtain rfl := Option.some_inj.mp hok
          simp only [if_true, wp_bind, wp_get, hnum]
          exact ⟨hwf₂, .exported _ [events] hevents hserved hacked (by simp)
            (congrArg (· + UInt64.ofNat events.length) hexported) hfailures hrecorded⟩
        · obtain ⟨rfl, new, -, hends⟩ := BrokenOff.ends hevents (hway ▸ hoff)
          simp only [Bool.false_eq_true, if_false, wp_bind, wp_get, hnum]
          exact ⟨hwf₂, hends⟩
      · rintro x s₂ ⟨rfl, hwf₂, -, hends⟩
        rw [hcolumns] at hends
        rcases hends with ⟨hno, -⟩ | hoff
        · cases hno
        · exact ⟨rfl, hwf₂, BrokenOff.ends_raised hevents (hway ▸ hoff)⟩
    · obtain ⟨rfl, new, -, hends⟩ := BrokenOff.ends hevents (hway ▸ hoff)
      exact ⟨hconn.wf hwf, hends⟩
  · rintro x s₁ ⟨rfl, hconn, ⟨v, hno, -⟩ | hoff⟩
    · cases hno
    · exact ⟨rfl, hconn.wf hwf, BrokenOff.ends_raised hevents (hway ▸ hoff)⟩

theorem barred_exportEvents (plan : Plan) (settings : Settings) (events : List PschEvent)
    (hwf : s.exporter.WF) (hclient : s.exporter.client = true) (hsent : s.sent = 0) :
    barred (exportEvents plan settings events)
      (fun r s' => s'.exporter.WF ∧ Ends plan settings events s r s') s :=
  barred_exportEvents_of _ hwf rfl rfl fun hevents h =>
    barred_exportAsRows settings events hevents hwf hclient hsent h

instance : LawfulExporter ClickHouseExporter where
  WF := WF
  made := by
    rintro x rfl
    exact nofun
  isConnected_connected := fun _ => rfl
  noRequest := by
    intro c j
    change _ ∉ c.connectAsks
    unfold connectAsks
    split <;> simp
  connectHandled_cases := by
    intro _ plan p
    have hthrew := plan.logged_cases .exportBatch ⟨false, 1, some .zero⟩
    change connectHandled plan p = _ ∨ connectHandled plan p = _
    cases p with
    | connect => exact plan.handle_cases hthrew (plan.logged_cases _ _)
    | _ => exact plan.handle_cases hthrew (Or.inr rfl)
  connect := fun _ _ hwf => wp_establishNewConnection hwf
  exportEvents := fun plan settings events _ => barred_exportEvents plan settings events

end ClickHouseExporter

end PgStatCh
