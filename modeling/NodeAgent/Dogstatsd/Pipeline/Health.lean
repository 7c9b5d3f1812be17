import NodeAgent.Dogstatsd.Pipeline.Accounting

/-!
# Health of the pipeline (`dogstatsd/pipeline.go`)

The goroutine of the pipeline and the handlers of `/readyz` update the health at the same time.
Loads, stores and locked sections are the steps, and they come in any order.

* `readiness_agrees_iff` — when the flag is the conjunction of the map
* `spoolBytes_kept_iff` — when probes keep the measurement of the spool
* `saturated_iff_sustained` — saturation is reported when it is sustained
-/

namespace Dogstatsd

open Infra

/-! ## Steps -/

/-- The goroutine of the pipeline, and the handlers of `/readyz`. -/
inductive Thread where
  | pipeline
  | handler (i : Nat)
  deriving DecidableEq

inductive HealthCall where
  | idle
  -- `Healthy`: before `spoolBytesCurrent.Load`
  | loading
  -- `updateSpoolPressure`: before `spoolBytesCurrent.Store`, and before `Observe`
  | storing (bytes : Int)
  | observing (bytes : Int)
  -- `setComponentHealthy`: before the locked section
  | setting (component : Component) (healthy : Bool)
  -- before `healthy.Store`, with the map as the locked section left it
  | publishing (seen : Health)
  -- `Healthy`: before `healthy.Load`
  | reading

def HealthCall.updates : HealthCall → Bool
  | .setting _ _ | .publishing _ => true
  | _ => false

structure Readiness where
  health : Health
  healthy : Bool
  spoolPressure : PressureState
  spoolBytesCurrent : Int
  calls : Thread → HealthCall
  /-- the thread whose locked section was the last one -/
  locked : Option Thread
  /-- the byte count of the most recent successful `refreshSpoolMetrics`, or the initial one -/
  refreshed : Int

inductive HealthStep where
  -- the pipeline calls `setComponentHealthy`
  | set (component : Component) (healthy : Bool)
  -- the pipeline calls `refreshSpoolMetrics`; `none` if `Maintain` or `Stats` fails
  | refresh (bytes : Option Int)
  -- a handler calls `Healthy`
  | probe (i : Nat)
  -- a call goes on
  | go (t : Thread) (now : Int)

namespace Readiness

def setCall (s : Readiness) (t : Thread) (c : HealthCall) : Readiness :=
  { s with calls := Function.update s.calls t c }

/-- The call of `t` goes on. -/
def go (maxBytes : Int) (s : Readiness) (t : Thread) (now : Int) : Readiness :=
  match s.calls t with
  | .idle => s
  | .loading => s.setCall t (.storing s.spoolBytesCurrent)
  | .storing bytes =>
    { s with
      spoolBytesCurrent := bytes
      refreshed :=
        if t = Thread.pipeline then bytes else s.refreshed }.setCall t (.observing bytes)
  | .observing bytes =>
    let (saturated, spoolPressure) := s.spoolPressure.observe (bytes / maxBytes) now
    { s with spoolPressure }.setCall t (.setting .saturation (!saturated))
  | .setting component healthy =>
    let health : Health := fun c => if c = component then healthy else s.health c
    { s with health, locked := some t }.setCall t (.publishing health)
  | .publishing seen =>
    { s with healthy := overall seen }.setCall t (if t = Thread.pipeline then .idle else .reading)
  | .reading => s.setCall t .idle

def next (maxBytes : Int) (s : Readiness) : HealthStep → Readiness
  | .set component healthy =>
    match s.calls .pipeline with
    | .idle => s.setCall .pipeline (.setting component healthy)
    | _ => s
  | .refresh bytes =>
    match s.calls .pipeline, bytes with
    | .idle, none => s.setCall .pipeline (.setting .spool false)
    | .idle, some bytes => s.setCall .pipeline (.storing bytes)
    | _, _ => s
  | .probe i =>
    match s.calls (.handler i) with
    | .idle => s.setCall (.handler i) .loading
    | _ => s
  | .go t now => s.go maxBytes t now

def start (p : Pipeline) : Readiness :=
  ⟨p.health, p.healthy, p.spoolPressure, p.spoolBytesCurrent, fun _ => .idle, none,
    p.spoolBytesCurrent⟩

def after (p : Pipeline) (steps : List HealthStep) : Readiness :=
  steps.foldl (next p.spool.maxBytes) (start p)

theorem refresh_alone (p : Pipeline) (bytes now : Int) :
    let s := after p (.refresh (some bytes) :: List.replicate 4 (.go .pipeline now))
    let p' := p.updateSpoolPressure bytes now
    s.health = p'.health ∧ s.healthy = p'.healthy ∧ s.spoolPressure = p'.spoolPressure ∧
      s.spoolBytesCurrent = p'.spoolBytesCurrent ∧ ∀ t, s.calls t = .idle := by
  refine ⟨rfl, rfl, rfl, rfl, fun t => ?_⟩
  cases t <;> rfl

end Readiness

variable {maxBytes : Int} {s s' : Readiness} {t : Thread} {c : HealthCall}

/-! ## The flag -/

def Quiet (s : Readiness) : Prop := ∀ t, (s.calls t).updates = false

/-- When no update is in progress, the flag is the conjunction of the map. -/
def Agrees (s : Readiness) : Prop := Quiet s → s.healthy = overall s.health

/-- An update that ends alone was the last one to have the lock, or has computed the conjunction as
it is. -/
def StoresCurrent (s : Readiness) : HealthStep → Prop
  | .go t _ => ∀ seen, s.calls t = .publishing seen →
      (∀ t', t' ≠ t → (s.calls t').updates = false) →
      s.locked = some t ∨ overall seen = overall s.health
  | _ => True

/-- The thread that had the lock last has seen the map as it is. -/
def LockedLast (s : Readiness) : Prop :=
  ∀ t seen, s.locked = some t → s.calls t = .publishing seen → seen = s.health

theorem quiet_setCall (hcalls : s'.calls = Function.update s.calls t c)
    (hsame : c.updates = (s.calls t).updates) : Quiet s' ↔ Quiet s := by
  refine forall_congr' fun t' => ?_
  rw [hcalls]
  by_cases h : t' = t
  · subst h
    rw [Function.update_self, hsame]
  · rw [Function.update_of_ne h]

theorem agrees_of_updates (h : (s.calls t).updates = true) : Agrees s := by
  intro hquiet
  rw [hquiet t] at h
  cases h

theorem LockedLast.setCall (h : LockedLast s) (hcalls : s'.calls = Function.update s.calls t c)
    (hc : ∀ seen, c ≠ .publishing seen) (hlocked : s'.locked = s.locked)
    (hhealth : s'.health = s.health) : LockedLast s' := by
  intro t' seen hl hp
  rw [hcalls] at hp
  by_cases ht : t' = t
  · subst ht
    rw [Function.update_self] at hp
    exact absurd hp (hc seen)
  · rw [Function.update_of_ne ht] at hp
    rw [hhealth]
    exact h t' seen (hlocked ▸ hl) hp

theorem LockedLast.next (h : LockedLast s) (step : HealthStep) :
    LockedLast (s.next maxBytes step) := by
  cases step with
  | set component healthy =>
    simp only [Readiness.next]
    split
    · exact h.setCall rfl (by simp) rfl rfl
    · exact h
  | refresh bytes =>
    simp only [Readiness.next]
    split
    · exact h.setCall rfl (by simp) rfl rfl
    · exact h.setCall rfl (by simp) rfl rfl
    · exact h
  | probe i =>
    simp only [Readiness.next]
    split
    · exact h.setCall rfl (by simp) rfl rfl
    · exact h
  | go t now =>
    simp only [Readiness.next, Readiness.go]
    split
    · exact h
    · exact h.setCall rfl (by simp) rfl rfl
    · exact h.setCall rfl (by simp) rfl rfl
    · exact h.setCall rfl (by simp) rfl rfl
    · -- the locked section
      intro t' seen hl hp
      simp only [Readiness.setCall, Option.some.injEq] at hl hp
      subst hl
      rw [Function.update_self, HealthCall.publishing.injEq] at hp
      exact hp.symm
    · refine h.setCall rfl (fun seen => ?_) rfl rfl
      split <;> simp
    · exact h.setCall rfl (by simp) rfl rfl

theorem Agrees.setCall (h : Agrees s) (hcalls : s'.calls = Function.update s.calls t c)
    (hsame : c.updates = (s.calls t).updates) (hhealthy : s'.healthy = s.healthy)
    (hhealth : s'.health = s.health) : Agrees s' := by
  intro hquiet
  rw [hhealthy, hhealth]
  exact h ((quiet_setCall hcalls hsame).mp hquiet)

theorem Agrees.next (h : Agrees s) (step : HealthStep)
    (hstep : ∀ t now seen, step = .go t now → s.calls t ≠ .publishing seen) :
    Agrees (s.next maxBytes step) := by
  have hupdate : ∀ {s' : Readiness} {t : Thread} {c : HealthCall},
      s'.calls = Function.update s.calls t c → c.updates = true → Agrees s' := by
    intro s' t c hcalls hc
    refine agrees_of_updates (t := t) ?_
    rw [hcalls, Function.update_self, hc]
  cases step with
  | set component healthy =>
    simp only [Readiness.next]
    split
    · exact hupdate rfl rfl
    · exact h
  | refresh bytes =>
    simp only [Readiness.next]
    split
    · exact hupdate rfl rfl
    · next hp => exact h.setCall rfl (by rw [hp]; rfl) rfl rfl
    · exact h
  | probe i =>
    simp only [Readiness.next]
    split
    · next hi => exact h.setCall rfl (by rw [hi]; rfl) rfl rfl
    · exact h
  | go t now =>
    simp only [Readiness.next, Readiness.go]
    split
    · exact h
    · next hc => exact h.setCall rfl (by rw [hc]; rfl) rfl rfl
    · next hc => exact h.setCall rfl (by rw [hc]; rfl) rfl rfl
    · exact hupdate rfl rfl
    · exact hupdate rfl rfl
    · next seen hc => exact absurd hc (hstep t now seen rfl)
    · next hc => exact h.setCall rfl (by rw [hc]; rfl) rfl rfl

theorem quiet_publish {now : Int} {seen : Health} (hc : s.calls t = .publishing seen) :
    Quiet (s.go maxBytes t now) ↔ ∀ t', t' ≠ t → (s.calls t').updates = false := by
  have hgo : (s.go maxBytes t now).calls =
      Function.update s.calls t (if t = Thread.pipeline then .idle else .reading) := by
    simp only [Readiness.go, hc]
    rfl
  unfold Quiet
  rw [hgo]
  constructor
  · intro h t' ht
    have := h t'
    rwa [Function.update_of_ne ht] at this
  · intro h t'
    by_cases ht : t' = t
    · subst ht
      rw [Function.update_self]
      split <;> rfl
    · rw [Function.update_of_ne ht]
      exact h t' ht

/-- **One step.** -/
theorem agrees_next_iff (hlocked : LockedLast s) (h : Agrees s) (step : HealthStep) :
    Agrees (s.next maxBytes step) ↔ StoresCurrent s step := by
  by_cases hstep : ∃ t now seen, step = .go t now ∧ s.calls t = .publishing seen
  · obtain ⟨t, now, seen, rfl, hc⟩ := hstep
    have hflag : (s.go maxBytes t now).healthy = overall seen ∧
        (s.go maxBytes t now).health = s.health := by
      simp only [Readiness.go, hc]
      exact ⟨rfl, rfl⟩
    rw [Readiness.next, Agrees, quiet_publish hc, hflag.1, hflag.2]
    constructor
    · intro hagree seen' hseen' hothers
      rw [hc, HealthCall.publishing.injEq] at hseen'
      exact Or.inr (hseen' ▸ hagree hothers)
    · intro horder hothers
      rcases horder seen hc hothers with hlast | heq
      · rw [hlocked t seen hlast hc]
      · exact heq
  · refine iff_of_true (h.next step fun t now seen he hc => hstep ⟨t, now, seen, he, hc⟩) ?_
    cases step with
    | go t now => exact fun seen hc _ => absurd ⟨t, now, seen, rfl, hc⟩ hstep
    | set component healthy => trivial
    | refresh bytes => trivial
    | probe i => trivial

/-- **Whenever no update is in progress the flag is the conjunction of the map, if and only if every
update that is the last one to end was the last one to have the lock, or has seen the conjunction
as it is.** -/
theorem readiness_agrees_iff (p : Pipeline) (steps : List HealthStep) :
    EveryState (Readiness.next p.spool.maxBytes) Agrees (.start p) steps ↔
      EveryStep (Readiness.next p.spool.maxBytes) StoresCurrent (.start p) steps := by
  refine everyState_iff_everyStep (I := LockedLast) (fun s step h => h.next step)
    (fun s step hI hP => agrees_next_iff hI hP step) steps ?_ fun _ => rfl
  intro t seen hl _
  cases hl

/-- A handler has computed that all is well when the delivery fails; it stores its result last. -/
def overtakenUpdate : List HealthStep :=
  List.flatten [[.probe 0], List.replicate 4 (.go (.handler 0) 0),
    [.set .delivery false, .go .pipeline 0, .go .pipeline 0, .refresh (some 5)],
    List.replicate 4 (.go .pipeline 0), List.replicate 2 (.go (.handler 0) 0)]

/-- **No call is in progress, the delivery has failed, and the flag says that all is well.** -/
theorem overtaken_update_disagrees :
    let s := Readiness.after smallPipeline overtakenUpdate
    (∀ t, s.calls t = .idle) ∧ s.health .delivery = false ∧ s.healthy = true := by
  refine ⟨fun t => ?_, by decide +kernel, by decide +kernel⟩
  rcases t with _ | (_ | i) <;> rfl

/-! ## The measurement of the spool -/

/-- `spoolBytesCurrent` is the byte count of the most recent successful refresh. -/
def Measured (s : Readiness) : Prop := s.spoolBytesCurrent = s.refreshed

/-- What a handler stores is the count of the most recent refresh. -/
def Restores (maxBytes : Int) (s : Readiness) (step : HealthStep) : Prop :=
  ∀ i now loaded, step = .go (.handler i) now → s.calls (.handler i) = .storing loaded →
    Measured (s.next maxBytes step)

/-- The call of a handler goes on. -/
def Goes (i : Nat) (_ : Readiness) (step : HealthStep) : Prop := ∃ now, step = .go (.handler i) now

/-- A handler loads `spoolBytesCurrent`; the most recent refresh has stored `count`. -/
def Loads (i : Nat) (count : Int) (s : Readiness) (step : HealthStep) : Prop :=
  Goes i s step ∧ s.calls (.handler i) = .loading ∧ s.refreshed = count

/-- No refresh has stored another count since a handler has loaded when that handler stores. -/
def NotOvertaken (p : Pipeline) (pre : List HealthStep) (step : HealthStep) : Prop :=
  ∀ i now loaded count, step = .go (.handler i) now →
    (Readiness.after p pre).calls (.handler i) = .storing loaded →
    Since (Readiness.next p.spool.maxBytes) (Loads i count) (Goes i) (.start p) pre →
    (Readiness.after p pre).refreshed = count

/-- **One step.** -/
theorem Measured.next (h : Measured s) (step : HealthStep) (hstores : Restores maxBytes s step) :
    Measured (s.next maxBytes step) := by
  cases step with
  | set component healthy =>
    simp only [Readiness.next]
    split <;> exact h
  | refresh bytes =>
    simp only [Readiness.next]
    split <;> exact h
  | probe i =>
    simp only [Readiness.next]
    split <;> exact h
  | go t now =>
    cases hc : s.calls t with
    | storing loaded =>
      cases t with
      | pipeline =>
        simp only [Readiness.next, Readiness.go, hc]
        rfl
      | handler i => exact hstores i now loaded rfl hc
    | _ =>
      simp only [Readiness.next, Readiness.go, hc]
      exact h

theorem measured_store {i : Nat} {now loaded : Int}
    (hc : s.calls (.handler i) = .storing loaded) :
    Measured (s.next maxBytes (.go (.handler i) now)) ↔ s.refreshed = loaded := by
  simp only [Readiness.next, Readiness.go, hc]
  exact eq_comm

/-- A handler is about to store what it has loaded, or it has done so just now. -/
theorem calls_next_storing {i : Nat} {loaded : Int} {step : HealthStep}
    (h : (s.next maxBytes step).calls (.handler i) = .storing loaded) :
    (Goes i s step ∧ s.calls (.handler i) = .loading ∧ loaded = s.spoolBytesCurrent) ∨
      (¬ Goes i s step ∧ s.calls (.handler i) = .storing loaded) := by
  have hother : ∀ {t : Thread} {c : HealthCall} {s' : Readiness}, t ≠ .handler i →
      s'.calls = Function.update s.calls t c → s'.calls (.handler i) = s.calls (.handler i) := by
    intro t c s' ht hcalls
    rw [hcalls, Function.update_of_ne (Ne.symm ht)]
  cases step with
  | set component healthy =>
    refine .inr ⟨(fun ⟨_, he⟩ => nomatch he), ?_⟩
    simp only [Readiness.next] at h
    split at h
    · exact (hother (t := .pipeline) nofun rfl).symm.trans h
    · exact h
  | refresh bytes =>
    refine .inr ⟨(fun ⟨_, he⟩ => nomatch he), ?_⟩
    simp only [Readiness.next] at h
    split at h
    · exact (hother (t := .pipeline) nofun rfl).symm.trans h
    · exact (hother (t := .pipeline) nofun rfl).symm.trans h
    · exact h
  | probe j =>
    refine .inr ⟨(fun ⟨_, he⟩ => nomatch he), ?_⟩
    simp only [Readiness.next] at h
    split at h
    · by_cases hj : j = i
      · subst hj
        simp [Readiness.setCall] at h
      · exact (hother (t := .handler j) (fun he => hj (Thread.handler.inj he)) rfl).symm.trans h
    · exact h
  | go t now =>
    by_cases ht : t = .handler i
    · subst ht
      refine .inl ⟨⟨now, rfl⟩, ?_⟩
      simp only [Readiness.next, Readiness.go] at h
      split at h <;> simp_all [Readiness.setCall]
    · refine .inr ⟨?_, ?_⟩
      · rintro ⟨now', he⟩
        exact ht (HealthStep.go.inj he).1
      · have hcalls : (s.next maxBytes (.go t now)).calls = s.calls ∨
            ∃ c, (s.next maxBytes (.go t now)).calls = Function.update s.calls t c := by
          simp only [Readiness.next, Readiness.go]
          split
          · exact .inl rfl
          all_goals exact .inr ⟨_, rfl⟩
        rcases hcalls with hsame | ⟨c, hupdate⟩
        · rw [← hsame, h]
        · exact (hother ht hupdate).symm.trans h

/-- The measurement is kept, and a handler that is about to store has loaded the count of the most
recent refresh at that time. -/
structure Tracked (p : Pipeline) (pre : List HealthStep) : Prop where
  measured : Measured (Readiness.after p pre)
  loaded : ∀ i loaded, (Readiness.after p pre).calls (.handler i) = .storing loaded → ∀ count,
    Since (Readiness.next p.spool.maxBytes) (Loads i count) (Goes i) (.start p) pre ↔
      count = loaded

theorem Tracked.next {p : Pipeline} {pre : List HealthStep} {step : HealthStep}
    (h : Tracked p pre) (hstores : Restores p.spool.maxBytes (Readiness.after p pre) step) :
    Tracked p (pre ++ [step]) := by
  have hafter : Readiness.after p (pre ++ [step]) =
      (Readiness.after p pre).next p.spool.maxBytes step := List.foldl_concat ..
  refine ⟨hafter ▸ h.measured.next step hstores, fun i loaded hc count => ?_⟩
  rw [hafter] at hc
  rw [since_concat]
  show Loads i count (Readiness.after p pre) step ∨ _ ∧ ¬ Goes i (Readiness.after p pre) step ↔ _
  rcases calls_next_storing hc with ⟨hgoes, hloading, rfl⟩ | ⟨hgoes, hold⟩
  · have hmeasured : (Readiness.after p pre).spoolBytesCurrent =
        (Readiness.after p pre).refreshed := h.measured
    rw [or_iff_left fun hand => hand.2 hgoes, hmeasured]
    exact ⟨fun hloads => hloads.2.2.symm, fun heq => ⟨hgoes, hloading, heq.symm⟩⟩
  · rw [or_iff_right fun hloads : Loads i count _ step => hgoes hloads.1, h.loaded i loaded hold,
      and_iff_left hgoes]

theorem tracked_nil (p : Pipeline) : Tracked p [] := ⟨rfl, fun _ _ hc => nomatch hc⟩

theorem Tracked.restores_iff {p : Pipeline} {pre : List HealthStep} {step : HealthStep}
    (h : Tracked p pre) :
    Restores p.spool.maxBytes (Readiness.after p pre) step ↔ NotOvertaken p pre step := by
  constructor
  · rintro hstores i now loaded count rfl hc hsince
    rw [(h.loaded i loaded hc count).mp hsince]
    exact (measured_store hc).mp (hstores i now loaded rfl hc)
  · rintro hnot i now loaded rfl hc
    refine (measured_store hc).mpr (hnot i now loaded loaded rfl hc ?_)
    exact (h.loaded i loaded hc loaded).mpr rfl

/-- **Probes keep the measurement of the spool if and only if no refresh stores another count
between the load of a probe and its store.** -/
theorem spoolBytes_kept_iff (p : Pipeline) (steps : List HealthStep) :
    (EveryState (Readiness.next p.spool.maxBytes) (fun s => (∀ t, s.calls t = .idle) → Measured s)
        (.start p) steps ∧
      EveryStep (Readiness.next p.spool.maxBytes) (Restores p.spool.maxBytes) (.start p) steps) ↔
      ∀ pre step rest, steps = pre ++ step :: rest → NotOvertaken p pre step := by
  constructor
  · rintro ⟨-, hstores⟩ pre step rest hsplit
    rw [everyStep_iff_split] at hstores
    have htracked : Tracked p pre :=
      holds_of_history (tracked_nil p) (fun pre step h => h.next) hstores pre _ hsplit
    exact htracked.restores_iff.mp (hstores pre step rest hsplit)
  · intro hnot
    have htracked := holds_of_history (tracked_nil p)
      (fun pre step h hpre => h.next (h.restores_iff.mpr hpre)) hnot
    have hstores : EveryStep (Readiness.next p.spool.maxBytes) (Restores p.spool.maxBytes)
        (.start p) steps := by
      rw [everyStep_iff_split]
      intro pre step rest hsplit
      exact (htracked pre _ hsplit).restores_iff.mpr (hnot pre step rest hsplit)
    refine ⟨?_, hstores⟩
    refine everyState_of_everyStep (I := Measured) ?_ ?_ steps rfl hstores
    · exact fun s step hs => hs.next step
    · exact fun s hs _ => hs

/-- A handler loads the old count, the pipeline stores a new one, and the handler stores. -/
def overtakenProbe : List HealthStep :=
  List.flatten [[.refresh (some 1)], List.replicate 4 (.go .pipeline 0),
    [.probe 0, .go (.handler 0) 0, .refresh (some 5)], List.replicate 4 (.go .pipeline 0),
    List.replicate 5 (.go (.handler 0) 0)]

/-- **No call is in progress, and the count is an old one.** -/
theorem overtaken_probe_restores :
    let s := Readiness.after smallPipeline overtakenProbe
    (∀ t, s.calls t = .idle) ∧ s.refreshed = 5 ∧ s.spoolBytesCurrent = 1 := by
  refine ⟨fun t => ?_, by decide +kernel, by decide +kernel⟩
  rcases t with _ | (_ | i) <;> rfl

/-! ## Sustained saturation -/

structure Observation where
  utilization : ℚ
  now : Int

def newPressureState (threshold : ℚ) (duration : Int) : PressureState := ⟨threshold, duration, none⟩

/-- The state after some observations, whoever makes them. -/
def PressureState.after (p : PressureState) (seen : List Observation) : PressureState :=
  seen.foldl (fun p o => (p.observe o.utilization o.now).2) p

/-- Consecutive observations up to the last one, `first` and then `rest`, all at or above the
threshold. -/
def Unbroken (threshold : ℚ) (first : Observation) (rest seen : List Observation) : Prop :=
  first :: rest <:+ seen ∧ ∀ x ∈ first :: rest, threshold ≤ x.utilization

section Pressure

variable {threshold : ℚ} {duration : Int} {o x : Observation} {rest seen : List Observation}
  {p : PressureState}

theorem unbroken_concat (h : threshold ≤ o.utilization) :
    Unbroken threshold x rest (seen ++ [o]) ↔
      (x = o ∧ rest = []) ∨ ∃ rest', rest = rest' ++ [o] ∧ Unbroken threshold x rest' seen := by
  constructor
  · rintro ⟨hsuffix, habove⟩
    obtain hnil | ⟨run, hrun, hshort⟩ := List.suffix_concat_iff.mp hsuffix
    · cases hnil
    · cases run with
      | nil =>
        cases hrun
        exact Or.inl ⟨rfl, rfl⟩
      | cons y rest' =>
        cases hrun
        exact Or.inr ⟨rest', rfl, hshort, fun z hz => habove z (List.mem_append_left [o] hz)⟩
  · rintro (⟨rfl, rfl⟩ | ⟨rest', rfl, hsuffix, habove⟩)
    · exact ⟨List.suffix_append seen [x], by simpa using h⟩
    · refine ⟨List.suffix_concat_iff.mpr (Or.inr ⟨x :: rest', rfl, hsuffix⟩), fun z hz => ?_⟩
      rcases List.mem_append.mp (show z ∈ (x :: rest') ++ [o] from hz) with hz | hz
      · exact habove z hz
      · rwa [List.mem_singleton.mp hz]

theorem not_unbroken_concat (h : o.utilization < threshold) :
    ¬ Unbroken threshold x rest (seen ++ [o]) := by
  rintro ⟨hsuffix, habove⟩
  obtain hnil | ⟨run, hrun, -⟩ := List.suffix_concat_iff.mp hsuffix
  · cases hnil
  · exact absurd (habove o (by rw [hrun]; simp)) (not_le.mpr h)

/-- `since` is the time at which the longest unbroken run began. -/
structure Tracks (threshold : ℚ) (duration : Int) (p : PressureState) (seen : List Observation) :
    Prop where
  threshold_eq : p.threshold = threshold
  duration_eq : p.duration = duration
  began : ∀ t, p.since = some t → ∃ first rest, Unbroken threshold first rest seen ∧ first.now = t
  longest : ∀ first rest, Unbroken threshold first rest seen →
    ∃ t, p.since = some t ∧ t ≤ first.now

theorem Tracks.observe (h : Tracks threshold duration p seen)
    (hlast : ∀ x ∈ seen, x.now ≤ o.now) :
    Tracks threshold duration (p.observe o.utilization o.now).2 (seen ++ [o]) := by
  obtain ⟨rfl, rfl, hbegan, hlongest⟩ := h
  unfold PressureState.observe
  split
  · next hbelow =>
    exact ⟨rfl, rfl, nofun, fun _ _ hrun => absurd hrun (not_unbroken_concat hbelow)⟩
  next hnot =>
  have habove : p.threshold ≤ o.utilization := not_lt.mp hnot
  refine ⟨rfl, rfl, ?_, ?_⟩
  · intro t ht
    cases hsince : p.since with
    | none =>
      rw [hsince] at ht
      cases ht
      exact ⟨o, [], (unbroken_concat habove).mpr (Or.inl ⟨rfl, rfl⟩), rfl⟩
    | some t' =>
      rw [hsince] at ht
      cases ht
      obtain ⟨first, rest, hrun, hfirst⟩ := hbegan t' hsince
      exact ⟨first, rest ++ [o], (unbroken_concat habove).mpr (Or.inr ⟨rest, rfl, hrun⟩), hfirst⟩
  · intro first rest hrun
    refine ⟨_, rfl, ?_⟩
    rcases (unbroken_concat habove).mp hrun with ⟨rfl, rfl⟩ | ⟨rest', rfl, hrun'⟩
    · cases hsince : p.since with
      | none => exact le_refl _
      | some t =>
        obtain ⟨y, rest, hy, rfl⟩ := hbegan t hsince
        exact hlast y (hy.1.mem List.mem_cons_self)
    · obtain ⟨t, ht, hle⟩ := hlongest first rest' hrun'
      rw [ht]
      exact hle

theorem tracks_after (threshold : ℚ) (duration : Int)
    (h : seen.Pairwise (fun x y => x.now ≤ y.now)) :
    Tracks threshold duration ((newPressureState threshold duration).after seen) seen := by
  induction seen using List.reverseRecOn with
  | nil =>
    refine ⟨rfl, rfl, nofun, fun first rest hrun => ?_⟩
    exact absurd (List.suffix_nil.mp hrun.1) (List.cons_ne_nil first rest)
  | append_singleton seen o ih =>
    obtain ⟨hseen, -, hlast⟩ := List.pairwise_append.mp h
    rw [PressureState.after, List.foldl_concat]
    exact (ih hseen).observe fun x hx => hlast x hx o (List.mem_singleton_self o)

/-- **Saturation is reported exactly when it is sustained.** An observation that follows those of
`seen` reports it if and only if it ends an unbroken run that began at least `duration` before;
it does not within `duration` of any observation below the threshold. -/
theorem saturated_iff_sustained
    (h : (seen ++ [o]).Pairwise (fun x y => x.now ≤ y.now)) :
    let saturated :=
      (((newPressureState threshold duration).after seen).observe o.utilization o.now).1
    (saturated = true ↔ ∃ first rest, Unbroken threshold first rest (seen ++ [o]) ∧
      duration ≤ o.now - first.now) ∧
    ∀ x ∈ seen, x.utilization < threshold → saturated = true → duration ≤ o.now - x.now := by
  obtain ⟨hseen, -, hlast⟩ := List.pairwise_append.mp h
  have htracks := tracks_after threshold duration hseen
  have hiff : (((newPressureState threshold duration).after seen).observe o.utilization o.now).1 =
      true ↔ ∃ first rest, Unbroken threshold first rest (seen ++ [o]) ∧
        duration ≤ o.now - first.now := by
    have hnext := htracks.observe fun x hx => hlast x hx o (List.mem_singleton_self o)
    generalize (newPressureState threshold duration).after seen = p at hnext htracks
    obtain ⟨rfl, rfl, -, -⟩ := htracks
    unfold PressureState.observe at hnext ⊢
    split
    · next hbelow =>
      refine iff_of_false Bool.false_ne_true ?_
      rintro ⟨first, rest, hrun, -⟩
      exact not_unbroken_concat hbelow hrun
    next hnot =>
    rw [if_neg hnot] at hnext
    rw [decide_eq_true_iff]
    constructor
    · intro hlong
      obtain ⟨first, rest, hrun, hfirst⟩ := hnext.began _ rfl
      exact ⟨first, rest, hrun, hfirst ▸ hlong⟩
    · rintro ⟨first, rest, hrun, hlong⟩
      obtain ⟨t, ht, hle⟩ := hnext.longest first rest hrun
      cases ht
      omega
  refine ⟨hiff, fun x hx hbelow hsaturated => ?_⟩
  -- the run began after `x`
  obtain ⟨first, rest, ⟨⟨skipped, hsplit⟩, habove⟩, hlong⟩ := hiff.mp hsaturated
  rw [← hsplit, List.pairwise_append] at h
  have hmem : x ∈ skipped ++ first :: rest := hsplit ▸ List.mem_append_left [o] hx
  rcases List.mem_append.mp hmem with hskipped | hrun
  · have := h.2.2 x hskipped first List.mem_cons_self
    omega
  · exact absurd (habove x hrun) (not_le.mpr hbelow)

/-- Two readings above the threshold, one minute apart, with a probe between them. -/
theorem saturated_iff_sustained_minute :
    (((newPressureState (4 / 5) 60).after [⟨9 / 10, 100⟩, ⟨9 / 10, 130⟩]).observe (9 / 10) 160).1 =
      true := by
  have hsorted : ([⟨9 / 10, 100⟩, ⟨9 / 10, 130⟩] ++ [⟨9 / 10, 160⟩] : List Observation).Pairwise
      (fun x y => x.now ≤ y.now) := by decide +kernel
  refine (saturated_iff_sustained hsorted).1.mpr ⟨_, _, ⟨List.suffix_rfl, ?_⟩, by decide⟩
  decide +kernel

end Pressure

end Dogstatsd
