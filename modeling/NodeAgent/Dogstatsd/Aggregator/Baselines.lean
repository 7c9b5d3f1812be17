import NodeAgent.Infra.Sequences
import NodeAgent.Dogstatsd.Aggregator.Adding
import NodeAgent.Dogstatsd.Aggregator.Bound

/-!
# The baselines of gauges

A relative update adds to what the gauge showed before, unless that was longer ago than the TTL.
Expired baselines are removed once in an interval. A call that finds its own baseline expired when
no pruning is due adds to it all the same.

* `baseline_live_iff` — when an update starts from what its gauge says
* `gauges_fold_iff` — when gauges show the fold of their updates
-/

namespace Dogstatsd

open Infra

/-! ## The updates of a gauge -/

structure TimedUpdate where
  key : Bytes
  relative : Bool
  value : ℚ
  time : Int

/-- What an update adds to: what the gauge showed last, or zero if that is longer ago than the
TTL. -/
def liveValue (ttl now : Int) : Option (ℚ × Int) → ℚ
  | none => 0
  | some (value, last) => if now - last > ttl then 0 else value

/-- The value of the gauge and the time of its last update. -/
def TimedUpdate.apply (ttl : Int) (before : Option (ℚ × Int)) (u : TimedUpdate) :
    Option (ℚ × Int) :=
  some (if u.relative then liveValue ttl u.time before + u.value else u.value, u.time)

def foldUpdates (ttl : Int) (updates : List TimedUpdate) (key : Bytes) : Option (ℚ × Int) :=
  (updates.filter (fun u => u.key = key)).foldl (TimedUpdate.apply ttl) none

theorem foldUpdates_own (ttl : Int) (updates : List TimedUpdate) (u : TimedUpdate) :
    foldUpdates ttl (updates ++ [u]) u.key = u.apply ttl (foldUpdates ttl updates u.key) := by
  simp [foldUpdates, List.filter_append]

theorem foldUpdates_other (ttl : Int) (updates : List TimedUpdate) {u : TimedUpdate} {key : Bytes}
    (h : u.key ≠ key) : foldUpdates ttl (updates ++ [u]) key = foldUpdates ttl updates key := by
  simp [foldUpdates, List.filter_append, h]

/-! ## Runs -/

/-- An aggregator with the updates of gauges it has accepted and the time of the last `Add`. -/
structure Tracking where
  sys : Flushing
  updates : List TimedUpdate
  latest : Option Int

namespace Tracking

variable (formatFloat : ℚ → Bytes)

def updateOf (metric : Metric) (tags : Labels) (clock : Int) : TimedUpdate :=
  ⟨metric.aggregationKey tags, metric.relative, metric.value, metric.receivedAt.getD clock⟩

def step (s : Tracking) (next : FlushStep) : Tracking :=
  match next with
  | .add metric tags clock =>
    ⟨s.sys.step formatFloat next,
      if metric.type = .gauge ∧ (s.sys.agg.add metric tags clock).2 = none then
        s.updates ++ [updateOf metric tags clock]
      else s.updates,
      some (metric.receivedAt.getD clock)⟩
  | _ => { s with sys := s.sys.step formatFloat next }

/-- A call of `Add` is accepted, and its time is not before that of the call before. -/
def InOrder (s : Tracking) : FlushStep → Prop
  | .add metric tags clock => (s.sys.agg.add metric tags clock).2 = none ∧
    ∀ t, s.latest = some t → t ≤ metric.receivedAt.getD clock
  | _ => True

/-- After an update, the gauge shows the fold of its own updates. -/
def ShowsFold (s : Tracking) (next : FlushStep) : Prop :=
  match next with
  | .add metric tags _ => metric.type = .gauge →
    ((s.step formatFloat next).sys.agg.series.lookup (metric.aggregationKey tags)).map
        AggregateState.value =
      (foldUpdates s.sys.agg.cfg.gaugeTTL (s.step formatFloat next).updates
        (metric.aggregationKey tags)).map Prod.fst
  | _ => True

/-- A relative update of a gauge that shows something finds its baseline alive, or a pruning is
due. -/
def FindsLive (s : Tracking) : FlushStep → Prop
  | .add metric tags clock => metric.type = .gauge → metric.relative = true →
    ∀ b, s.sys.agg.gauges.lookup (metric.aggregationKey tags) = some b → b.value ≠ 0 →
      s.sys.agg.Expired (metric.receivedAt.getD clock) b →
      s.sys.agg.PruneDue (metric.receivedAt.getD clock)
  | _ => True

end Tracking

/-! ## The invariant -/

/-- The baselines are those of the updates, and those that are missing have expired. -/
structure Faithful (ttl : Int) (updates : List TimedUpdate) (latest : Option Int)
    (a : Aggregator) : Prop where
  gaugeTTL : a.cfg.gaugeTTL = ttl
  kept : ∀ k b, a.gauges.lookup k = some b → foldUpdates ttl updates k = some (b.value, b.lastSeen)
  gone : ∀ k value last, foldUpdates ttl updates k = some (value, last) →
    a.gauges.lookup k = none → ∃ t, latest = some t ∧ last < t - ttl

namespace Faithful

variable {ttl now : Int} {updates : List TimedUpdate} {latest : Option Int} {a : Aggregator}

theorem pruneGauges (h : Faithful ttl updates latest a) (hlater : ∀ t, latest = some t → t ≤ now) :
    Faithful ttl updates (some now) (a.pruneGauges now) := by
  refine ⟨?_, fun k b hb => ?_, fun k value last hfold hnone => ⟨now, rfl, ?_⟩⟩
  · rw [(Aggregator.pruned_pruneGauges a now).cfg, h.gaugeTTL]
  · rw [Aggregator.lookup_pruneGauges, Option.filter_eq_some_iff] at hb
    exact h.kept k b hb.1
  · cases hb : a.gauges.lookup k with
    | none =>
      obtain ⟨t, ht, hlast⟩ := h.gone k value last hfold hb
      have := hlater t ht
      omega
    | some b =>
      have hpruned : a.PruneDue now ∧ a.Expired now b := by
        by_contra hkept
        rw [Aggregator.lookup_pruneGauges_kept hb hkept] at hnone
        cases hnone
      have hexpired := hpruned.2
      rw [Aggregator.Expired, h.gaugeTTL] at hexpired
      have hsame := hfold.symm.trans (h.kept k b hb)
      cases hsame
      exact hexpired

/-- **An update starts from what its gauge says, if and only if it does not find an expired baseline
that no pruning removes.** -/
theorem baseline_live_iff (h : Faithful ttl updates latest a)
    (hlater : ∀ t, latest = some t → t ≤ now) (key : Bytes) :
    ((a.pruneGauges now).baseline key).value = liveValue ttl now (foldUpdates ttl updates key) ↔
      ∀ b, a.gauges.lookup key = some b → b.value ≠ 0 → a.Expired now b → a.PruneDue now := by
  unfold Aggregator.baseline
  cases hb : a.gauges.lookup key with
  | none =>
    rw [Aggregator.lookup_pruneGauges_none hb]
    refine iff_of_true ?_ (fun b hb' => by cases hb')
    cases hfold : foldUpdates ttl updates key with
    | none => rfl
    | some last =>
      obtain ⟨t, ht, hlast⟩ := h.gone key last.1 last.2 hfold hb
      have := hlater t ht
      exact (if_pos (by omega)).symm
  | some b =>
    have hfold := h.kept key b hb
    have hexpired_iff : a.Expired now b ↔ now - b.lastSeen > ttl := by
      rw [Aggregator.Expired, h.gaugeTTL]
      omega
    rw [hfold]
    by_cases hexpired : a.Expired now b
    · have hzero : liveValue ttl now (some (b.value, b.lastSeen)) = 0 :=
        if_pos (hexpired_iff.mp hexpired)
      rw [hzero]
      by_cases hdue : a.PruneDue now
      · rw [Aggregator.lookup_pruneGauges_expired hb hdue hexpired]
        exact iff_of_true rfl fun _ _ _ _ => hdue
      · rw [Aggregator.lookup_pruneGauges_kept hb fun hboth => hdue hboth.1, Option.getD_some]
        constructor
        · intro hvalue b' hb' hne
          cases hb'
          exact absurd hvalue hne
        · intro hall
          by_contra hne
          exact hdue (hall b rfl hne hexpired)
    · have hlive : liveValue ttl now (some (b.value, b.lastSeen)) = b.value :=
        if_neg fun hgt => hexpired (hexpired_iff.mpr hgt)
      rw [Aggregator.lookup_pruneGauges_kept hb fun hboth => hexpired hboth.2, hlive]
      refine iff_of_true rfl fun b' hb' _ hexpired' => ?_
      cases hb'
      exact absurd hexpired' hexpired

theorem gaugeValue_iff (h : Faithful ttl updates latest a) (metric : Metric) (tags : Labels)
    (clock : Int) (hlater : ∀ t, latest = some t → t ≤ metric.receivedAt.getD clock) :
    some ((a.pruneGauges (metric.receivedAt.getD clock)).gaugeValue (metric.aggregationKey tags)
        metric) = (foldUpdates ttl (updates ++ [Tracking.updateOf metric tags clock])
          (metric.aggregationKey tags)).map Prod.fst ↔
      (metric.relative = true →
        ∀ b, a.gauges.lookup (metric.aggregationKey tags) = some b → b.value ≠ 0 →
          a.Expired (metric.receivedAt.getD clock) b →
          a.PruneDue (metric.receivedAt.getD clock)) := by
  rw [← h.baseline_live_iff hlater (metric.aggregationKey tags)]
  have hown := foldUpdates_own ttl updates (Tracking.updateOf metric tags clock)
  rw [show (Tracking.updateOf metric tags clock).key = metric.aggregationKey tags from rfl] at hown
  rw [hown]
  unfold Aggregator.gaugeValue TimedUpdate.apply Tracking.updateOf
  cases metric.relative with
  | false => simp
  | true => simp

theorem update {u : TimedUpdate} {a' : Aggregator} {bytes : Int}
    (h : Faithful ttl updates (some u.time) a) (hcfg : a'.cfg = a.cfg) {value : ℚ}
    (hvalue : some value = (foldUpdates ttl (updates ++ [u]) u.key).map Prod.fst)
    (hgauges : a'.gauges = a.gauges.insert u.key ⟨value, u.time, bytes⟩) :
    Faithful ttl (updates ++ [u]) (some u.time) a' := by
  refine ⟨hcfg ▸ h.gaugeTTL, fun k b hb => ?_, fun k v last hfold hnone => ?_⟩
  · rw [hgauges] at hb
    rcases Dict.of_lookup_insert hb with ⟨rfl, rfl⟩ | ⟨hne, hb⟩
    · rw [foldUpdates_own] at hvalue ⊢
      cases hvalue
      rfl
    · rw [foldUpdates_other ttl updates (Ne.symm hne)]
      exact h.kept k b hb
  · rw [hgauges] at hnone
    by_cases hk : k = u.key
    · rw [hk, AList.lookup_insert] at hnone
      cases hnone
    · rw [AList.lookup_insert_ne hk] at hnone
      rw [foldUpdates_other ttl updates (Ne.symm hk)] at hfold
      exact h.gone k v last hfold hnone

end Faithful

/-! ## Runs keep it -/

namespace Tracking

variable {formatFloat : ℚ → Bytes} {ttl : Int} {s : Tracking} {metric : Metric} {tags : Labels}
  {clock : Int}

/-- The invariant of a run. -/
def Follows (ttl : Int) (s : Tracking) : Prop := Faithful ttl s.updates s.latest s.sys.agg

theorem agg_step_add : (s.step formatFloat (.add metric tags clock)).sys.agg =
    (s.sys.agg.add metric tags clock).1 := rfl

theorem Follows.flush {next : FlushStep} (h : Follows ttl s)
    (hne : ∀ metric tags clock, next ≠ .add metric tags clock) :
    Follows ttl (s.step formatFloat next) := by
  have hsame : (s.sys.step formatFloat next).agg.cfg = s.sys.agg.cfg ∧
      (s.sys.step formatFloat next).agg.gauges = s.sys.agg.gauges := by
    cases next with
    | add metric tags clock => exact absurd rfl (hne metric tags clock)
    | rotate =>
      by_cases hwaits : s.sys.agg.inflight = []
      · rw [Flushing.step, Aggregator.rotate_of_none hwaits]
        exact ⟨rfl, rfl⟩
      · rw [Flushing.step, Aggregator.rotate_of_waiting hwaits]
        exact ⟨rfl, rfl⟩
    | publish index atMillis =>
      simp only [Flushing.step]
      split <;> exact ⟨rfl, rfl⟩
    | commit => exact ⟨rfl, rfl⟩
  have hfaithful : Faithful ttl s.updates s.latest (s.sys.step formatFloat next).agg := by
    refine ⟨hsame.1 ▸ h.gaugeTTL, ?_, ?_⟩
    · rw [hsame.2]
      exact h.kept
    · rw [hsame.2]
      exact h.gone
  cases next with
  | add metric tags clock => exact absurd rfl (hne metric tags clock)
  | rotate | publish | commit => exact hfaithful

theorem value_of_added (hgauge : metric.type = .gauge)
    (h : (s.sys.agg.add metric tags clock).2 = none) :
    ((s.sys.agg.add metric tags clock).1.series.lookup (metric.aggregationKey tags)).map
      AggregateState.value = some ((s.sys.agg.pruneGauges (metric.receivedAt.getD clock)).gaugeValue
        (metric.aggregationKey tags) metric) := by
  rw [(Aggregator.add_accepted h).series, if_pos rfl, Option.map_some]
  unfold AggregateState.absorb
  rw [hgauge]

/-- **An accepted update shows the fold if and only if it finds its baseline alive.** -/
theorem showsFold_iff {next : FlushStep} (h : Follows ttl s) (horder : s.InOrder next) :
    s.ShowsFold formatFloat next ↔ s.FindsLive next := by
  cases next with
  | rotate | publish | commit => exact Iff.rfl
  | add metric tags clock =>
    obtain ⟨haccepted, hlater⟩ := horder
    refine forall_congr' fun hgauge => ?_
    rw [agg_step_add, value_of_added hgauge haccepted, ← h.gaugeValue_iff metric tags clock hlater,
      h.gaugeTTL]
    show _ = (foldUpdates ttl (if _ then _ else _) _).map _ ↔ _
    rw [if_pos ⟨hgauge, haccepted⟩]

theorem Follows.step {next : FlushStep} (h : Follows ttl s) (horder : s.InOrder next)
    (hlive : s.FindsLive next) : Follows ttl (s.step formatFloat next) := by
  cases next with
  | rotate => exact h.flush fun _ _ _ => by simp
  | publish => exact h.flush fun _ _ _ => by simp
  | commit => exact h.flush fun _ _ _ => by simp
  | add metric tags clock =>
    obtain ⟨haccepted, hlater⟩ := horder
    have hadded := Aggregator.add_accepted haccepted
    have hpruned := h.pruneGauges hlater
    have hcfg := (Aggregator.pruned_pruneGauges s.sys.agg (metric.receivedAt.getD clock)).cfg
    by_cases hgauge : metric.type = .gauge
    · have hgauges := hadded.gauges
      rw [if_pos hgauge] at hgauges
      have hvalue := (h.gaugeValue_iff metric tags clock hlater).mpr (hlive hgauge)
      have hnew : Faithful ttl (s.updates ++ [updateOf metric tags clock])
          (some (metric.receivedAt.getD clock)) (s.sys.agg.add metric tags clock).1 :=
        hpruned.update (u := updateOf metric tags clock) (hadded.cfg.trans hcfg.symm) hvalue hgauges
      show Faithful ttl (if _ then _ else _) _ _
      rw [if_pos ⟨hgauge, haccepted⟩]
      exact hnew
    · have hgauges := hadded.gauges
      rw [if_neg hgauge] at hgauges
      show Faithful ttl (if _ then _ else _) _ _
      rw [if_neg fun hboth => hgauge hboth.1]
      refine ⟨hadded.cfg ▸ h.gaugeTTL, ?_, ?_⟩
      · rw [agg_step_add, hgauges]
        exact hpruned.kept
      · rw [agg_step_add, hgauges]
        exact hpruned.gone

def start (a : Aggregator) : Tracking := ⟨⟨a, []⟩, [], none⟩

theorem follows_start {cfg : AggregationConfig} {a : Aggregator} (h : newAggregator cfg = .ok a) :
    Follows cfg.gaugeTTL (start a) := by
  obtain ⟨hvalid, rfl⟩ := newAggregator_ok h
  refine ⟨rfl, fun k b hb => ?_, fun k value last hfold => ?_⟩
  · cases hb
  · cases hfold

/-- **In every run of accepted calls of `Add` in the order of their times, with flushes anywhere
between them, each gauge shows the fold of its own updates after each of them, if and only if no
relative update finds its own baseline expired, and other than zero, when no pruning is due.** -/
theorem gauges_fold_iff (formatFloat : ℚ → Bytes) {cfg : AggregationConfig} {a : Aggregator}
    (hnew : newAggregator cfg = .ok a) {steps : List FlushStep}
    (horder : EveryStep (step formatFloat) InOrder (start a) steps) :
    EveryStep (step formatFloat) (ShowsFold formatFloat) (start a) steps ↔
      EveryStep (step formatFloat) FindsLive (start a) steps := by
  have hkeep : ∀ s next, Follows cfg.gaugeTTL s → s.InOrder next → s.FindsLive next →
      Follows cfg.gaugeTTL (s.step formatFloat next) := fun _ _ h => h.step
  have hiff : ∀ s next, Follows cfg.gaugeTTL s → s.InOrder next →
      (s.ShowsFold formatFloat next ↔ s.FindsLive next) := fun _ _ => showsFold_iff
  exact everyStep_congr_of hkeep hiff steps (follows_start hnew) horder

/-! ## A gauge that comes back -/

/-- A relative update of a gauge by one, at a time. -/
def raise (name : String) (time : Int) : FlushStep :=
  .add ⟨ascii name, .gauge, 1, [], true, 1, ∅, some time⟩ ∅ 0

def roomyConfig : AggregationConfig := ⟨[1], [1], 1, 10000, 100⟩

def roomyAggregator : Aggregator := ⟨roomyConfig, by decide +kernel, ∅, [], 0, 0, ∅, 0, none⟩

theorem newAggregator_roomy : newAggregator roomyConfig = .ok roomyAggregator := rfl

/-- A gauge is raised again after a flush, before it expires. -/
theorem gauges_fold_small :
    EveryStep (step fun _ => []) (ShowsFold fun _ => []) (start roomyAggregator)
      [raise "x" 0, .rotate, .publish 0 7, .commit, raise "x" 50] := by
  have horder : EveryStep (step fun _ => []) InOrder (start roomyAggregator)
      [raise "x" 0, .rotate, .publish 0 7, .commit, raise "x" 50] := by
    refine ⟨⟨by decide +kernel, fun t ht => by cases ht⟩, trivial, trivial, trivial,
      ⟨by decide +kernel, fun t ht => ?_⟩, trivial⟩
    cases ht
    decide
  refine (gauges_fold_iff (fun _ => []) newAggregator_roomy horder).mpr ?_
  refine ⟨fun _ _ b hb => ?_, trivial, trivial, trivial, fun _ _ b hb _ _ => ?_, trivial⟩
  · cases hb
  · -- 50 nanoseconds after the first call, a pruning is due
    decide +kernel

/-- **A gauge that was not updated for longer than the TTL goes on from its old value**, because
another gauge was updated shortly before. -/
theorem expired_baseline_used :
    EveryStep (step fun _ => []) InOrder (start roomyAggregator)
      [raise "x" 0, raise "y" 95, raise "x" 101] ∧
    (foldUpdates 100 ([raise "x" 0, raise "y" 95, raise "x" 101].foldl (step fun _ => [])
      (start roomyAggregator)).updates
        (aggregationKey (ascii "x") .gauge (withCustom ∅))) = some (1, 101) ∧
    ((([raise "x" 0, raise "y" 95, raise "x" 101].foldl (step fun _ => [])
      (start roomyAggregator)).sys.agg.series.lookup
        (aggregationKey (ascii "x") .gauge (withCustom ∅))).map AggregateState.value) =
      some 2 := by
  refine ⟨⟨⟨by decide +kernel, fun t ht => by cases ht⟩, ⟨by decide +kernel, fun t ht => ?_⟩,
    ⟨by decide +kernel, fun t ht => ?_⟩, trivial⟩, by decide +kernel, by decide +kernel⟩
  · cases ht
    decide
  · cases ht
    decide

end Tracking

end Dogstatsd
