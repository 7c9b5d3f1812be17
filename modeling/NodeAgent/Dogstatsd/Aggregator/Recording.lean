import Mathlib.Algebra.Order.Field.Rat
import NodeAgent.Dogstatsd.Aggregator.Pruning

/-!
# The outcomes of `Add`

`Add` prunes the baselines of gauges, finds or makes the state of the metric and records the metric
in it. The outcomes are listed once, and what `Add` keeps or changes is read off the list.

* `record_spec` — recording a metric in a state
* `add_spec` — a call of `Add`, after the pruning
-/

namespace Dogstatsd

open Infra

def MetricType.Supported : MetricType → Prop
  | .other _ => False
  | _ => True

def withCustom (tags : Labels) : Labels := tags.insert (ascii "is_custom") (ascii "true")

/-- The key under which the aggregator puts a metric with these tags. -/
def Metric.aggregationKey (m : Metric) (tags : Labels) : Bytes :=
  Dogstatsd.aggregationKey (normalizeMetricName m.name) m.type (withCustom tags)

/-! ## Recording -/

namespace AggregateState

def observe (state : AggregateState) (bounds : List ℚ) (metric : Metric) : AggregateState :=
  { state with
    count := state.count + sampleWeight metric.sampleRate
    sum := state.sum + metric.value * sampleWeight metric.sampleRate
    buckets := addBucketValue state.buckets bounds metric.value (sampleWeight metric.sampleRate) }

def enter (state : AggregateState) (metric : Metric) : AggregateState :=
  if metric.setValue ∈ state.setValues then state
  else { state with setValues := state.setValues ++ [metric.setValue] }

/-- The state with one more metric. A gauge then shows `shown`. -/
def absorb (state : AggregateState) (cfg : AggregationConfig) (metric : Metric) (shown : ℚ) :
    AggregateState :=
  match metric.type with
  | .counter => { state with value := state.value + metric.value / metric.sampleRate }
  | .gauge => { state with value := shown }
  | .timer => state.observe cfg.timerBucketsMS metric
  | .histogram => state.observe cfg.histogramBuckets metric
  | .set => state.enter metric
  | .other _ => state

/-- The state is still the one of the same series. -/
theorem absorb_series (state : AggregateState) (cfg : AggregationConfig) (metric : Metric)
    (shown : ℚ) :
    (state.absorb cfg metric shown).name = state.name ∧
      (state.absorb cfg metric shown).metricType = state.metricType ∧
      (state.absorb cfg metric shown).labels = state.labels := by
  unfold absorb enter
  split
  all_goals first
    | exact ⟨rfl, rfl, rfl⟩
    | split <;> exact ⟨rfl, rfl, rfl⟩

end AggregateState

def Metric.ValidRate (metric : Metric) : Prop := 0 < metric.sampleRate ∧ metric.sampleRate ≤ 1

theorem sampleWeight_of_valid {metric : Metric} (h : metric.ValidRate) :
    sampleWeight metric.sampleRate = 1 / metric.sampleRate :=
  if_neg (not_or.mpr ⟨not_le.mpr h.1, not_lt.mpr h.2⟩)

theorem sampleWeight_ne_zero {metric : Metric} :
    sampleWeight metric.sampleRate ≠ 0 ↔ metric.ValidRate := by
  constructor
  · intro h
    unfold sampleWeight at h
    split at h
    · exact absurd rfl h
    · next hrange =>
      obtain ⟨hpos, hle⟩ := not_or.mp hrange
      exact ⟨not_le.mp hpos, not_lt.mp hle⟩
  · intro h
    rw [sampleWeight_of_valid h]
    exact (one_div_pos.mpr h.1).ne'

/-- `Add` knows the type, and can divide by the sample rate where it needs to. -/
def Metric.Recordable (metric : Metric) : Prop :=
  match metric.type with
  | .counter => 0 < metric.sampleRate
  | .timer => metric.ValidRate
  | .histogram => metric.ValidRate
  | .gauge => True
  | .set => True
  | .other _ => False

namespace Aggregator

variable {a : Aggregator} {key : Bytes} {state : AggregateState} {created : Option Int}
  {metric : Metric} {tags : Labels} {now : Int}

def baseline (a : Aggregator) (key : Bytes) : GaugeBaseline :=
  (a.gauges.lookup key).getD ⟨0, 0, 64 + key.length⟩

def gaugeValue (a : Aggregator) (key : Bytes) (metric : Metric) : ℚ :=
  if metric.relative then (a.baseline key).value + metric.value else metric.value

/-- The bytes that a sample takes beside those of its state: a gauge those of its baseline, a set
those of its value. -/
def sampleBytes (a : Aggregator) (key : Bytes) (state : AggregateState) (metric : Metric) : Int :=
  match metric.type with
  | .gauge => if (a.gauges.lookup key).isSome then 0 else 64 + key.length
  | .set =>
    if metric.setValue ∈ state.setValues ∨
        (state.setValues.length : Int) ≥ a.cfg.maxSetValuesPerSeries then 0
    else metric.setValue.length + 16
  | _ => 0

/-- So many bytes more are accounted, if any. -/
def Fits (a : Aggregator) (n : Int) : Prop := n = 0 ∨ 0 < n ∧ a.totalBytes + n ≤ a.cfg.maxBytes

/-- The outcomes of `record`. -/
inductive Recording (a : Aggregator) (key : Bytes) (state : AggregateState) (created : Option Int)
    (metric : Metric) (now : Int) : Aggregator × Option DropReason → Prop
  | refused (reason : DropReason) (hwhy : ¬ metric.Recordable ∧ metric.type ≠ .gauge ∨
      metric.type = .set ∨
      metric.type = .gauge ∧ created = none ∧ reason = .aggregationBytes) :
      Recording a key state created metric now (a, some reason)
  -- the state that the call has made for a gauge is taken out again
  | unmade (bytes : Int) (hgauge : metric.type = .gauge) (hcreated : created = some bytes) :
      Recording a key state created metric now
        ({ a with series := a.series.erase key, activeBytes := a.activeBytes - bytes },
          some .aggregationBytes)
  | unsupported (htype : ¬ metric.type.Supported) (hrecordable : ¬ metric.Recordable) :
      Recording a key state created metric now
        ({ a with series := a.series.erase key }, some .unsupportedType)
  -- the set has the member already
  | known (hset : metric.type = .set) (hmem : metric.setValue ∈ state.setValues) :
      Recording a key state created metric now (a, none)
  | absorbed (hgauge : metric.type ≠ .gauge) (hrecordable : metric.Recordable)
      (hfits : a.Fits (a.sampleBytes key state metric)) :
      Recording a key state created metric now
        ({ a.setState key (state.absorb a.cfg metric (a.gaugeValue key metric)) with
          activeBytes := a.activeBytes + a.sampleBytes key state metric }, none)
  | shown (hgauge : metric.type = .gauge) (hfits : a.Fits (a.sampleBytes key state metric)) :
      Recording a key state created metric now
        (({ a with gaugeBytes := a.gaugeBytes + a.sampleBytes key state metric } :
          Aggregator).setGauge key state metric now (a.baseline key), none)

theorem Recording.absorbed_free (hgauge : metric.type ≠ .gauge) (hset : metric.type ≠ .set)
    (hrecordable : metric.Recordable) {state' : AggregateState}
    (habsorb : state.absorb a.cfg metric (a.gaugeValue key metric) = state') :
    Recording a key state created metric now (a.setState key state', none) := by
  have hbytes : a.sampleBytes key state metric = 0 := by
    unfold sampleBytes
    split <;> first | contradiction | rfl
  have h : Recording a key state created metric now _ := .absorbed hgauge hrecordable (.inl hbytes)
  rw [habsorb, hbytes, add_zero] at h
  exact h

theorem recordDistribution_spec {bounds : List ℚ} (hgauge : metric.type ≠ .gauge)
    (hset : metric.type ≠ .set) (hrecordable : metric.Recordable ↔ metric.ValidRate)
    (habsorb : ∀ shown, state.absorb a.cfg metric shown = state.observe bounds metric) :
    Recording a key state created metric now (a.recordDistribution key state bounds metric) := by
  unfold recordDistribution
  simp only
  split
  · next hzero =>
    refine .refused _ (.inl ⟨fun h => ?_, hgauge⟩)
    exact sampleWeight_ne_zero.mpr (hrecordable.mp h) hzero
  · next hweight =>
    exact .absorbed_free hgauge hset (hrecordable.mpr (sampleWeight_ne_zero.mp hweight))
      (habsorb _)

theorem recordGauge_spec (hgauge : metric.type = .gauge) :
    Recording a key state created metric now (a.recordGauge key state created metric now) := by
  unfold recordGauge
  split
  · next b hb =>
    have hbytes : a.sampleBytes key state metric = 0 := by simp [sampleBytes, hgauge, hb]
    have h : Recording a key state created metric now _ := .shown hgauge (.inl hbytes)
    rw [hbytes, add_zero, baseline, hb] at h
    exact h
  · next hnone =>
    have hbytes : a.sampleBytes key state metric = 64 + key.length := by
      simp [sampleBytes, hgauge, hnone]
    simp only
    split
    · cases created with
      | some bytes => exact .unmade bytes hgauge rfl
      | none => exact .refused _ (.inr (.inr ⟨hgauge, rfl, rfl⟩))
    · next hroom =>
      have h : Recording a key state created metric now _ :=
        .shown hgauge (.inr ⟨by omega, by omega⟩)
      rw [hbytes, baseline, hnone] at h
      exact h

theorem recordSet_spec (hset : metric.type = .set) :
    Recording a key state created metric now (a.recordSet key state metric) := by
  unfold recordSet
  split
  · next hmem => exact .known hset hmem
  next hnew =>
  split
  · exact .refused _ (.inr (.inl hset))
  next hlimit =>
  simp only
  split
  · exact .refused _ (.inr (.inl hset))
  next hroom =>
  have hbytes : a.sampleBytes key state metric = metric.setValue.length + 16 := by
    rw [sampleBytes, hset]
    exact if_neg (not_or.mpr ⟨hnew, hlimit⟩)
  have h : Recording a key state created metric now _ := .absorbed (by rw [hset]; decide)
    (by rw [Metric.Recordable, hset]; trivial) (.inr ⟨by omega, by omega⟩)
  rw [hbytes, AggregateState.absorb, hset] at h
  simp only [AggregateState.enter, if_neg hnew] at h
  exact h

/-- **What `record` does.** -/
theorem record_spec (a : Aggregator) (key : Bytes) (state : AggregateState) (created : Option Int)
    (metric : Metric) (now : Int) :
    Recording a key state created metric now (a.record key state created metric now) := by
  unfold record
  split
  · next htype =>
    have hrecordable : metric.Recordable ↔ 0 < metric.sampleRate := by
      unfold Metric.Recordable
      rw [htype]
    unfold recordCounter
    split
    · next hrate =>
      exact .refused _ (.inl ⟨by rwa [hrecordable, not_lt], by rw [htype]; decide⟩)
    · next hrate =>
      refine .absorbed_free (by rw [htype]; decide) (by rw [htype]; decide)
        (hrecordable.mpr (not_le.mp hrate)) ?_
      rw [AggregateState.absorb, htype]
  · next htype => exact recordGauge_spec htype
  · next htype =>
    refine recordDistribution_spec (by rw [htype]; decide) (by rw [htype]; decide) ?_ fun _ => ?_
    · rw [Metric.Recordable, htype]
    · rw [AggregateState.absorb, htype]
  · next htype =>
    refine recordDistribution_spec (by rw [htype]; decide) (by rw [htype]; decide) ?_ fun _ => ?_
    · rw [Metric.Recordable, htype]
    · rw [AggregateState.absorb, htype]
  · next htype => exact recordSet_spec htype
  · next htype =>
    exact .unsupported (by rw [htype]; exact id) (by rw [Metric.Recordable, htype]; exact id)

/-! ## Adding -/

def emptyState (cfg : AggregationConfig) (metric : Metric) (tags : Labels) : AggregateState :=
  let buckets := match metric.type with
    | .timer => List.replicate (cfg.timerBucketsMS.length + 1) 0
    | .histogram => List.replicate (cfg.histogramBuckets.length + 1) 0
    | _ => []
  ⟨normalizeMetricName metric.name, metric.type, withCustom tags, 0, 0, 0, buckets, []⟩

/-- The bytes of a new state for the metric. -/
def stateBytes (a : Aggregator) (metric : Metric) (tags : Labels) : Int :=
  estimateAggregateStateBytes (emptyState a.cfg metric tags)

/-- The aggregator with a new state for the metric. -/
def withState (a : Aggregator) (metric : Metric) (tags : Labels) : Aggregator :=
  { a.setState (metric.aggregationKey tags) (emptyState a.cfg metric tags) with
    activeBytes := a.activeBytes + a.stateBytes metric tags }

/-- The outcomes of `Add` once the baselines are pruned. -/
inductive Adding (a : Aggregator) (metric : Metric) (tags : Labels) (now : Int) :
    Aggregator × Option DropReason → Prop
  | full (hnew : a.series.lookup (metric.aggregationKey tags) = none)
      (hlarge : a.cfg.maxBytes < a.totalBytes + a.stateBytes metric tags) :
      Adding a metric tags now (a, some .aggregationBytes)
  | found {state : AggregateState} {out : Aggregator × Option DropReason}
      (hstate : a.series.lookup (metric.aggregationKey tags) = some state)
      (hrec : Recording a (metric.aggregationKey tags) state none metric now out) :
      Adding a metric tags now out
  | made {out : Aggregator × Option DropReason}
      (hnew : a.series.lookup (metric.aggregationKey tags) = none)
      (hfits : a.totalBytes + a.stateBytes metric tags ≤ a.cfg.maxBytes)
      (hrec : Recording (a.withState metric tags) (metric.aggregationKey tags)
        (emptyState a.cfg metric tags) (some (a.stateBytes metric tags)) metric now out) :
      Adding a metric tags now out

/-- **What a call of `Add` does.** -/
theorem add_spec (a : Aggregator) (metric : Metric) (tags : Labels) (clock : Int) :
    Adding (a.pruneGauges (metric.receivedAt.getD clock)) metric tags
      (metric.receivedAt.getD clock) (a.add metric tags clock) := by
  unfold add
  simp only
  split
  · next state hstate => exact .found hstate (record_spec _ _ _ _ _ _)
  next hnone =>
  split
  · next hlarge => exact .full hnone hlarge
  · next hfits => exact .made hnone (not_lt.mp hfits) (record_spec _ _ _ _ _ _)

/-- A state that is made and taken out again leaves nothing. -/
theorem unmake_withState (h : a.series.lookup (metric.aggregationKey tags) = none) :
    ({ a.withState metric tags with
      series := (a.withState metric tags).series.erase (metric.aggregationKey tags)
      activeBytes := (a.withState metric tags).activeBytes - a.stateBytes metric tags } :
        Aggregator) = a := by
  unfold withState setState
  simp only [add_sub_cancel_right, Dict.erase_insert_of_notMem (AList.lookup_eq_none.mp h)]

end Aggregator

end Dogstatsd
