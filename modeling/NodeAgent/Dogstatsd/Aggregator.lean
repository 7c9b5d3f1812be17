import Mathlib.Algebra.Order.Ring.Unbundled.Rat
import NodeAgent.Dogstatsd.Metric

/-!
# The aggregator (`dogstatsd/aggregator.go`)

The active window, the window that waits to be written and the baselines of gauges, with the bytes
that each is charged for. `Add` and `Commit` hold the mutex from beginning to end. `Snapshot` holds
it twice: `rotate` and `publish` are its two critical sections, and other calls may come between
them.
-/

namespace Dogstatsd

open Infra

inductive AggregationError where
  /-- `dogstatsd max set values per series must be positive` -/
  | setValues
  /-- `dogstatsd aggregation max bytes must be positive` -/
  | maxBytes
  /-- `dogstatsd gauge TTL must be positive` -/
  | gaugeTTL
  /-- `dogstatsd %s buckets must not be empty` -/
  | bucketsEmpty (name : Bytes)
  /-- `dogstatsd %s buckets must be finite and strictly increasing` -/
  | bucketsNotIncreasing (name : Bytes)
  deriving DecidableEq

structure AggregationConfig where
  timerBucketsMS : List ℚ
  histogramBuckets : List ℚ
  maxSetValuesPerSeries : Int
  maxBytes : Int
  gaugeTTL : Int

/-- The loop of `validateBuckets` after the first bucket. -/
def increasing : ℚ → List ℚ → Bool
  | _, [] => true
  | previous, bucket :: rest => if bucket ≤ previous then false else increasing bucket rest

/-- Rationals are finite, so only the order is left to check. -/
def validateBuckets (name : Bytes) : List ℚ → Option AggregationError
  | [] => some (.bucketsEmpty name)
  | bucket :: rest => if increasing bucket rest then none else some (.bucketsNotIncreasing name)

def AggregationConfig.validate (c : AggregationConfig) : Option AggregationError :=
  if c.maxSetValuesPerSeries ≤ 0 then some .setValues
  else if c.maxBytes ≤ 0 then some .maxBytes
  else if c.gaugeTTL ≤ 0 then some .gaugeTTL
  else
    match validateBuckets (ascii "timer") c.timerBucketsMS with
    | some e => some e
    | none => validateBuckets (ascii "histogram") c.histogramBuckets

theorem pairwise_of_increasing : ∀ {bucket : ℚ} {rest : List ℚ}, increasing bucket rest = true →
    (bucket :: rest).Pairwise (· < ·)
  | _, [], _ => List.pairwise_singleton _ _
  | bucket, b :: rest, h => by
    unfold increasing at h
    split at h
    · cases h
    · rename_i hlt
      have hrest := pairwise_of_increasing h
      refine List.pairwise_cons.mpr ⟨fun c hc => ?_, hrest⟩
      rcases List.mem_cons.mp hc with rfl | hc
      · exact not_le.mp hlt
      · exact (not_le.mp hlt).trans ((List.pairwise_cons.mp hrest).1 c hc)

theorem pairwise_of_validateBuckets {name : Bytes} {buckets : List ℚ}
    (h : validateBuckets name buckets = none) : buckets.Pairwise (· < ·) := by
  cases buckets with
  | nil => exact .nil
  | cons bucket rest =>
    unfold validateBuckets at h
    simp only at h
    split at h
    · rename_i hincreasing
      exact pairwise_of_increasing hincreasing
    · cases h

theorem pairwise_buckets {cfg : AggregationConfig} (h : cfg.validate = none) :
    cfg.timerBucketsMS.Pairwise (· < ·) ∧ cfg.histogramBuckets.Pairwise (· < ·) := by
  unfold AggregationConfig.validate at h
  split at h
  · cases h
  split at h
  · cases h
  split at h
  · cases h
  split at h
  · cases h
  · rename_i htimer
    exact ⟨pairwise_of_validateBuckets htimer, pairwise_of_validateBuckets h⟩

structure AggregateState where
  name : Bytes
  metricType : MetricType
  labels : Labels
  value : ℚ
  count : ℚ
  sum : ℚ
  buckets : List ℚ
  setValues : List Bytes

structure GaugeBaseline where
  value : ℚ
  lastSeen : Int
  bytes : Int

abbrev Window := Dict Bytes AggregateState

/-- An aggregator. It is made by `newAggregator` only, so its configuration is valid. -/
structure Aggregator where
  cfg : AggregationConfig
  valid : cfg.validate = none
  series : Window
  inflight : List TimeSeries
  activeBytes : Int
  inflightBytes : Int
  gauges : Dict Bytes GaugeBaseline
  gaugeBytes : Int
  lastGaugePrune : Option Int

def newAggregator (cfg : AggregationConfig) : Except AggregationError Aggregator :=
  match h : cfg.validate with
  | some e => .error e
  | none => .ok ⟨cfg, h, ∅, [], 0, 0, ∅, 0, none⟩

theorem newAggregator_ok {cfg : AggregationConfig} {a : Aggregator}
    (h : newAggregator cfg = .ok a) :
    ∃ hvalid : cfg.validate = none, a = ⟨cfg, hvalid, ∅, [], 0, 0, ∅, 0, none⟩ := by
  unfold newAggregator at h
  split at h
  · cases h
  · next hvalid =>
    cases h
    exact ⟨hvalid, rfl⟩

inductive DropReason where
  | aggregationBytes
  | invalidSampleRate
  | setLimit
  | unsupportedType
  deriving DecidableEq

/-- The key of an aggregate state: name, type and labels, separated by bytes `0xff`. -/
def aggregationKey (name : Bytes) (metricType : MetricType) (labels : Labels) : Bytes :=
  name ++ [0xff] ++ metricType.text ++
    (sortedLabels labels).flatMap (fun l => [0xff] ++ l.1 ++ [61] ++ l.2)

def estimateAggregateStateBytes (state : AggregateState) : Int :=
  192 + state.name.length + state.buckets.length * 8 +
    ((state.labels.entries.map (fun l => 48 + l.1.length + l.2.length)).sum : Nat)

def sampleWeight (rate : ℚ) : ℚ := if rate ≤ 0 ∨ rate > 1 then 0 else 1 / rate

/-- Add `weight` to every bucket whose bound is not below `value`, and to the last one. -/
def addBucketValue (counts bounds : List ℚ) (value weight : ℚ) : List ℚ :=
  let bounded := counts.mapIdx (fun i c =>
    match bounds[i]? with
    | some bound => if value ≤ bound then c + weight else c
    | none => c)
  bounded.modify (bounded.length - 1) (· + weight)

namespace Aggregator

variable (a : Aggregator)

def totalBytes : Int := a.activeBytes + a.inflightBytes + a.gaugeBytes

/-- The loop of `pruneGaugesLocked`, over one entry. -/
def pruneEntry (cutoff : Int) (acc : Dict Bytes GaugeBaseline × Int)
    (entry : Σ _ : Bytes, GaugeBaseline) : Dict Bytes GaugeBaseline × Int :=
  if entry.2.lastSeen < cutoff then (acc.1.erase entry.1, acc.2 - entry.2.bytes) else acc

def pruneGauges (now : Int) : Aggregator :=
  let interval := min (a.cfg.gaugeTTL / 10) 60000000000
  if a.lastGaugePrune.any (fun last => now - last < interval) then a
  else
    let pruned :=
      a.gauges.entries.foldl (pruneEntry (now - a.cfg.gaugeTTL)) (a.gauges, a.gaugeBytes)
    { a with gauges := pruned.1, gaugeBytes := pruned.2, lastGaugePrune := some now }

def newState (name : Bytes) (metricType : MetricType) (labels : Labels) : AggregateState :=
  let buckets := match metricType with
    | .timer => List.replicate (a.cfg.timerBucketsMS.length + 1) 0
    | .histogram => List.replicate (a.cfg.histogramBuckets.length + 1) 0
    | _ => []
  ⟨name, metricType, labels, 0, 0, 0, buckets, []⟩

def setState (key : Bytes) (state : AggregateState) : Aggregator :=
  { a with series := a.series.insert key state }

def recordCounter (key : Bytes) (state : AggregateState) (metric : Metric) :
    Aggregator × Option DropReason :=
  if metric.sampleRate ≤ 0 then (a, some .invalidSampleRate)
  else (a.setState key { state with value := state.value + metric.value / metric.sampleRate }, none)

/-- The end of the gauge case: the baseline moves and the state shows it. -/
def setGauge (key : Bytes) (state : AggregateState) (metric : Metric) (now : Int)
    (baseline : GaugeBaseline) : Aggregator :=
  let value := if metric.relative then baseline.value + metric.value else metric.value
  { a with
    series := a.series.insert key { state with value := value }
    gauges := a.gauges.insert key { baseline with value := value, lastSeen := now } }

/-- `created` holds the bytes of the state when this call has made it. -/
def recordGauge (key : Bytes) (state : AggregateState) (created : Option Int) (metric : Metric)
    (now : Int) : Aggregator × Option DropReason :=
  match a.gauges.lookup key with
  | some baseline => (a.setGauge key state metric now baseline, none)
  | none =>
    let bytes : Int := 64 + key.length
    if a.totalBytes + bytes > a.cfg.maxBytes then
      match created with
      | some stateBytes =>
        ({ a with series := a.series.erase key, activeBytes := a.activeBytes - stateBytes },
          some .aggregationBytes)
      | none => (a, some .aggregationBytes)
    else
      (({ a with gaugeBytes := a.gaugeBytes + bytes } : Aggregator).setGauge key state metric now
        ⟨0, 0, bytes⟩, none)

/-- Timers and histograms differ in their bounds only. -/
def recordDistribution (key : Bytes) (state : AggregateState) (bounds : List ℚ) (metric : Metric) :
    Aggregator × Option DropReason :=
  let weight := sampleWeight metric.sampleRate
  if weight = 0 then (a, some .invalidSampleRate)
  else
    (a.setState key { state with
      count := state.count + weight
      sum := state.sum + metric.value * weight
      buckets := addBucketValue state.buckets bounds metric.value weight }, none)

def recordSet (key : Bytes) (state : AggregateState) (metric : Metric) :
    Aggregator × Option DropReason :=
  if metric.setValue ∈ state.setValues then (a, none)
  else if (state.setValues.length : Int) ≥ a.cfg.maxSetValuesPerSeries then (a, some .setLimit)
  else
    let valueBytes : Int := metric.setValue.length + 16
    if a.totalBytes + valueBytes > a.cfg.maxBytes then (a, some .aggregationBytes)
    else
      ({ a.setState key { state with setValues := state.setValues ++ [metric.setValue] } with
        activeBytes := a.activeBytes + valueBytes }, none)

/-- The switch of `Add` over the type of the metric. -/
def record (key : Bytes) (state : AggregateState) (created : Option Int) (metric : Metric)
    (now : Int) : Aggregator × Option DropReason :=
  match metric.type with
  | .counter => a.recordCounter key state metric
  | .gauge => a.recordGauge key state created metric now
  | .timer => a.recordDistribution key state a.cfg.timerBucketsMS metric
  | .histogram => a.recordDistribution key state a.cfg.histogramBuckets metric
  | .set => a.recordSet key state metric
  | .other _ => ({ a with series := a.series.erase key }, some .unsupportedType)

/-- Record one metric. `clock` is `time.Now()`. The second component is the reason of a refusal. -/
def add (metric : Metric) (tags : Labels) (clock : Int) : Aggregator × Option DropReason :=
  let now := metric.receivedAt.getD clock
  let labels := tags.insert (ascii "is_custom") (ascii "true")
  let baseName := normalizeMetricName metric.name
  let key := aggregationKey baseName metric.type labels
  let a := a.pruneGauges now
  match a.series.lookup key with
  | some state => a.record key state none metric now
  | none =>
    let state := a.newState baseName metric.type labels
    let stateBytes := estimateAggregateStateBytes state
    if a.totalBytes + stateBytes > a.cfg.maxBytes then (a, some .aggregationBytes)
    else
      ({ a.setState key state with activeBytes := a.activeBytes + stateBytes } : Aggregator).record
        key state (some stateBytes) metric now

end Aggregator

/-! ## Flushing -/

/-- `atMillis` is the time of the flush in milliseconds. -/
def aggregateSeries (name : Bytes) (labels : Labels) (value : ℚ) (atMillis : Int) : TimeSeries :=
  ⟨labelsMapToSortedPromLabels name labels, [⟨value, atMillis⟩]⟩

section

-- `strconv.FormatFloat(bound, 'g', -1, 64)`
variable (formatFloat : ℚ → Bytes)

def distributionSeries (baseName : Bytes) (state : AggregateState) (bounds : List ℚ)
    (atMillis : Int) : List TimeSeries :=
  let bucket := fun (le : Bytes) (count : ℚ) =>
    aggregateSeries (baseName ++ ascii "_bucket") (state.labels.insert (ascii "le") le) count
      atMillis
  bounds.mapIdx (fun i bound => bucket (formatFloat bound) (state.buckets.getD i 0)) ++
    [bucket (ascii "+Inf") (state.buckets.getLast?.getD 0),
      aggregateSeries (baseName ++ ascii "_sum") state.labels state.sum atMillis,
      aggregateSeries (baseName ++ ascii "_count") state.labels state.count atMillis]

def stateSeries (cfg : AggregationConfig) (atMillis : Int) (state : AggregateState) :
    List TimeSeries :=
  match state.metricType with
  | .counter =>
    [aggregateSeries (state.name ++ ascii "_counter_count") state.labels state.value atMillis]
  | .gauge => [aggregateSeries (state.name ++ ascii "_gauge") state.labels state.value atMillis]
  | .timer =>
    distributionSeries formatFloat (state.name ++ ascii "_timer_ms") state cfg.timerBucketsMS
      atMillis
  | .histogram =>
    distributionSeries formatFloat (state.name ++ ascii "_histogram") state cfg.histogramBuckets
      atMillis
  | .set =>
    [aggregateSeries (state.name ++ ascii "_set_cardinality") state.labels
      state.setValues.length atMillis]
  | .other _ => []

/-- The series of a window, state by state in the order of the keys. -/
def windowSeries (cfg : AggregationConfig) (atMillis : Int) (window : Window) : List TimeSeries :=
  window.sortedEntries.flatMap (fun e => stateSeries formatFloat cfg atMillis e.2)

end

structure Rotated where
  window : Window
  bytes : Int

namespace Aggregator

/-- The first critical section of `Snapshot`: the window that waits already, or the active one. -/
def rotate (a : Aggregator) : (List TimeSeries ⊕ Rotated) × Aggregator :=
  if a.inflight ≠ [] then (.inl a.inflight, a)
  else (.inr ⟨a.series, a.activeBytes⟩, { a with series := ∅, activeBytes := 0 })

/-- The second critical section of `Snapshot`. -/
def publish (formatFloat : ℚ → Bytes) (atMillis : Int) (rotated : Rotated) (a : Aggregator) :
    List TimeSeries × Aggregator :=
  let result := windowSeries formatFloat a.cfg atMillis rotated.window
  (result, { a with inflight := result, inflightBytes := rotated.bytes })

/-- `Snapshot` when nothing comes between its two critical sections. -/
def snapshot (formatFloat : ℚ → Bytes) (atMillis : Int) (a : Aggregator) :
    List TimeSeries × Aggregator :=
  match a.rotate with
  | (.inl series, a) => (series, a)
  | (.inr rotated, a) => a.publish formatFloat atMillis rotated

def commit (a : Aggregator) : Aggregator := { a with inflight := [], inflightBytes := 0 }

theorem rotate_of_waiting {a : Aggregator} (h : a.inflight ≠ []) :
    a.rotate = (.inl a.inflight, a) := if_pos h

theorem rotate_of_none {a : Aggregator} (h : a.inflight = []) :
    a.rotate = (.inr ⟨a.series, a.activeBytes⟩, { a with series := ∅, activeBytes := 0 }) :=
  if_neg (not_not_intro h)

end Aggregator

end Dogstatsd
