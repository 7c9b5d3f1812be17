import Mathlib.Algebra.BigOperators.Group.List.Basic
import Mathlib.Data.List.Dedup
import NodeAgent.Dogstatsd.Aggregator.Adding

/-!
# Reference aggregates

The samples of a window go to one state per key, whatever their types. A flush reports for each key
the aggregates of the samples of that key: sums for counters, the number of members for sets, and
cumulative buckets for timers and histograms. These do not depend on the order of the samples. The
value of a gauge does.

* `Describes` — a state holds the aggregates of some samples
-/

namespace Dogstatsd

open Infra

/-! ## The reference -/

structure Submission where
  metric : Metric
  tags : Labels

def Submission.key (s : Submission) : Bytes := s.metric.aggregationKey s.tags

/-- The sum of `1/rate`. -/
def weightSum (own : List Submission) : ℚ := (own.map (fun s => 1 / s.metric.sampleRate)).sum

/-- The sum of `value/rate`. -/
def valueSum (own : List Submission) : ℚ :=
  (own.map (fun s => s.metric.value / s.metric.sampleRate)).sum

/-- The sum of `1/rate` over the values up to a bound. -/
def bucketSum (own : List Submission) (bound : ℚ) : ℚ :=
  weightSum (own.filter (fun s => s.metric.value ≤ bound))

def memberCount (own : List Submission) : Nat := (own.map (fun s => s.metric.setValue)).dedup.length

section

variable (formatFloat : ℚ → Bytes) (atMillis : Int)

def referenceDistribution (baseName : Bytes) (labels : Labels) (bounds : List ℚ)
    (own : List Submission) : List TimeSeries :=
  let bucket := fun (le : Bytes) (count : ℚ) =>
    aggregateSeries (baseName ++ ascii "_bucket") (labels.insert (ascii "le") le) count atMillis
  bounds.map (fun bound => bucket (formatFloat bound) (bucketSum own bound)) ++
    [bucket (ascii "+Inf") (weightSum own),
      aggregateSeries (baseName ++ ascii "_sum") labels (valueSum own) atMillis,
      aggregateSeries (baseName ++ ascii "_count") labels (weightSum own) atMillis]

/-- The series for some samples of one name, type and labels. A gauge shows `shown`. -/
def referenceSeries (cfg : AggregationConfig) (shown : ℚ) (first : Submission)
    (own : List Submission) : List TimeSeries :=
  let name := normalizeMetricName first.metric.name
  let labels := withCustom first.tags
  match first.metric.type with
  | .counter => [aggregateSeries (name ++ ascii "_counter_count") labels (valueSum own) atMillis]
  | .gauge => [aggregateSeries (name ++ ascii "_gauge") labels shown atMillis]
  | .timer =>
    referenceDistribution formatFloat atMillis (name ++ ascii "_timer_ms") labels
      cfg.timerBucketsMS own
  | .histogram =>
    referenceDistribution formatFloat atMillis (name ++ ascii "_histogram") labels
      cfg.histogramBuckets own
  | .set => [aggregateSeries (name ++ ascii "_set_cardinality") labels (memberCount own) atMillis]
  | .other _ => []

/-- The series for one key, from the samples of a window. -/
def keyReference (cfg : AggregationConfig) (shown : Bytes → ℚ) (samples : List Submission)
    (key : Bytes) : List TimeSeries :=
  match samples.filter (fun s => s.key = key) with
  | [] => []
  | first :: rest => referenceSeries formatFloat atMillis cfg (shown key) first (first :: rest)

end

/-! ### One more sample -/

theorem weightSum_concat (own : List Submission) (s : Submission) :
    weightSum (own ++ [s]) = weightSum own + 1 / s.metric.sampleRate := by
  simp [weightSum]

theorem valueSum_concat (own : List Submission) (s : Submission) :
    valueSum (own ++ [s]) = valueSum own + s.metric.value / s.metric.sampleRate := by
  simp [valueSum]

theorem bucketSum_concat (own : List Submission) (s : Submission) (bound : ℚ) :
    bucketSum (own ++ [s]) bound =
      bucketSum own bound + if s.metric.value ≤ bound then 1 / s.metric.sampleRate else 0 := by
  unfold bucketSum
  rw [List.filter_append]
  by_cases hle : s.metric.value ≤ bound
  · rw [if_pos hle, List.filter_singleton, decide_eq_true hle, cond_true, weightSum_concat]
  · rw [if_neg hle, List.filter_singleton, decide_eq_false hle, cond_false, List.append_nil,
      add_zero]

theorem modify_concat {α : Type} (l : List α) (c : α) (f : α → α) :
    (l ++ [c]).modify ((l ++ [c]).length - 1) f = l ++ [f c] := by
  rw [List.length_append, List.length_singleton, Nat.add_sub_cancel]
  induction l with
  | nil => rfl
  | cons x l ih =>
    rw [List.cons_append, List.length_cons, List.modify_succ_cons, ih]
    rfl

theorem addBucketValue_map (bounds : List ℚ) (f : ℚ → ℚ) (c value weight : ℚ) :
    addBucketValue (bounds.map f ++ [c]) bounds value weight =
      bounds.map (fun b => f b + if value ≤ b then weight else 0) ++ [c + weight] := by
  have hbounded : ∀ g : Nat → ℚ → ℚ,
      (∀ i c bound, bounds[i]? = some bound → g i c = if value ≤ bound then c + weight else c) →
      (∀ i c, bounds[i]? = none → g i c = c) → (bounds.map f ++ [c]).mapIdx g =
        bounds.map (fun b => f b + if value ≤ b then weight else 0) ++ [c] := by
    intro g hsome hnone
    refine List.ext_getElem (by simp) fun i h1 h2 => ?_
    rw [List.getElem_mapIdx]
    rcases Nat.lt_or_ge i bounds.length with hi | hi
    · rw [hsome i _ _ (List.getElem?_eq_getElem hi)]
      simp only [List.getElem_append_left, hi, List.length_map, List.getElem_map]
      split
      · rfl
      · rw [add_zero]
    · rw [hnone i _ (List.getElem?_eq_none hi)]
      simp only [hi, List.getElem_append_right, List.length_map, List.getElem_singleton]
  exact (congrArg (fun l : List ℚ => l.modify (l.length - 1) (· + weight))
    (hbounded _ (fun i c bound h => by rw [h]) (fun i c h => by rw [h]))).trans
    (modify_concat _ _ _)

/-! ## What a state holds -/

/-- The state of a distribution holds the aggregates of these samples. -/
structure Distributes (own : List Submission) (bounds : List ℚ) (state : AggregateState) :
    Prop where
  count : state.count = weightSum own
  sum : state.sum = valueSum own
  buckets : state.buckets = bounds.map (bucketSum own) ++ [weightSum own]

/-- The state of a set holds the members of these samples, each once. -/
structure Collects (own : List Submission) (state : AggregateState) : Prop where
  nodup : state.setValues.Nodup
  mem : ∀ x, x ∈ state.setValues ↔ x ∈ own.map (fun s => s.metric.setValue)

/-- What the state of a type holds. Nothing is said of a gauge. -/
def Holds (cfg : AggregationConfig) (own : List Submission) (state : AggregateState) :
    MetricType → Prop
  | .counter => state.value = valueSum own
  | .timer => Distributes own cfg.timerBucketsMS state
  | .histogram => Distributes own cfg.histogramBuckets state
  | .set => Collects own state
  | .gauge => True
  | .other _ => True

/-- The state was made for the sample `first` and holds the aggregates of the samples `own`. -/
structure Describes (cfg : AggregationConfig) (first : Submission) (own : List Submission)
    (state : AggregateState) : Prop where
  name : state.name = normalizeMetricName first.metric.name
  type : state.metricType = first.metric.type
  labels : state.labels = withCustom first.tags
  holds : Holds cfg own state first.metric.type

variable {cfg : AggregationConfig} {first s : Submission} {own : List Submission}
  {state : AggregateState}

theorem distributes_empty (bounds : List ℚ) (hcount : state.count = 0) (hsum : state.sum = 0)
    (hbuckets : state.buckets = List.replicate (bounds.length + 1) 0) :
    Distributes [] bounds state := by
  have hzero : bounds.map (bucketSum []) = List.replicate bounds.length 0 := List.map_const'
  refine ⟨hcount, hsum, ?_⟩
  rw [hbuckets, hzero, List.replicate_succ']
  rfl

theorem describes_empty (cfg : AggregationConfig) (first : Submission) :
    Describes cfg first [] (Aggregator.emptyState cfg first.metric first.tags) := by
  refine ⟨rfl, rfl, rfl, ?_⟩
  unfold Aggregator.emptyState
  cases first.metric.type with
  | counter => rfl
  | timer => exact distributes_empty _ rfl rfl rfl
  | histogram => exact distributes_empty _ rfl rfl rfl
  | set => exact ⟨List.nodup_nil, fun x => Iff.rfl⟩
  | gauge => trivial
  | other text => trivial

theorem Distributes.observe {bounds : List ℚ} (h : Distributes own bounds state)
    (hrate : s.metric.ValidRate) :
    Distributes (own ++ [s]) bounds (state.observe bounds s.metric) := by
  refine ⟨?_, ?_, ?_⟩
  · show state.count + sampleWeight s.metric.sampleRate = _
    rw [h.count, weightSum_concat, sampleWeight_of_valid hrate]
  · show state.sum + s.metric.value * sampleWeight s.metric.sampleRate = _
    rw [h.sum, valueSum_concat, sampleWeight_of_valid hrate, mul_one_div]
  · show addBucketValue state.buckets bounds s.metric.value (sampleWeight s.metric.sampleRate) = _
    rw [h.buckets, addBucketValue_map, weightSum_concat, sampleWeight_of_valid hrate]
    refine congrArg (· ++ _) (List.map_congr_left fun b _ => ?_)
    rw [bucketSum_concat]

theorem Collects.enter (h : Collects own state) : Collects (own ++ [s]) (state.enter s.metric) := by
  unfold AggregateState.enter
  have hmap : (own ++ [s]).map (fun s => s.metric.setValue) =
      own.map (fun s => s.metric.setValue) ++ [s.metric.setValue] := List.map_append
  split
  · next hmem =>
    refine ⟨h.nodup, fun x => ?_⟩
    rw [hmap, List.mem_append, ← h.mem x, List.mem_singleton]
    exact ⟨.inl, fun hx => hx.elim id fun heq => heq ▸ hmem⟩
  · next hnew =>
    refine ⟨List.nodup_append.mpr ⟨h.nodup, List.nodup_singleton _, ?_⟩, fun x => ?_⟩
    · rintro x hx y hy rfl
      exact hnew (List.mem_singleton.mp hy ▸ hx)
    · rw [hmap, List.mem_append, List.mem_append, h.mem x]

/-- **A state absorbs one more sample of its type.** -/
theorem Describes.absorb (h : Describes cfg first own state)
    (htype : s.metric.type = first.metric.type) (hrecordable : s.metric.Recordable) (shown : ℚ) :
    Describes cfg first (own ++ [s]) (state.absorb cfg s.metric shown) := by
  have hholds := h.holds
  rw [← htype] at hholds
  have hnew : (state.absorb cfg s.metric shown).name = state.name ∧
      (state.absorb cfg s.metric shown).metricType = state.metricType ∧
      (state.absorb cfg s.metric shown).labels = state.labels ∧
      Holds cfg (own ++ [s]) (state.absorb cfg s.metric shown) s.metric.type := by
    revert hholds hrecordable
    unfold Metric.Recordable AggregateState.absorb
    cases s.metric.type with
    | counter =>
      intro _ hholds
      refine ⟨rfl, rfl, rfl, ?_⟩
      show state.value + _ = valueSum (own ++ [s])
      rw [valueSum_concat, show state.value = valueSum own from hholds]
    | gauge => exact fun _ _ => ⟨rfl, rfl, rfl, trivial⟩
    | timer => exact fun hrate hholds => ⟨rfl, rfl, rfl, Distributes.observe hholds hrate⟩
    | histogram => exact fun hrate hholds => ⟨rfl, rfl, rfl, Distributes.observe hholds hrate⟩
    | set =>
      intro _ hholds
      have hsame : (state.enter s.metric).name = state.name ∧
          (state.enter s.metric).metricType = state.metricType ∧
          (state.enter s.metric).labels = state.labels := by
        unfold AggregateState.enter
        split <;> exact ⟨rfl, rfl, rfl⟩
      exact ⟨hsame.1, hsame.2.1, hsame.2.2, Collects.enter hholds⟩
    | other text => exact fun hfalse => hfalse.elim
  exact ⟨hnew.1.trans h.name, hnew.2.1.trans h.type, hnew.2.2.1.trans h.labels, htype ▸ hnew.2.2.2⟩

/-! ## What a state is rendered as -/

theorem mapIdx_buckets (bounds : List ℚ) (f : ℚ → ℚ) (c : ℚ) (render : ℚ → ℚ → TimeSeries) :
    bounds.mapIdx (fun i bound => render bound ((bounds.map f ++ [c]).getD i 0)) =
      bounds.map (fun bound => render bound (f bound)) := by
  refine List.ext_getElem (by simp) fun i h1 h2 => ?_
  have hi : i < bounds.length := by simpa using h1
  rw [List.getElem_mapIdx, List.getElem_map, List.getD_eq_getElem?_getD,
    List.getElem?_append_left (by simpa using hi), List.getElem?_map, List.getElem?_eq_getElem hi]
  rfl

theorem Distributes.series {bounds : List ℚ} (h : Distributes own bounds state)
    (formatFloat : ℚ → Bytes) (atMillis : Int) (baseName : Bytes) :
    distributionSeries formatFloat baseName state bounds atMillis =
      referenceDistribution formatFloat atMillis baseName state.labels bounds own := by
  unfold distributionSeries referenceDistribution
  simp only
  rw [h.count, h.sum, h.buckets, mapIdx_buckets bounds (bucketSum own) (weightSum own)
    (fun bound count => aggregateSeries (baseName ++ ascii "_bucket")
      (state.labels.insert (ascii "le") (formatFloat bound)) count atMillis),
    List.getLast?_concat]
  rfl

/-- **A state is rendered as the reference of its samples.** -/
theorem Describes.series (h : Describes cfg first own state) (formatFloat : ℚ → Bytes)
    (atMillis : Int) :
    stateSeries formatFloat cfg atMillis state =
      referenceSeries formatFloat atMillis cfg state.value first own := by
  have hholds := h.holds
  unfold stateSeries referenceSeries
  rw [h.type, h.name]
  simp only
  rw [← h.labels]
  revert hholds
  cases first.metric.type with
  | counter =>
    intro hholds
    rw [show state.value = valueSum own from hholds]
  | gauge => exact fun _ => rfl
  | timer => exact fun hholds => Distributes.series hholds _ _ _
  | histogram => exact fun hholds => Distributes.series hholds _ _ _
  | set =>
    intro (hholds : Collects own state)
    have hcount : state.setValues.length = memberCount own := by
      refine ((List.perm_ext_iff_of_nodup hholds.nodup (List.nodup_dedup _)).mpr ?_).length_eq
      exact fun x => (hholds.mem x).trans List.mem_dedup.symm
    simp only
    rw [hcount]
  | other text => exact fun _ => rfl

end Dogstatsd
