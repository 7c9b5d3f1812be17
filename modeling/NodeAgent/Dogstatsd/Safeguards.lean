import NodeAgent.Dogstatsd.Normalize

/-!
# Safeguards (`dogstatsd/safeguards.go`, `dogstatsd/mapping.go`)

The tags that an application may set, and the number of series it may make.

* `apply_not_reserved` — no tag that passes has a reserved key
-/

namespace Dogstatsd

open Infra

/-! ## Tags -/

def reservedLabelKeys : List Bytes :=
  [ascii "__name__", ascii "is_custom", ascii "statsd_type", ascii "instance", ascii "job",
    ascii "machine_id", ascii "system_uuid", ascii "tenant_id", ascii "project_id"]

structure TagDropStats where
  blockedKeys : Nat
  maxKeyLength : Nat
  maxValueLength : Nat
  maxTagsPerMetric : Nat
  deriving DecidableEq

structure TagPolicy where
  blockedKeys : List Bytes
  maxTagsPerMetric : Int
  maxTagKeyLength : Int
  maxTagValueLength : Int

def newTagPolicy (blocklistCSV : Bytes) (maxTagsPerMetric maxTagKeyLength maxTagValueLength : Int) :
    TagPolicy where
  blockedKeys := ((blocklistCSV.splitOn 44 ++ reservedLabelKeys).map normalizeLabelKey).filter
    (fun key => key ≠ [] ∧ key ≠ ascii "label")
  maxTagsPerMetric
  maxTagKeyLength
  maxTagValueLength

/-- The loop of `Apply`, for one tag. -/
def TagPolicy.applyTag (p : TagPolicy) (acc : Labels × TagDropStats) (tag : Bytes × Bytes) :
    Labels × TagDropStats :=
  let (filtered, drops) := acc
  let key := normalizeLabelKey tag.1
  if key ∈ p.blockedKeys then (filtered, { drops with blockedKeys := drops.blockedKeys + 1 })
  else if key.length > p.maxTagKeyLength then
    (filtered, { drops with maxKeyLength := drops.maxKeyLength + 1 })
  else
    let value := sanitizeLabelValue tag.2
    if value.length > p.maxTagValueLength then
      (filtered, { drops with maxValueLength := drops.maxValueLength + 1 })
    else if filtered.entries.length ≥ p.maxTagsPerMetric then
      (filtered, { drops with maxTagsPerMetric := drops.maxTagsPerMetric + 1 })
    else (filtered.insert key value, drops)

def TagPolicy.apply (p : TagPolicy) (tags : Labels) : Labels × TagDropStats :=
  (sortedLabels tags).foldl p.applyTag (∅, ⟨0, 0, 0, 0⟩)

/-! ## Raw series -/

inductive MappingError where
  /-- `counter sample rate must be positive` -/
  | sampleRate
  /-- `unsupported metric type %q` -/
  | unsupportedType (type : MetricType)
  /-- `invalid value for metric %q` -/
  | invalidValue (name : Bytes)
  deriving DecidableEq

/-- The least number that rounds to an infinite float64, `2 ^ 1024 - 2 ^ 970`. -/
def float64Overflow : ℚ := ((1 <<< 1024 - 1 <<< 970 : ℕ) : ℚ)

/-- The quotient of two finite values, or `none` where it is infinite. -/
def float64Quotient (value rate : ℚ) : Option ℚ :=
  if -float64Overflow < value / rate ∧ value / rate < float64Overflow then some (value / rate)
  else none

/-- The series of one metric. `unixNano` is the time it was received. -/
def buildRawSeries (m : Metric) (tags : Labels) (unixNano : Int) : Except MappingError TimeSeries :=
  let baseName := normalizeMetricName m.name
  let labels : Labels := tags.entries.foldl (fun labels tag => labels.insert tag.1 tag.2)
    (AList.singleton (ascii "is_custom") (ascii "true"))
  -- The parser only lets finite values through: `none` is a quotient that is not.
  let series := fun (suffix : String) (value : Option ℚ) =>
    match value with
    | none => .error (.invalidValue m.name)
    | some value => .ok <| TimeSeries.mk
        (labelsMapToSortedPromLabels (baseName ++ ascii suffix) labels)
        [⟨value, unixNano.tdiv 1000000⟩]
  match m.type with
  | .counter =>
    if m.sampleRate ≤ 0 then .error .sampleRate
    else series "_counter_event" (float64Quotient m.value m.sampleRate)
  | .gauge => series "_gauge" (some m.value)
  | .timer => series "_timer_ms" (some m.value)
  | .histogram => series "_histogram_value" (some m.value)
  | .set => series "_set_event" (some 1)
  | .other text => .error (.unsupportedType (.other text))

/-! ## The number of series -/

inductive LimitReason where
  /-- `series_cap_metric` -/
  | seriesCapMetric
  /-- `series_cap_global` -/
  | seriesCapGlobal
  deriving DecidableEq

/-- What `Allow` returns: the reason of a refusal, and the number of active series. -/
structure Reply where
  refused : Option LimitReason
  active : Int

/-- The first result of `Allow`. -/
def Reply.allowed (r : Reply) : Bool := r.refused.isNone

/-- The second result of `Allow`. -/
def Reply.reason (r : Reply) : Bytes :=
  match r.refused with
  | some .seriesCapMetric => ascii "series_cap_metric"
  | some .seriesCapGlobal => ascii "series_cap_global"
  | none => []

/-- `seriesLimiter`. It stores when each series was last seen, in a table for each metric. -/
structure SeriesLimiter where
  perMetricCap : Int
  globalCap : Int
  ttl : Int
  lastPrune : Option Int
  byMetric : Dict Bytes (Dict Bytes Int)
  total : Int

def newSeriesLimiter (perMetricCap globalCap ttl : Int) : SeriesLimiter :=
  ⟨perMetricCap, globalCap, ttl, none, ∅, 0⟩

def labelValue (labels : List (Bytes × Bytes)) (name : Bytes) : Bytes :=
  match labels.find? (fun label => label.1 = name) with
  | some label => label.2
  | none => []

/-- The name under which the series of a metric are stored. -/
def metricNameOf (series : TimeSeries) : Bytes :=
  let name := labelValue series.labels (ascii "__name__")
  if name = [] then ascii "unnamed_metric" else name

def seriesFingerprint (series : TimeSeries) : Bytes :=
  series.labels.flatMap (fun label => label.1 ++ [61] ++ label.2 ++ [0xff])

namespace SeriesLimiter

variable (l : SeriesLimiter)

/-- The loop of `pruneExpiredLocked`, for one metric. -/
def pruneMetric (cutoff : Int) (l : SeriesLimiter) (entry : Σ _ : Bytes, Dict Bytes Int) :
    SeriesLimiter :=
  let kept := entry.2.filter (fun _ lastSeen => decide (¬ lastSeen < cutoff))
  { l with
    byMetric :=
      if kept.entries = [] then l.byMetric.erase entry.1 else l.byMetric.insert entry.1 kept
    total := l.total - (entry.2.entries.length - kept.entries.length) }

def pruneExpired (now : Int) : SeriesLimiter :=
  { l.byMetric.entries.foldl (pruneMetric (now - l.ttl)) l with lastPrune := some now }

/-- A pruning comes before the caps are looked at. -/
def pruneDue (now : Int) : Bool :=
  let pruneEvery := min (l.ttl / 10) 60000000000
  decide (pruneEvery ≤ 0) || l.lastPrune.all (fun last => now - last ≥ pruneEvery) ||
    decide (l.total ≥ l.globalCap)

/-- The limiter whose caps a series meets that is not stored. -/
def settled (now : Int) : SeriesLimiter := if l.pruneDue now then l.pruneExpired now else l

/-- The series of a metric. A metric without a table has none. -/
def table (metricName : Bytes) : Dict Bytes Int := (l.byMetric.lookup metricName).getD ∅

/-- The limiter that has seen a series. -/
def noted (metricName fingerprint : Bytes) (now : Int) : SeriesLimiter :=
  { l with byMetric := l.byMetric.insert metricName ((l.table metricName).insert fingerprint now) }

/-- The series is seen for the first time, or again after it has expired. -/
def track (metricName fingerprint : Bytes) (now : Int) : Reply × SeriesLimiter :=
  let l := l.settled now
  if (l.table metricName).entries.length ≥ l.perMetricCap then
    (⟨some .seriesCapMetric, l.total⟩, l)
  else if l.total ≥ l.globalCap then (⟨some .seriesCapGlobal, l.total⟩, l)
  else
    let l := { l.noted metricName fingerprint now with total := l.total + 1 }
    (⟨none, l.total⟩, l)

def allow (series : TimeSeries) (now : Int) : Reply × SeriesLimiter :=
  let metricName := metricNameOf series
  let fingerprint := seriesFingerprint series
  if fingerprint ∈ l.table metricName then (⟨none, l.total⟩, l.noted metricName fingerprint now)
  else l.track metricName fingerprint now

end SeriesLimiter

/-! ## What passes the policy -/

/-- The keys that pass are normalized and not blocked. -/
def TagPolicy.Passes (p : TagPolicy) (tags : Labels) : Prop :=
  ∀ key ∈ tags, key ∉ p.blockedKeys ∧ ∃ raw, key = normalizeLabelKey raw

theorem passes_applyTag {p : TagPolicy} {acc : Labels × TagDropStats} (h : p.Passes acc.1)
    (tag : Bytes × Bytes) : p.Passes (p.applyTag acc tag).1 := by
  unfold TagPolicy.applyTag
  simp only
  split
  · exact h
  rename_i hblocked
  split
  · exact h
  split
  · exact h
  split
  · exact h
  · intro key hkey
    rcases (AList.mem_insert _).mp hkey with rfl | hkey
    · exact ⟨hblocked, tag.1, rfl⟩
    · exact h key hkey

theorem passes_apply (p : TagPolicy) (tags : Labels) : p.Passes (p.apply tags).1 := by
  have hfold : ∀ (l : List (Bytes × Bytes)) (acc : Labels × TagDropStats), p.Passes acc.1 →
      p.Passes (l.foldl p.applyTag acc).1 := by
    intro l
    induction l with
    | nil => exact fun _ h => h
    | cons tag l ih => exact fun acc h => ih _ (passes_applyTag h tag)
  exact hfold _ _ fun key hkey => absurd hkey (by simp)

theorem mem_blockedKeys (blocklistCSV : Bytes) (m₁ m₂ m₃ : Int) {key : Bytes}
    (hkey : key ∈ reservedLabelKeys) :
    normalizeLabelKey key ∈ (newTagPolicy blocklistCSV m₁ m₂ m₃).blockedKeys := by
  have hnamed : ∀ k ∈ reservedLabelKeys, normalizeLabelKey k ≠ [] ∧
      normalizeLabelKey k ≠ ascii "label" := by decide
  refine List.mem_filter.mpr ⟨?_, by simpa using hnamed key hkey⟩
  exact List.mem_map_of_mem (List.mem_append_right _ hkey)

/-- **No tag that passes the policy has a reserved key.** `__name__` is no normalized key, and the
others are normalized to themselves. -/
theorem apply_not_reserved (blocklistCSV : Bytes) (m₁ m₂ m₃ : Int) (tags : Labels) {key : Bytes}
    (hkey : key ∈ reservedLabelKeys) :
    key ∉ ((newTagPolicy blocklistCSV m₁ m₂ m₃).apply tags).1 := by
  intro hmem
  obtain ⟨hblocked, raw, hraw⟩ := passes_apply _ tags key hmem
  have hself : ∀ k ∈ reservedLabelKeys, k = ascii "__name__" ∨ normalizeLabelKey k = k := by decide
  rcases hself key hkey with rfl | hself
  · exact normalizeLabelKey_ne_name raw hraw.symm
  · exact hblocked (hself ▸ mem_blockedKeys blocklistCSV m₁ m₂ m₃ hkey)

/-! ## What the limiter admits -/

namespace SeriesLimiter

variable {l : SeriesLimiter} {series : TimeSeries}

/-- The series is stored. -/
def Seen (l : SeriesLimiter) (series : TimeSeries) : Prop :=
  seriesFingerprint series ∈ l.table (metricNameOf series)

theorem Seen.congr {series' : TimeSeries} (h : l.Seen series)
    (hlabels : series'.labels = series.labels) : l.Seen series' := by
  unfold Seen seriesFingerprint metricNameOf
  rw [hlabels]
  exact h

theorem table_noted (l : SeriesLimiter) (metricName fingerprint : Bytes) (now : Int) :
    (l.noted metricName fingerprint now).table metricName =
      (l.table metricName).insert fingerprint now := by
  rw [table, noted, AList.lookup_insert, Option.getD_some]

theorem allow_seen (h : l.Seen series) (now : Int) : l.allow series now =
    (⟨none, l.total⟩, l.noted (metricNameOf series) (seriesFingerprint series) now) := if_pos h

theorem allow_unseen (h : ¬ l.Seen series) (now : Int) :
    l.allow series now = l.track (metricNameOf series) (seriesFingerprint series) now := if_neg h

/-- **What a call can do.** A stored series is noted again; any other meets the caps. -/
theorem allow_cases (l : SeriesLimiter) (series : TimeSeries) (now : Int) :
    (l.Seen series ∧ l.allow series now =
      (⟨none, l.total⟩, l.noted (metricNameOf series) (seriesFingerprint series) now)) ∨
    ¬ l.Seen series ∧
      ((l.settled now).perMetricCap ≤
          ((l.settled now).table (metricNameOf series)).entries.length ∧
        l.allow series now = (⟨some .seriesCapMetric, (l.settled now).total⟩, l.settled now) ∨
      (l.settled now).globalCap ≤ (l.settled now).total ∧
        l.allow series now = (⟨some .seriesCapGlobal, (l.settled now).total⟩, l.settled now) ∨
      ((l.settled now).table (metricNameOf series)).entries.length < (l.settled now).perMetricCap ∧
        (l.settled now).total < (l.settled now).globalCap ∧
        l.allow series now = (⟨none, (l.settled now).total + 1⟩,
          { (l.settled now).noted (metricNameOf series) (seriesFingerprint series) now with
            total := (l.settled now).total + 1 })) := by
  by_cases h : l.Seen series
  · exact .inl ⟨h, allow_seen h now⟩
  · refine .inr ⟨h, ?_⟩
    simp only [allow_unseen h, track]
    split
    · next hmetric => exact .inl ⟨hmetric, rfl⟩
    next hmetric =>
    split
    · next hglobal => exact .inr (.inl ⟨hglobal, rfl⟩)
    · next hglobal => exact .inr (.inr ⟨not_le.mp hmetric, not_le.mp hglobal, rfl⟩)

theorem allow_of_seen (h : l.Seen series) (now : Int) :
    (l.allow series now).1.refused = none := by
  rw [allow_seen h]

theorem seen_allow {now : Int} (h : (l.allow series now).1.refused = none) :
    (l.allow series now).2.Seen series := by
  have hnoted : ∀ l : SeriesLimiter, seriesFingerprint series ∈
      (l.noted (metricNameOf series) (seriesFingerprint series) now).table (metricNameOf series) :=
    fun l => by rw [table_noted]; exact (AList.mem_insert _).mpr (.inl rfl)
  rcases allow_cases l series now with ⟨-, heq⟩ | ⟨-, ⟨-, heq⟩ | ⟨-, heq⟩ | ⟨-, -, heq⟩⟩ <;>
    rw [heq] at h ⊢
  · exact hnoted l
  · cases h
  · cases h
  · exact hnoted (l.settled now)

theorem allow_new {perMetricCap globalCap : Int} (hmetric : 0 < perMetricCap)
    (hglobal : 0 < globalCap) (ttl : Int) (series : TimeSeries) (now : Int) :
    ((newSeriesLimiter perMetricCap globalCap ttl).allow series now).1.refused = none := by
  have hsettled : (newSeriesLimiter perMetricCap globalCap ttl).settled now =
      { newSeriesLimiter perMetricCap globalCap ttl with lastPrune := some now } := by
    simp [settled, pruneDue, newSeriesLimiter, pruneExpired]
  rcases allow_cases (newSeriesLimiter perMetricCap globalCap ttl) series now with
    ⟨-, heq⟩ | ⟨-, ⟨hfull, -⟩ | ⟨hfull, -⟩ | ⟨-, -, heq⟩⟩
  · rw [heq]
  · rw [hsettled] at hfull
    exact absurd hfull (not_le.mpr hmetric)
  · rw [hsettled] at hfull
    exact absurd hfull (not_le.mpr hglobal)
  · rw [heq]

end SeriesLimiter

end Dogstatsd
