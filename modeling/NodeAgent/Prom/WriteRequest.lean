import NodeAgent.Dogstatsd.Pipeline

/-!
# The series of a scrape (`prom/remote_writer.go`)

`makeLabels` adds the label `le` for the bound of a bucket to names that may have it already, and
takes the bound for the value of every label of this name. The receiver of a remote write expects
label names that ascend.

* `payload_ascending_iff` — when the label names of all series ascend
* `labels_shown_iff` — when the series of a metric show its labels
-/

namespace Prom

open Infra Dogstatsd

/-! ## The request -/

structure Bucket where
  /-- the upper bound, as `fmt.Sprint` prints it -/
  upperBound : Bytes
  cumulativeCount : Nat

structure Histogram where
  bucket : List Bucket
  sampleCount : Nat
  sampleSum : ℚ

/-- `dto.Metric`. Summaries and untyped values are left out by `addTimeseries`. -/
structure GatheredMetric where
  label : List (Bytes × Bytes)
  gauge : Option ℚ
  counter : Option ℚ
  histogram : Option Histogram

structure MetricFamily where
  name : Bytes
  metric : List GatheredMetric

def makeLabelsMap (m : GatheredMetric) (metricName : Bytes) (extraLabels : Labels) : Labels :=
  let labels : Labels := AList.insert (ascii "__name__") metricName ∅
  let labels := extraLabels.entries.foldl (fun l e => l.insert e.1 e.2) labels
  m.label.foldl (fun l e => l.insert e.1 e.2) labels

/-- The value of a label in the loop of `makeLabels`. -/
def labelValue (labelsMap : Labels) (metricNameSuffix bucket name : Bytes) : Bytes :=
  let value := (labelsMap.lookup name).getD []
  if name = ascii "__name__" then value ++ metricNameSuffix
  else if name = ascii "le" then bucket
  else value

def makeLabels (labelsMap : Labels) (metricNameSuffix bucket : Bytes) : List (Bytes × Bytes) :=
  let labelNames := labelsMap.keys ++ if bucket = [] then [] else [ascii "le"]
  let sortedLabelNames := labelNames.insertionSort (· ≤ ·)
  sortedLabelNames.map fun name => (name, labelValue labelsMap metricNameSuffix bucket name)

def newSeries (labels : Labels) (timestamp : Int) (suffix bucket : Bytes) (value : ℚ) :
    TimeSeries :=
  ⟨makeLabels labels suffix bucket, [⟨value, timestamp⟩]⟩

/-- The case of a histogram in `addTimeseries`. -/
def histogramSeries (h : Histogram) (labels : Labels) (timestamp : Int) : List TimeSeries :=
  let series := newSeries labels timestamp
  h.bucket.map (fun b => series (ascii "_bucket") b.upperBound b.cumulativeCount) ++
    [series (ascii "_bucket") (ascii "+Inf") h.sampleCount, series (ascii "_sum") [] h.sampleSum,
      series (ascii "_count") [] h.sampleCount]

def addTimeseries (m : GatheredMetric) (labels : Labels) (timestamp : Int) : List TimeSeries :=
  match m.gauge, m.counter, m.histogram with
  | some value, _, _ => [newSeries labels timestamp [] [] value]
  | none, some value, _ => [newSeries labels timestamp [] [] value]
  | none, none, some h => histogramSeries h labels timestamp
  | none, none, none => []

/-- The series of the request, without its metadata. -/
def buildWriteRequest (mfs : List MetricFamily) (timestamp : Int) (extraLabels : Labels) :
    List TimeSeries :=
  mfs.flatMap fun mf => mf.metric.flatMap fun m =>
    addTimeseries m (makeLabelsMap m mf.name extraLabels) timestamp

def withExternalLabels (series : TimeSeries) (agentLabels : Labels) : TimeSeries :=
  addExternalLabels agentLabels series

/-- What `scrape` encodes: the series of the registry, and those of the sources. -/
def payload (mfs : List MetricFamily) (timestamp : Int) (labels sourceLabels : Labels)
    (sources : List (List TimeSeries)) : List TimeSeries :=
  buildWriteRequest mfs timestamp labels ++
    sources.flatten.map (fun series => withExternalLabels series sourceLabels)

/-! ## Label names -/

variable {labels : Labels} {suffix bucket : Bytes} {m : GatheredMetric} {timestamp : Int}
  {value : ℚ}

def Ascending (s : TimeSeries) : Prop := (s.labels.map Prod.fst).Pairwise (· < ·)

def GatheredMetric.IsHistogram (m : GatheredMetric) : Prop :=
  m.gauge = none ∧ m.counter = none ∧ m.histogram ≠ none

theorem addTimeseries_cases (m : GatheredMetric) (labels : Labels) (timestamp : Int) :
    (m.IsHistogram ∧ ∃ h, addTimeseries m labels timestamp = histogramSeries h labels timestamp) ∨
    (¬ m.IsHistogram ∧ (addTimeseries m labels timestamp = [] ∨
      ∃ value, addTimeseries m labels timestamp = [newSeries labels timestamp [] [] value])) := by
  unfold addTimeseries GatheredMetric.IsHistogram
  split
  · next h => exact .inr ⟨by simp [h], .inr ⟨_, rfl⟩⟩
  · next h => exact .inr ⟨by simp [h], .inr ⟨_, rfl⟩⟩
  · next h1 h2 h3 => exact .inl ⟨⟨h1, h2, by simp [h3]⟩, _, rfl⟩
  · next h => exact .inr ⟨by simp [h], .inl rfl⟩

theorem ascending_of_sorted {s : TimeSeries} (h : (s.labels.map Prod.fst).Pairwise (· ≤ ·)) :
    Ascending s ↔ (s.labels.map Prod.fst).Nodup := by
  refine ⟨fun hs => hs.imp fun hab he => ?_, fun hnodup => (h.and hnodup).imp fun hab => ?_⟩
  · exact List.lt_irrefl _ (he ▸ hab)
  · exact Classical.byContradiction fun hba => hab.2 (List.le_antisymm hab.1 hba)

theorem ascending_newSeries_iff : Ascending (newSeries labels timestamp suffix bucket value) ↔
    bucket = [] ∨ ascii "le" ∉ labels := by
  have hnames : (makeLabels labels suffix bucket).map Prod.fst =
      (labels.keys ++ if bucket = [] then [] else [ascii "le"]).insertionSort (· ≤ ·) := by
    rw [makeLabels, List.map_map]
    exact List.map_id _
  rw [newSeries, ascending_of_sorted (hnames ▸ List.pairwise_insertionSort _ _), hnames,
    (List.perm_insertionSort _ _).nodup_iff]
  split
  · next h => simp [h, labels.keys_nodup]
  · next h =>
    rw [(List.perm_append_singleton _ _).nodup_iff, List.nodup_cons, ← AList.mem_keys]
    simp [h, labels.keys_nodup]

theorem ascending_addTimeseries_iff : (∀ s ∈ addTimeseries m labels timestamp, Ascending s) ↔
    (m.IsHistogram → ascii "le" ∉ labels) := by
  obtain ⟨hm, h, heq⟩ | ⟨hm, heq | ⟨value, heq⟩⟩ := addTimeseries_cases m labels timestamp
  · -- the series for the bound `+Inf` is there in any case
    have hinf : ascii "+Inf" ≠ [] := by decide
    simp only [heq, histogramSeries, List.forall_mem_append, List.forall_mem_map,
      List.forall_mem_cons, ascending_newSeries_iff, hinf, hm]
    exact ⟨fun hall _ => hall.2.1.resolve_left id, fun hle => by simp [hle]⟩
  · simp [heq, hm]
  · simp [heq, hm, ascending_newSeries_iff]

theorem mem_foldl_insert {α : Type} {k : Bytes} {f g : α → Bytes} {l : List α} :
    ∀ {labels : Labels}, k ∈ l.foldl (fun labels e => labels.insert (f e) (g e)) labels ↔
      k ∈ l.map f ∨ k ∈ labels := by
  induction l with
  | nil => simp
  | cons e l ih =>
    intro labels
    rw [List.foldl_cons, ih, AList.mem_insert, List.map_cons, List.mem_cons]
    tauto

theorem le_mem_makeLabelsMap {name : Bytes} : ascii "le" ∈ makeLabelsMap m name labels ↔
    ascii "le" ∈ m.label.map Prod.fst ∨ ascii "le" ∈ labels := by
  have hname : ascii "le" ≠ ascii "__name__" := by decide
  rw [makeLabelsMap, mem_foldl_insert (f := Prod.fst) (g := Prod.snd),
    mem_foldl_insert (f := Sigma.fst) (g := fun e : (_ : Bytes) × Bytes => e.2),
    AList.mem_insert, show labels.entries.map Sigma.fst = labels.keys from rfl, ← AList.mem_keys]
  simp [hname]

/-- **The label names of all series of a scrape ascend if and only if no histogram has a label `le`
of its own or from the agent.** -/
theorem payload_ascending_iff (mfs : List MetricFamily) (timestamp : Int)
    (labels sourceLabels : Labels) (sources : List (List TimeSeries)) :
    (∀ s ∈ payload mfs timestamp labels sourceLabels sources, Ascending s) ↔
      ∀ mf ∈ mfs, ∀ m ∈ mf.metric, m.IsHistogram →
        ascii "le" ∉ m.label.map Prod.fst ∧ ascii "le" ∉ labels := by
  have hsource : ∀ s, Ascending (withExternalLabels s sourceLabels) := fun s =>
    (ascending_of_sorted (Dict.pairwise_keys_sortedEntries (fun _ _ => List.le_total _ _)
      (fun _ _ _ => List.le_trans) _)).mpr (Dict.nodup_keys_sortedEntries _)
  simp only [payload, buildWriteRequest, List.forall_mem_append, List.forall_mem_flatMap,
    List.forall_mem_map, ascending_addTimeseries_iff, le_mem_makeLabelsMap, not_or]
  exact ⟨fun h => h.1, fun h => ⟨h, fun s _ => hsource s⟩⟩

/-! ## Label values -/

def Shows (labels : Labels) (s : TimeSeries) : Prop :=
  ∀ n v, labels.lookup n = some v → n ≠ ascii "__name__" → (n, v) ∈ s.labels

theorem shows_newSeries_iff : Shows labels (newSeries labels timestamp suffix bucket value) ↔
    ∀ v, labels.lookup (ascii "le") = some v → v = bucket := by
  have hle : ascii "le" ≠ ascii "__name__" := by decide
  have hmem : ∀ n v, labels.lookup n = some v →
      ((n, v) ∈ (newSeries labels timestamp suffix bucket value).labels ↔
        v = labelValue labels suffix bucket n) := by
    intro n v hv
    have hkey : n ∈ labels := AList.lookup_isSome.mp (Option.isSome_of_eq_some hv)
    simp [newSeries, makeLabels, ← AList.mem_keys, hkey, eq_comm]
  constructor
  · intro h v hv
    simpa [labelValue, hle] using (hmem _ v hv).mp (h _ v hv hle)
  · intro h n v hv hn
    rw [hmem n v hv, labelValue, if_neg hn]
    split
    · next he => exact h v (he ▸ hv)
    · simp [hv]

/-- **The series of a metric show its labels if and only if it has no label `le`**, or is no
histogram and has an empty one. -/
theorem labels_shown_iff (m : GatheredMetric) (labels : Labels) (timestamp : Int) :
    (∀ s ∈ addTimeseries m labels timestamp, Shows labels s) ↔
      addTimeseries m labels timestamp = [] ∨
        ∀ v, labels.lookup (ascii "le") = some v → v = [] ∧ ¬ m.IsHistogram := by
  obtain ⟨hm, h, heq⟩ | ⟨hm, heq | ⟨value, heq⟩⟩ := addTimeseries_cases m labels timestamp
  · have hinf : ascii "+Inf" ≠ [] := by decide
    simp only [heq, histogramSeries, List.forall_mem_append, List.forall_mem_map,
      List.forall_mem_cons, shows_newSeries_iff, hm]
    constructor
    · -- the value would have to be `+Inf` and empty
      rintro ⟨_, h1, h2, _⟩
      exact .inr fun v hv => absurd ((h1 v hv).symm.trans (h2 v hv)) hinf
    · intro hall
      have hno : ∀ v, labels.lookup (ascii "le") ≠ some v := by simpa using hall
      simp [hno]
  · simp [heq]
  · simp [heq, hm, shows_newSeries_iff]

end Prom
