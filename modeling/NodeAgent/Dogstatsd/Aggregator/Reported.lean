import Mathlib.Algebra.Order.BigOperators.Group.List
import NodeAgent.Infra.Sequences
import NodeAgent.Dogstatsd.Aggregator.Bound
import NodeAgent.Dogstatsd.Aggregator.Reference

/-!
# What a flush reports

A window takes the samples that are accepted until it is rotated. Its flush reports the reference of
every key that got a sample, which does not depend on the order of the samples. What a gauge shows
does.

* `snapshot_reference` — the flush of a window, for every order of its samples
-/

namespace Dogstatsd

open Infra

variable {cfg : AggregationConfig} {first s : Submission} {own : List Submission}

/-! ## Windows -/

def submissions (steps : List FlushStep) : List Submission :=
  steps.filterMap fun next =>
    match next with
    | .add metric tags _ => some ⟨metric, tags⟩
    | _ => none

/-- Every sample is accepted, and a rotation finds the window before still waiting. -/
def InWindow (sys : Flushing) : FlushStep → Prop
  | .add metric tags clock => (sys.agg.add metric tags clock).2 = none
  | .rotate => sys.agg.inflight ≠ []
  | _ => True

instance (sys : Flushing) : (next : FlushStep) → Decidable (InWindow sys next)
  | .add metric tags clock => inferInstanceAs (Decidable ((sys.agg.add metric tags clock).2 = none))
  | .rotate => inferInstanceAs (Decidable (sys.agg.inflight ≠ []))
  | .publish _ _ => inferInstanceAs (Decidable True)
  | .commit => inferInstanceAs (Decidable True)

theorem supported_of_recordable {metric : Metric} (h : metric.Recordable) :
    metric.type.Supported := by
  unfold Metric.Recordable at h
  revert h
  cases metric.type with
  | other text => exact fun h => h
  | _ => exact fun _ => trivial

theorem type_of_key {s t : Submission} (hs : s.metric.Recordable) (ht : t.metric.Recordable)
    (h : s.key = t.key) : s.metric.type = t.metric.type :=
  (aggregationKey_parts (normalizeMetricName_no_separator _) (normalizeMetricName_no_separator _)
    (supported_of_recordable hs) (supported_of_recordable ht) h).2.1

/-- What is found at a key that has these samples. -/
def Reports (cfg : AggregationConfig) (found : Option AggregateState) : List Submission → Prop
  | [] => found = none
  | first :: rest => ∃ state, found = some state ∧ Describes cfg first (first :: rest) state

theorem Reports.absorb {found : Option AggregateState} (h : Reports cfg found own)
    (htype : ∀ t ∈ own, s.metric.type = t.metric.type) (hrecordable : s.metric.Recordable)
    (shown : ℚ) :
    Reports cfg (some ((found.getD (Aggregator.emptyState cfg s.metric s.tags)).absorb cfg s.metric
      shown)) (own ++ [s]) := by
  cases own with
  | nil =>
    have hnone : found = none := h
    rw [hnone]
    exact ⟨_, rfl, (describes_empty cfg s).absorb rfl hrecordable shown⟩
  | cons first rest =>
    obtain ⟨state, rfl, hstate⟩ := h
    exact ⟨_, rfl, hstate.absorb (htype first List.mem_cons_self) hrecordable shown⟩

/-- The states of the active window are those of these samples. -/
structure Holding (cfg : AggregationConfig) (samples : List Submission) (a : Aggregator) :
    Prop where
  config : a.cfg = cfg
  recordable : ∀ s ∈ samples, s.metric.Recordable
  states : ∀ k, Reports cfg (a.series.lookup k) (samples.filter (fun s => s.key = k))

namespace Holding

variable {samples : List Submission} {a a' : Aggregator} {formatFloat : ℚ → Bytes}

theorem same (h : Holding cfg samples a) (hcfg : a'.cfg = a.cfg) (hseries : a'.series = a.series) :
    Holding cfg samples a' :=
  ⟨hcfg.trans h.config, h.recordable, fun k => by rw [hseries]; exact h.states k⟩

theorem add (h : Holding cfg samples a) {metric : Metric} {tags : Labels} {clock : Int}
    (haccepted : (a.add metric tags clock).2 = none) :
    Holding cfg (samples ++ [⟨metric, tags⟩]) (a.add metric tags clock).1 := by
  have hadded := Aggregator.add_accepted haccepted
  refine ⟨hadded.cfg.trans h.config, fun s hs => ?_, fun k => ?_⟩
  · rcases List.mem_append.mp hs with hs | hs
    · exact h.recordable s hs
    · rw [List.mem_singleton.mp hs]
      exact hadded.recordable
  · rw [hadded.series k, List.filter_append]
    by_cases hk : k = metric.aggregationKey tags
    · rw [if_pos hk, List.filter_singleton, decide_eq_true (show Submission.key ⟨metric, tags⟩ = k
        from hk.symm), cond_true, ← hk, h.config]
      refine (h.states k).absorb (s := ⟨metric, tags⟩) (fun t ht => ?_) hadded.recordable _
      obtain ⟨hmem, hkey⟩ := List.mem_filter.mp ht
      exact type_of_key (s := ⟨metric, tags⟩) hadded.recordable (h.recordable t hmem)
        (hk.symm.trans (of_decide_eq_true hkey).symm)
    · rw [if_neg hk, List.filter_singleton, decide_eq_false (show Submission.key ⟨metric, tags⟩ ≠ k
        from fun he => hk he.symm), cond_false, List.append_nil]
      exact h.states k

theorem run : ∀ (steps : List FlushStep) {samples : List Submission} {sys : Flushing},
    Holding cfg samples sys.agg → EveryStep (Flushing.step formatFloat) InWindow sys steps →
      Holding cfg (samples ++ submissions steps) (sys.run formatFloat steps).agg
  | [], samples, sys, h, _ => by
    rw [submissions, List.filterMap_nil, List.append_nil]
    exact h
  | next :: steps, samples, sys, h, hwindow => by
    obtain ⟨hnext, hrest⟩ := hwindow
    cases next with
    | add metric tags clock =>
      have hrun := run steps (h.add hnext) hrest
      rwa [List.append_assoc] at hrun
    | rotate =>
      have hsame : (sys.step formatFloat .rotate).agg = sys.agg := by
        rw [Flushing.step, Aggregator.rotate_of_waiting hnext]
      have hheld : Holding cfg samples (sys.step formatFloat .rotate).agg := hsame ▸ h
      exact run steps hheld hrest
    | publish index atMillis =>
      have hheld : Holding cfg samples (sys.step formatFloat (.publish index atMillis)).agg := by
        simp only [Flushing.step]
        split
        · exact h.same rfl rfl
        · exact h
      exact run steps hheld hrest
    | commit =>
      have hheld : Holding cfg samples (sys.step formatFloat .commit).agg := h.same rfl rfl
      exact run steps hheld hrest

/-! ### Rendering -/

def keys (a : Aggregator) : List Bytes := a.series.sortedEntries.map Prod.fst

theorem nodup_keys (a : Aggregator) : (keys a).Nodup := Dict.nodup_keys_sortedEntries _

theorem pairwise_keys (a : Aggregator) : (keys a).Pairwise (· ≤ ·) :=
  Dict.pairwise_keys_sortedEntries (fun _ _ => List.le_total _ _) (fun _ _ _ => List.le_trans) _

theorem mem_keys (h : Holding cfg samples a) (k : Bytes) :
    k ∈ keys a ↔ ∃ s ∈ samples, s.key = k := by
  have hfound : k ∈ keys a ↔ a.series.lookup k ≠ none := by
    rw [keys, List.mem_map]
    constructor
    · rintro ⟨⟨k', state⟩, hmem, rfl⟩ hnone
      rw [Dict.mem_sortedEntries.mp hmem] at hnone
      cases hnone
    · intro hne
      obtain ⟨state, hstate⟩ := Option.ne_none_iff_exists'.mp hne
      exact ⟨(k, state), Dict.mem_sortedEntries.mpr hstate, rfl⟩
  have hreports := h.states k
  rw [hfound]
  constructor
  · intro hne
    cases hown : samples.filter (fun s => s.key = k) with
    | nil =>
      rw [hown] at hreports
      exact absurd hreports hne
    | cons first rest =>
      have hmem : first ∈ samples.filter (fun s => s.key = k) := hown ▸ List.mem_cons_self
      exact ⟨first, List.mem_of_mem_filter hmem, of_decide_eq_true (List.mem_filter.mp hmem).2⟩
  · rintro ⟨s, hs, hkey⟩ hnone
    have hmem : s ∈ samples.filter (fun s => s.key = k) :=
      List.mem_filter.mpr ⟨hs, decide_eq_true hkey⟩
    cases hown : samples.filter (fun s => s.key = k) with
    | nil => rw [hown] at hmem; cases hmem
    | cons first rest =>
      rw [hown, hnone] at hreports
      obtain ⟨state, hstate, _⟩ := hreports
      cases hstate

def shown (a : Aggregator) (k : Bytes) : ℚ := ((a.series.lookup k).map AggregateState.value).getD 0

theorem windowSeries_eq (h : Holding cfg samples a) (formatFloat : ℚ → Bytes) (atMillis : Int) :
    windowSeries formatFloat a.cfg atMillis a.series =
      (keys a).flatMap (keyReference formatFloat atMillis cfg (shown a) samples) := by
  rw [windowSeries, keys, List.flatMap_map]
  refine List.flatMap_congr ?_
  rintro ⟨k, state⟩ hmem
  have hstate := Dict.mem_sortedEntries.mp hmem
  have hreports := h.states k
  rw [hstate] at hreports
  have hshown : shown a k = state.value := by rw [shown, hstate]; rfl
  show stateSeries formatFloat a.cfg atMillis state = keyReference _ _ _ _ _ k
  rw [keyReference, hshown, h.config]
  cases hown : samples.filter (fun s => s.key = k) with
  | nil => rw [hown] at hreports; cases hreports
  | cons first rest =>
    rw [hown] at hreports
    obtain ⟨_, heq, hdescribes⟩ := hreports
    cases heq
    exact hdescribes.series formatFloat atMillis

theorem snapshot (h : Holding cfg samples a) (hidle : a.inflight = []) (formatFloat : ℚ → Bytes)
    (atMillis : Int) : (a.snapshot formatFloat atMillis).1 =
      (keys a).flatMap (keyReference formatFloat atMillis cfg (shown a) samples) := by
  rw [Aggregator.snapshot, Aggregator.rotate_of_none hidle]
  exact h.windowSeries_eq formatFloat atMillis

theorem keys_congr {samples' : List Submission} (h : Holding cfg samples a)
    (h' : Holding cfg samples' a') (hperm : samples'.Perm samples) : keys a' = keys a := by
  refine List.Perm.eq_of_pairwise (fun _ _ _ _ => List.le_antisymm) (pairwise_keys a')
    (pairwise_keys a) ?_
  refine (List.perm_ext_iff_of_nodup (nodup_keys a') (nodup_keys a)).mpr fun k => ?_
  rw [h'.mem_keys, h.mem_keys]
  exact exists_congr fun s => and_congr_left' hperm.mem_iff

end Holding

/-! ## Another order -/

theorem aggregateSeries_congr {labels labels' : Labels}
    (h : ∀ k, labels.lookup k = labels'.lookup k) (name : Bytes) (value : ℚ) (atMillis : Int) :
    aggregateSeries name labels value atMillis = aggregateSeries name labels' value atMillis := by
  rw [aggregateSeries, aggregateSeries, labelsMapToSortedPromLabels, labelsMapToSortedPromLabels,
    sortedLabels_congr h]

section

variable {own' : List Submission} (h : own'.Perm own)

include h

theorem weightSum_perm : weightSum own' = weightSum own := (h.map _).sum_eq

theorem valueSum_perm : valueSum own' = valueSum own := (h.map _).sum_eq

theorem bucketSum_perm (bound : ℚ) : bucketSum own' bound = bucketSum own bound :=
  weightSum_perm (h.filter _)

theorem memberCount_perm : memberCount own' = memberCount own := (h.map _).dedup.length_eq

theorem referenceDistribution_perm {labels labels' : Labels}
    (hlabels : ∀ k, labels'.lookup k = labels.lookup k) (formatFloat : ℚ → Bytes) (atMillis : Int)
    (baseName : Bytes) (bounds : List ℚ) :
    referenceDistribution formatFloat atMillis baseName labels' bounds own' =
      referenceDistribution formatFloat atMillis baseName labels bounds own := by
  have hinsert : ∀ le k, (labels'.insert (ascii "le") le).lookup k =
      (labels.insert (ascii "le") le).lookup k := by
    intro le k
    rw [Dict.lookup_insert_eq, Dict.lookup_insert_eq, hlabels k]
  unfold referenceDistribution
  simp only [weightSum_perm h, valueSum_perm h, bucketSum_perm h, aggregateSeries_congr hlabels,
    aggregateSeries_congr (hinsert _)]

end

theorem referenceSeries_perm {first' : Submission} {own' : List Submission}
    (hname : normalizeMetricName first'.metric.name = normalizeMetricName first.metric.name)
    (htype : first'.metric.type = first.metric.type)
    (hlabels : ∀ k, (withCustom first'.tags).lookup k = (withCustom first.tags).lookup k)
    (h : own'.Perm own) (formatFloat : ℚ → Bytes) (atMillis : Int) (cfg : AggregationConfig)
    (shown : ℚ) :
    referenceSeries formatFloat atMillis cfg shown first' own' =
      referenceSeries formatFloat atMillis cfg shown first own := by
  unfold referenceSeries
  simp only [hname, htype]
  cases first.metric.type with
  | counter => simp only [valueSum_perm h, aggregateSeries_congr hlabels]
  | gauge => simp only [aggregateSeries_congr hlabels]
  | timer => exact referenceDistribution_perm h hlabels _ _ _ _
  | histogram => exact referenceDistribution_perm h hlabels _ _ _ _
  | set => simp only [memberCount_perm h, aggregateSeries_congr hlabels]
  | other text => rfl

/-- **The reference of a key is the same for any order of the samples.** -/
theorem keyReference_perm {samples samples' : List Submission} (hperm : samples'.Perm samples)
    (hrecordable : ∀ s ∈ samples, s.metric.Recordable) (hclean : ∀ s ∈ samples, Clean s.tags)
    (formatFloat : ℚ → Bytes) (atMillis : Int) (cfg : AggregationConfig) (shown : Bytes → ℚ)
    (k : Bytes) :
    keyReference formatFloat atMillis cfg shown samples' k =
      keyReference formatFloat atMillis cfg shown samples k := by
  have hown := hperm.filter (fun s => s.key = k)
  have hmem : ∀ s ∈ samples.filter (fun s => s.key = k),
      s.metric.type.Supported ∧ Clean (withCustom s.tags) ∧ s.key = k := by
    intro s hs
    obtain ⟨hs, hkey⟩ := List.mem_filter.mp hs
    exact ⟨supported_of_recordable (hrecordable s hs), (hclean s hs).withCustom,
      of_decide_eq_true hkey⟩
  unfold keyReference
  revert hown hmem
  cases samples.filter (fun s => s.key = k) with
  | nil =>
    intro hown _
    rw [hown.eq_nil]
  | cons first rest =>
    intro hown hmem
    cases hfilter : samples'.filter (fun s => s.key = k) with
    | nil =>
      rw [hfilter] at hown
      exact absurd hown.symm.eq_nil (List.cons_ne_nil _ _)
    | cons first' rest' =>
      rw [hfilter] at hown
      obtain ⟨hsupported, hlabels, hkey⟩ := hmem first List.mem_cons_self
      obtain ⟨hsupported', hlabels', hkey'⟩ :=
        hmem first' (hown.mem_iff.mp List.mem_cons_self)
      obtain ⟨htype, hname, hlookup⟩ := (aggregationKey_inj (normalizeMetricName_no_separator _)
        (normalizeMetricName_no_separator _) hsupported' hsupported hlabels' hlabels).mp
        (hkey'.trans hkey.symm)
      exact referenceSeries_perm hname htype hlookup hown _ _ _ _

/-! ## Buckets -/

theorem bucketSum_le_weightSum (h : ∀ s ∈ own, s.metric.ValidRate) (bound : ℚ) :
    bucketSum own bound ≤ weightSum own := by
  refine (List.filter_sublist.map _).sum_le_sum fun w hw => ?_
  obtain ⟨s, hs, rfl⟩ := List.mem_map.mp hw
  exact one_div_nonneg.mpr (h s hs).1.le

theorem bucketSum_mono (h : ∀ s ∈ own, s.metric.ValidRate) {bound bound' : ℚ}
    (hle : bound ≤ bound') : bucketSum own bound ≤ bucketSum own bound' := by
  have hfilter : own.filter (fun s => s.metric.value ≤ bound) =
      (own.filter (fun s => s.metric.value ≤ bound')).filter (fun s => s.metric.value ≤ bound) := by
    rw [List.filter_filter]
    refine List.filter_congr fun s _ => ?_
    by_cases hs : s.metric.value ≤ bound
    · simp [hs, hs.trans hle]
    · simp [hs]
  rw [bucketSum, hfilter]
  exact bucketSum_le_weightSum (fun s hs => h s (List.mem_of_mem_filter hs)) bound

/-- The counts of the buckets never fall from one bound to the next, nor to the last one. -/
def Cumulative (own : List Submission) (bounds : List ℚ) : Prop :=
  (bounds.map (bucketSum own) ++ [weightSum own]).Pairwise (· ≤ ·)

theorem cumulative_of_valid (h : ∀ s ∈ own, s.metric.ValidRate) {bounds : List ℚ}
    (hbounds : bounds.Pairwise (· < ·)) : Cumulative own bounds := by
  refine List.pairwise_append.mpr ⟨?_, List.pairwise_singleton _ _, ?_⟩
  · exact List.pairwise_map.mpr (hbounds.imp fun hlt => bucketSum_mono h hlt.le)
  · intro x hx y hy
    obtain ⟨bound, _, rfl⟩ := List.mem_map.mp hx
    rw [List.mem_singleton.mp hy]
    exact bucketSum_le_weightSum h bound

/-! ## The flush of a window -/

/-- The run begins with an empty window, stays in it, and ends when it can be flushed. -/
structure OneWindow (formatFloat : ℚ → Bytes) (sys : Flushing) (steps : List FlushStep) :
    Prop where
  empty : sys.agg.series = ∅
  accepted : EveryStep (Flushing.step formatFloat) InWindow sys steps
  idle : (sys.run formatFloat steps).agg.inflight = []

theorem OneWindow.holding {formatFloat : ℚ → Bytes} {sys : Flushing} {steps : List FlushStep}
    (h : OneWindow formatFloat sys steps) :
    Holding sys.agg.cfg (submissions steps) (sys.run formatFloat steps).agg := by
  have hstart : Holding sys.agg.cfg [] sys.agg := by
    refine ⟨rfl, fun s hs => absurd hs List.not_mem_nil, fun k => ?_⟩
    rw [h.empty]
    rfl
  exact hstart.run steps h.accepted

theorem Holding.cumulative {samples : List Submission} {a : Aggregator}
    (h : Holding cfg samples a) (hs : s ∈ samples) :
    (s.metric.type = .timer →
      Cumulative (samples.filter (fun t => t.key = s.key)) cfg.timerBucketsMS) ∧
    (s.metric.type = .histogram →
      Cumulative (samples.filter (fun t => t.key = s.key)) cfg.histogramBuckets) := by
  have hbounds := pairwise_buckets a.valid
  rw [h.config] at hbounds
  have hrates : ∀ type, type = .timer ∨ type = .histogram → s.metric.type = type →
      ∀ t ∈ samples.filter (fun t => t.key = s.key), t.metric.ValidRate := by
    intro type hdistribution htype t ht
    obtain ⟨ht, hkey⟩ := List.mem_filter.mp ht
    have hrecordable := h.recordable t ht
    have htype' := (type_of_key hrecordable (h.recordable s hs) (of_decide_eq_true hkey)).trans
      htype
    unfold Metric.Recordable at hrecordable
    rw [htype'] at hrecordable
    rcases hdistribution with rfl | rfl
    · exact hrecordable
    · exact hrecordable
  exact ⟨fun htype => cumulative_of_valid (hrates _ (.inl rfl) htype) hbounds.1,
    fun htype => cumulative_of_valid (hrates _ (.inr rfl) htype) hbounds.2⟩

/-- **The flush of a window reports the reference of every key that got a sample, each once, and
nothing else. Another order of the samples changes at most what the gauges show.** -/
theorem snapshot_reference {formatFloat : ℚ → Bytes} {sys : Flushing} {steps : List FlushStep}
    (h : OneWindow formatFloat sys steps) (atMillis : Int) :
    ∃ keys : List Bytes, keys.Nodup ∧ keys.Pairwise (· ≤ ·) ∧
      (∀ k, k ∈ keys ↔ ∃ s ∈ submissions steps, s.key = k) ∧
      (∀ s ∈ submissions steps,
        (s.metric.type = .timer → Cumulative ((submissions steps).filter (fun t => t.key = s.key))
          sys.agg.cfg.timerBucketsMS) ∧
        (s.metric.type = .histogram → Cumulative
          ((submissions steps).filter (fun t => t.key = s.key)) sys.agg.cfg.histogramBuckets)) ∧
      (∃ shown, ((sys.run formatFloat steps).agg.snapshot formatFloat atMillis).1 =
        keys.flatMap (keyReference formatFloat atMillis sys.agg.cfg shown (submissions steps))) ∧
      ∀ (sys' : Flushing) (steps' : List FlushStep), OneWindow formatFloat sys' steps' →
        sys'.agg.cfg = sys.agg.cfg → (submissions steps').Perm (submissions steps) →
        (∀ s ∈ submissions steps, Clean s.tags) →
        ∃ shown, ((sys'.run formatFloat steps').agg.snapshot formatFloat atMillis).1 =
          keys.flatMap
            (keyReference formatFloat atMillis sys.agg.cfg shown (submissions steps)) := by
  have hheld := h.holding
  refine ⟨Holding.keys (sys.run formatFloat steps).agg, Holding.nodup_keys _,
    Holding.pairwise_keys _, hheld.mem_keys, fun s hs => hheld.cumulative hs,
    ⟨_, hheld.snapshot h.idle formatFloat atMillis⟩, ?_⟩
  intro sys' steps' h' hcfg hperm hclean
  have hheld' := h'.holding
  rw [hcfg] at hheld'
  refine ⟨Holding.shown (sys'.run formatFloat steps').agg,
    (hheld'.snapshot h'.idle formatFloat atMillis).trans ?_⟩
  rw [hheld.keys_congr hheld' hperm]
  exact List.flatMap_congr fun k _ =>
    keyReference_perm hperm hheld.recordable hclean formatFloat atMillis _ _ k

/-! ## Small windows -/

def windowConfig : AggregationConfig := ⟨[1, 5], [1], 10, 10000, 100⟩

def windowStart : Flushing :=
  ⟨⟨windowConfig, by decide +kernel, ∅, [], 0, 0, ∅, 0, none⟩, []⟩

/-- A sample of the metric `x`. -/
def sampleStep (type : MetricType) (value rate : ℚ) : FlushStep :=
  .add ⟨ascii "x", type, value, [], false, rate, ∅, some 5⟩ ∅ 5

theorem snapshot_reference_small :
    OneWindow (fun _ => []) windowStart [sampleStep .timer 3 (1 / 2), sampleStep .counter 2 1] ∧
      ∃ keys : List Bytes, keys.Nodup ∧
        (∀ k, k ∈ keys ↔ ∃ s ∈ submissions [sampleStep .timer 3 (1 / 2), sampleStep .counter 2 1],
          s.key = k) ∧
        ∃ shown, ((windowStart.run (fun _ => []) [sampleStep .timer 3 (1 / 2),
          sampleStep .counter 2 1]).agg.snapshot (fun _ => []) 7).1 =
            keys.flatMap (keyReference (fun _ => []) 7 windowConfig shown
              (submissions [sampleStep .timer 3 (1 / 2), sampleStep .counter 2 1])) := by
  have hwindow : OneWindow (fun _ => []) windowStart
      [sampleStep .timer 3 (1 / 2), sampleStep .counter 2 1] :=
    ⟨rfl, ⟨by decide +kernel, by decide +kernel, trivial⟩, by decide +kernel⟩
  obtain ⟨keys, hnodup, _, hmem, _, hflush, _⟩ := snapshot_reference hwindow 7
  exact ⟨hwindow, keys, hnodup, hmem, hflush⟩

/-- **Two absolute updates of a gauge, in both orders.** -/
theorem gauge_order_matters :
    OneWindow (fun _ => []) windowStart [sampleStep .gauge 1 1, sampleStep .gauge 2 1] ∧
    OneWindow (fun _ => []) windowStart [sampleStep .gauge 2 1, sampleStep .gauge 1 1] ∧
    ((windowStart.run (fun _ => []) [sampleStep .gauge 1 1, sampleStep .gauge 2 1]).agg.snapshot
      (fun _ => []) 7).1 =
      [⟨[(ascii "__name__", ascii "x_gauge"), (ascii "is_custom", ascii "true")], [⟨2, 7⟩]⟩] ∧
    ((windowStart.run (fun _ => []) [sampleStep .gauge 2 1, sampleStep .gauge 1 1]).agg.snapshot
      (fun _ => []) 7).1 =
      [⟨[(ascii "__name__", ascii "x_gauge"), (ascii "is_custom", ascii "true")], [⟨1, 7⟩]⟩] :=
  ⟨⟨rfl, ⟨by decide +kernel, by decide +kernel, trivial⟩, by decide +kernel⟩,
    ⟨rfl, ⟨by decide +kernel, by decide +kernel, trivial⟩, by decide +kernel⟩,
    by decide +kernel, by decide +kernel⟩

end Dogstatsd
