import NodeAgent.Dogstatsd.SeriesKeys

/-!
# Metrics that `Add` accepts and metrics that it refuses

* `add_accepted` — the state of the metric absorbs it, and everything else stays
* `add_refused` — nothing is left of the metric but, of a new set, its empty state
-/

namespace Dogstatsd

open Infra

namespace Aggregator

variable {a a' : Aggregator} {key : Bytes} {state : AggregateState} {created : Option Int}
  {metric : Metric} {now : Int}

/-- The metric is recorded in the state at its key. -/
structure Recorded (a : Aggregator) (key : Bytes) (state : AggregateState) (metric : Metric)
    (now : Int) (a' : Aggregator) : Prop where
  cfg : a'.cfg = a.cfg
  inflight : a'.inflight = a.inflight
  inflightBytes : a'.inflightBytes = a.inflightBytes
  lastGaugePrune : a'.lastGaugePrune = a.lastGaugePrune
  recordable : metric.Recordable
  series : ∀ k, a'.series.lookup k =
    if k = key then some (state.absorb a.cfg metric (a.gaugeValue key metric))
    else a.series.lookup k
  gauges : a'.gauges =
    if metric.type = .gauge then
      a.gauges.insert key ⟨a.gaugeValue key metric, now, (a.baseline key).bytes⟩
    else a.gauges

theorem Recording.accepted {out : Aggregator × Option DropReason}
    (h : Recording a key state created metric now out) (hstate : a.series.lookup key = some state)
    (hout : out.2 = none) : Recorded a key state metric now out.1 := by
  cases h with
  | refused _ _ | unmade _ _ _ | unsupported _ _ => cases hout
  | known hset hmem =>
    refine ⟨rfl, rfl, rfl, rfl, ?_, fun k => ?_, ?_⟩
    · rw [Metric.Recordable, hset]
      trivial
    · -- the member is there already, and so is the state
      rw [AggregateState.absorb, hset]
      simp only [AggregateState.enter, if_pos hmem]
      by_cases hk : k = key
      · rw [if_pos hk, hk, hstate]
      · rw [if_neg hk]
    · rw [hset, if_neg (by decide)]
  | absorbed hgauge hrecordable _ =>
    exact ⟨rfl, rfl, rfl, rfl, hrecordable, fun k => Dict.lookup_insert_eq _ _ _ _,
      (if_neg hgauge).symm⟩
  | shown hgauge _ =>
    refine ⟨rfl, rfl, rfl, rfl, ?_, fun k => ?_, ?_⟩
    · rw [Metric.Recordable, hgauge]
      trivial
    · rw [AggregateState.absorb, hgauge]
      exact Dict.lookup_insert_eq _ _ _ _
    · rw [if_pos hgauge]
      rfl

theorem Recording.refused_cases {out : Aggregator × Option DropReason}
    (h : Recording a key state created metric now out) (hrecordable : metric.Recordable)
    (hout : out.2 ≠ none) :
    out.1 = a ∧ (metric.type = .set ∨ metric.type = .gauge ∧ created = none) ∨
    metric.type = .gauge ∧ ∃ bytes, created = some bytes ∧
      out.1 = { a with series := a.series.erase key, activeBytes := a.activeBytes - bytes } := by
  cases h with
  | refused reason hwhy =>
    rcases hwhy with ⟨hnot, _⟩ | hset | ⟨hgauge, hcreated, _⟩
    · exact absurd hrecordable hnot
    · exact .inl ⟨rfl, .inl hset⟩
    · exact .inl ⟨rfl, .inr ⟨hgauge, hcreated⟩⟩
  | unmade bytes hgauge hcreated => exact .inr ⟨hgauge, bytes, hcreated, rfl⟩
  | unsupported _ hnot => exact absurd hrecordable hnot
  | known _ _ | absorbed _ _ _ | shown _ _ => exact absurd rfl hout

/-! ## Adding -/

variable {tags : Labels} {clock : Int}

/-- The state at the key of the metric has absorbed it, and everything else is as pruning has left
it. -/
structure Added (a : Aggregator) (metric : Metric) (tags : Labels) (now : Int) (a' : Aggregator) :
    Prop where
  cfg : a'.cfg = a.cfg
  inflight : a'.inflight = a.inflight
  lastGaugePrune : a'.lastGaugePrune = (a.pruneGauges now).lastGaugePrune
  recordable : metric.Recordable
  series : ∀ k, a'.series.lookup k =
    if k = metric.aggregationKey tags then
      some (((a.series.lookup (metric.aggregationKey tags)).getD
        (emptyState a.cfg metric tags)).absorb a.cfg metric
          ((a.pruneGauges now).gaugeValue (metric.aggregationKey tags) metric))
    else a.series.lookup k
  gauges : a'.gauges =
    if metric.type = .gauge then
      (a.pruneGauges now).gauges.insert (metric.aggregationKey tags)
        ⟨(a.pruneGauges now).gaugeValue (metric.aggregationKey tags) metric, now,
          ((a.pruneGauges now).baseline (metric.aggregationKey tags)).bytes⟩
    else (a.pruneGauges now).gauges

theorem Adding.accepted {out : Aggregator × Option DropReason}
    (h : Adding (a.pruneGauges now) metric tags now out) (hout : out.2 = none) :
    Added a metric tags now out.1 := by
  have hpruned := pruned_pruneGauges a now
  cases h with
  | full _ _ => cases hout
  | found hstate hrec =>
    obtain ⟨hcfg, hin, _, hprune, hrecordable, hseries, hgauges⟩ := hrec.accepted hstate hout
    refine ⟨hcfg.trans hpruned.cfg, hin.trans hpruned.inflight, hprune, hrecordable, fun k => ?_,
      hgauges⟩
    rw [hseries, hpruned.cfg, ← hpruned.series, hstate, Option.getD_some]
  | made hnew _ hrec =>
    obtain ⟨hcfg, hin, _, hprune, hrecordable, hseries, hgauges⟩ :=
      hrec.accepted (by exact AList.lookup_insert _) hout
    refine ⟨hcfg.trans hpruned.cfg, hin.trans hpruned.inflight, hprune, hrecordable, fun k => ?_,
      hgauges⟩
    rw [hseries, ← hpruned.series, hnew, Option.getD_none, ← hpruned.cfg]
    by_cases hk : k = metric.aggregationKey tags
    · rw [if_pos hk, if_pos hk]
      rfl
    · rw [if_neg hk, if_neg hk]
      exact AList.lookup_insert_ne hk

theorem add_accepted (h : (a.add metric tags clock).2 = none) :
    Added a metric tags (metric.receivedAt.getD clock) (a.add metric tags clock).1 :=
  (add_spec a metric tags clock).accepted h

/-- A new set: its state fits, and nothing says yet that a member does. -/
def MakesSet (a : Aggregator) (metric : Metric) (tags : Labels) (now : Int) : Prop :=
  metric.type = .set ∧ metric.aggregationKey tags ∉ a.series ∧
    a.bytesAt now + estimateAggregateStateBytes (emptyState a.cfg metric tags) ≤ a.cfg.maxBytes

theorem Adding.refused_cases {out : Aggregator × Option DropReason}
    (h : Adding (a.pruneGauges now) metric tags now out) (hrecordable : metric.Recordable)
    (hout : out.2 ≠ none) :
    (¬ a.MakesSet metric tags now → out.1 = a.pruneGauges now) ∧
    (a.MakesSet metric tags now → metric.aggregationKey tags ∈ out.1.series) := by
  have hpruned := pruned_pruneGauges a now
  have hbytes := totalBytes_pruneGauges a now
  rw [MakesSet, ← hpruned.series, ← hbytes, ← hpruned.cfg]
  cases h with
  | full _ hlarge => exact ⟨fun _ => rfl, fun hmakes => absurd hmakes.2.2 (not_le.mpr hlarge)⟩
  | found hstate hrec =>
    have hmem := AList.lookup_isSome.mp (Option.isSome_of_mem hstate)
    refine ⟨fun _ => ?_, fun hmakes => absurd hmem hmakes.2.1⟩
    rcases hrec.refused_cases hrecordable hout with ⟨hsame, _⟩ | ⟨_, bytes, hcreated, _⟩
    · exact hsame
    · cases hcreated
  | made hnew hfits hrec =>
    rcases hrec.refused_cases hrecordable hout with ⟨hsame, htype⟩ |
      ⟨htype, bytes, hcreated, hundone⟩
    · -- the state of a set was made, and nothing undoes that
      have hset : metric.type = .set := htype.resolve_right fun hgauge => by cases hgauge.2
      refine ⟨fun hnot => absurd ⟨hset, AList.lookup_eq_none.mp hnew, hfits⟩ hnot, fun _ => ?_⟩
      rw [hsame]
      exact (AList.mem_insert _).mpr (.inl rfl)
    · cases hcreated
      refine ⟨fun _ => hundone.trans (unmake_withState hnew), fun hmakes => ?_⟩
      rw [hmakes.1] at htype
      cases htype

/-- **A metric that is refused leaves what pruning has left**, but for the first member of a set:
if its state fits and it does not, the state stays. -/
theorem add_refused (hrecordable : metric.Recordable) (h : (a.add metric tags clock).2 ≠ none) :
    (¬ a.MakesSet metric tags (metric.receivedAt.getD clock) →
      (a.add metric tags clock).1 = a.pruneGauges (metric.receivedAt.getD clock)) ∧
    (a.MakesSet metric tags (metric.receivedAt.getD clock) →
      metric.aggregationKey tags ∈ (a.add metric tags clock).1.series) :=
  (add_spec a metric tags clock).refused_cases hrecordable h

end Aggregator

end Dogstatsd
