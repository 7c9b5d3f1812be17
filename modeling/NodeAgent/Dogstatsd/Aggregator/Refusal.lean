import NodeAgent.Dogstatsd.Aggregator.Adding

/-!
# What a refused sample leaves

`Add` makes the state of a series before it checks the limits of the type. A gauge that is refused
takes its new state out again. A set does not: when the state fits and its first member does not,
the empty state stays, with its bytes, and the next flush reports a set without members.

* `refused_no_trace_iff` — this holds if and only if the sample does not make a set
-/

namespace Dogstatsd

open Infra

namespace Aggregator

variable {a a' : Aggregator} {metric : Metric} {tags : Labels} {now clock : Int}

/-- The windows and their bytes are as before, and so are the baselines that have not expired. -/
structure NoTrace (a : Aggregator) (now : Int) (a' : Aggregator) : Prop where
  series : a'.series = a.series
  activeBytes : a'.activeBytes = a.activeBytes
  inflight : a'.inflight = a.inflight
  inflightBytes : a'.inflightBytes = a.inflightBytes
  gauges : ∀ k, a'.gauges.lookup k = a.gauges.lookup k ∨
    a'.gauges.lookup k = none ∧ ∃ b, a.gauges.lookup k = some b ∧ a.Expired now b

theorem noTrace_pruneGauges (a : Aggregator) (now : Int) : NoTrace a now (a.pruneGauges now) := by
  have hpruned := pruned_pruneGauges a now
  refine ⟨hpruned.series, hpruned.activeBytes, hpruned.inflight, hpruned.inflightBytes,
    fun k => ?_⟩
  cases hb : a.gauges.lookup k with
  | none => exact .inl (lookup_pruneGauges_none hb)
  | some b =>
    by_cases hexpired : a.PruneDue now ∧ a.Expired now b
    · exact .inr ⟨lookup_pruneGauges_expired hb hexpired.1 hexpired.2, b, rfl, hexpired.2⟩
    · exact .inl (lookup_pruneGauges_kept hb hexpired)

theorem snapshot_congr (hcfg : a'.cfg = a.cfg) (hseries : a'.series = a.series)
    (hinflight : a'.inflight = a.inflight) (formatFloat : ℚ → Bytes) (atMillis : Int) :
    (a'.snapshot formatFloat atMillis).1 = (a.snapshot formatFloat atMillis).1 := by
  by_cases hwaits : a.inflight = []
  · rw [snapshot, snapshot, rotate_of_none hwaits, rotate_of_none (hinflight.trans hwaits)]
    show windowSeries formatFloat a'.cfg atMillis a'.series = _
    rw [hcfg, hseries]
    rfl
  · rw [snapshot, snapshot, rotate_of_waiting hwaits,
      rotate_of_waiting (hinflight.symm ▸ hwaits : a'.inflight ≠ [])]
    exact hinflight

theorem recordable_of_parseLine {parseFloat : Bytes → Option ℚ} {line : Bytes} {limit : Int}
    (h : parseLine parseFloat line now limit = .ok metric) : metric.Recordable := by
  have hsupported := (parseLine_ok h).supported
  have hrate : metric.ValidRate := parseLine_sampleRate h
  unfold Metric.Recordable
  revert hsupported
  cases metric.type with
  | counter => exact fun _ => hrate.1
  | gauge => exact fun _ => trivial
  | timer => exact fun _ => hrate
  | histogram => exact fun _ => hrate
  | set => exact fun _ => trivial
  | other text => exact fun h => h

/-- **A sample that is refused leaves no trace, and the next flush is the one there would have been
without it, if and only if it does not make a set**: it is the first of its key and the limit leaves
room for an empty set. -/
theorem refused_no_trace_iff {parseFloat : Bytes → Option ℚ} {line : Bytes} {limit : Int}
    (hparse : parseLine parseFloat line now limit = .ok metric) (a : Aggregator) (tags : Labels)
    (clock : Int) (hrefused : (a.add metric tags clock).2 ≠ none) :
    (NoTrace a now (a.add metric tags clock).1 ∧ ∀ formatFloat atMillis,
        ((a.add metric tags clock).1.snapshot formatFloat atMillis).1 =
          (a.snapshot formatFloat atMillis).1) ↔
      ¬ a.MakesSet metric tags now := by
  have hspec := add_refused (recordable_of_parseLine hparse) hrefused
  rw [(parseLine_ok hparse).receivedAt, Option.getD_some] at hspec
  constructor
  · rintro ⟨htrace, _⟩ hmakes
    have hmem := hspec.2 hmakes
    rw [htrace.series] at hmem
    exact hmakes.2.1 hmem
  · intro hnot
    rw [hspec.1 hnot]
    have hpruned := pruned_pruneGauges a now
    exact ⟨noTrace_pruneGauges a now,
      snapshot_congr hpruned.cfg hpruned.series hpruned.inflight⟩

/-! ## Two sets -/

/-- Room for one set, and for little more. -/
def tightConfig : AggregationConfig := ⟨[1], [1], 1, 280, 100⟩

def tightAggregator : Aggregator := ⟨tightConfig, by decide +kernel, ∅, [], 0, 0, ∅, 0, none⟩

/-- What the line `name:value|s` parses to. -/
def memberOf (name value : String) : Metric :=
  ⟨ascii name, .set, 0, ascii value, false, 1, ∅, some 5⟩

/-- The second member is above the limit of members. -/
theorem refused_no_trace_small :
    let a := (tightAggregator.add (memberOf "a" "x") ∅ 5).1
    (a.add (memberOf "a" "y") ∅ 5).2 = some .setLimit ∧
      NoTrace a 5 (a.add (memberOf "a" "y") ∅ 5).1 := by
  intro a
  have hparse : parseLine (fun _ => none) (ascii "a:y|s") 5 100 = .ok (memberOf "a" "y") := rfl
  have hrefused : (a.add (memberOf "a" "y") ∅ 5).2 = some .setLimit := by decide +kernel
  have hnot : ¬ a.MakesSet (memberOf "a" "y") ∅ 5 := by
    refine fun hmakes => hmakes.2.1 ?_
    decide +kernel
  have hne : (a.add (memberOf "a" "y") ∅ 5).2 ≠ none := by
    rw [hrefused]
    exact fun h => by cases h
  exact ⟨hrefused, ((refused_no_trace_iff hparse a ∅ 5 hne).mpr hnot).1⟩

/-- **The first member of a set is refused, and the set is reported without members.** -/
theorem refused_set_leaves_state :
    parseLine (fun _ => none) (ascii "a:a longer member|s") 5 100 =
      .ok (memberOf "a" "a longer member") ∧
    (tightAggregator.add (memberOf "a" "a longer member") ∅ 5).2 = some .aggregationBytes ∧
    tightAggregator.activeBytes = 0 ∧
    (tightAggregator.add (memberOf "a" "a longer member") ∅ 5).1.activeBytes = 254 ∧
    (tightAggregator.snapshot (fun _ => []) 7).1 = [] ∧
    ((tightAggregator.add (memberOf "a" "a longer member") ∅ 5).1.snapshot (fun _ => []) 7).1 =
      [⟨[(ascii "__name__", ascii "a_set_cardinality"), (ascii "is_custom", ascii "true")],
        [⟨0, 7⟩]⟩] :=
  ⟨rfl, by decide +kernel, rfl, by decide +kernel, rfl, by decide +kernel⟩

end Aggregator

end Dogstatsd
