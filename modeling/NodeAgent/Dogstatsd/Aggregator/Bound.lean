import Mathlib.Data.List.Perm.Basic
import NodeAgent.Dogstatsd.Aggregator.Recording

/-!
# The byte limit of the aggregator

`Add` compares the accounted bytes with the limit before it adds any. Between the two critical
sections of `Snapshot` the bytes of the rotated window are in no counter, so the samples that
arrive there are compared with too little, and the publication puts the window back on top.

* `totalBytes_le` — the accounted bytes stay within the limit if the samples of the gap leave room
-/

namespace Dogstatsd

open Infra

namespace Aggregator

variable {a a' : Aggregator} {key : Bytes} {state : AggregateState} {metric : Metric} {now : Int}

/-! ## What `Add` does to the counters -/

/-- No counter is negative, and no baseline is charged for a negative number of bytes. -/
structure Charged (a : Aggregator) : Prop where
  active : 0 ≤ a.activeBytes
  inflight : 0 ≤ a.inflightBytes
  gauges : ∀ k b, a.gauges.lookup k = some b → 0 ≤ b.bytes

/-- The waiting window is left alone. The accounted bytes grow by at most `n`, and only if the
comparison with the limit allows `n` more. -/
structure Effect (n : Int) (a a' : Aggregator) : Prop where
  cfg : a'.cfg = a.cfg
  inflight : a'.inflight = a.inflight
  inflightBytes : a'.inflightBytes = a.inflightBytes
  charged : Charged a'
  total : a'.totalBytes ≤ a.totalBytes ∨
    0 < n ∧ a.totalBytes + n ≤ a.cfg.maxBytes ∧ a'.totalBytes ≤ a.totalBytes + n

theorem Effect.refl (h : Charged a) (n : Int) : Effect n a a := ⟨rfl, rfl, rfl, h, Or.inl le_rfl⟩

/-! ### Expired baselines -/

theorem pruneGauges_effect (h : Charged a) (now : Int) : Effect 0 a (a.pruneGauges now) := by
  have hpruned := pruned_pruneGauges a now
  refine ⟨hpruned.cfg, hpruned.inflight, hpruned.inflightBytes, ⟨?_, ?_, ?_⟩, Or.inl ?_⟩
  · rw [hpruned.activeBytes]
    exact h.active
  · rw [hpruned.inflightBytes]
    exact h.inflight
  · exact fun k b hb => h.gauges k b (of_lookup_pruneGauges hb)
  · have hexpired : 0 ≤ a.expiredBytes now := expiredBytes_nonneg h.gauges
    rw [totalBytes_pruneGauges, bytesAt]
    split <;> omega

/-! ### Recording a sample -/

theorem effect_series (h : Charged a) (w : Window) (n : Int) : Effect n a { a with series := w } :=
  ⟨rfl, rfl, rfl, ⟨h.active, h.inflight, h.gauges⟩, Or.inl le_rfl⟩

theorem Recording.effect {created : Option Int} {out : Aggregator × Option DropReason}
    (h : Recording a key state created metric now out) (hcharged : Charged a)
    (hc : ∀ bytes, created = some bytes → 0 ≤ bytes ∧ bytes ≤ a.activeBytes) :
    Effect (a.sampleBytes key state metric) a out.1 := by
  have hactive := hcharged.active
  cases h with
  | refused _ _ | known _ _ => exact .refl hcharged _
  | unmade bytes _ hcreated =>
    obtain ⟨h1, h2⟩ := hc bytes hcreated
    refine ⟨rfl, rfl, rfl, ⟨?_, hcharged.inflight, hcharged.gauges⟩, .inl ?_⟩
    · simp only; omega
    · simp only [totalBytes]; omega
  | unsupported _ _ => exact effect_series hcharged _ _
  | absorbed _ _ hfits =>
    refine ⟨rfl, rfl, rfl, ⟨?_, hcharged.inflight, hcharged.gauges⟩, ?_⟩
    · rcases hfits with hzero | hfits <;> simp only <;> omega
    · simp only [Fits, totalBytes, setState] at hfits ⊢
      omega
  | shown _ hfits =>
    refine ⟨rfl, rfl, rfl, ⟨hactive, hcharged.inflight, fun k b hk => ?_⟩, ?_⟩
    · rcases Dict.of_lookup_insert hk with ⟨-, rfl⟩ | ⟨-, hk⟩
      · simp only [baseline]
        cases hb : a.gauges.lookup key with
        | some b => exact hcharged.gauges _ _ hb
        | none => simp only [Option.getD_none]; omega
      · exact hcharged.gauges k b hk
    · simp only [Fits, totalBytes, setGauge] at hfits ⊢
      omega

theorem estimateAggregateStateBytes_pos (state : AggregateState) :
    0 < estimateAggregateStateBytes state := by
  unfold estimateAggregateStateBytes
  omega

/-- The sums of bytes that `Add` compares with the limit, beside those that are accounted: first
for the state of the series, if there is none, and then for the sample. -/
def asked (a : Aggregator) (metric : Metric) (tags : Labels) : List Int :=
  let labels := tags.insert (ascii "is_custom") (ascii "true")
  let baseName := normalizeMetricName metric.name
  let key := aggregationKey baseName metric.type labels
  match a.series.lookup key with
  | some state => [a.sampleBytes key state metric]
  | none =>
    let state := a.newState baseName metric.type labels
    let stateBytes := estimateAggregateStateBytes state
    [stateBytes, stateBytes + a.sampleBytes key state metric]

/-- What a sample asks for fits beside so many bytes more, if it fits beside those accounted. -/
def FitsBeside (a : Aggregator) (more : Int) (metric : Metric) (tags : Labels) : Prop :=
  ∀ n ∈ a.asked metric tags, 0 < n → a.totalBytes + n ≤ a.cfg.maxBytes →
    a.totalBytes + more + n ≤ a.cfg.maxBytes

instance decidableFitsBeside (a : Aggregator) (more : Int) (metric : Metric) (tags : Labels) :
    Decidable (a.FitsBeside more metric tags) :=
  inferInstanceAs (Decidable (∀ n ∈ a.asked metric tags, 0 < n →
    a.totalBytes + n ≤ a.cfg.maxBytes → a.totalBytes + more + n ≤ a.cfg.maxBytes))

theorem Adding.effect {tags : Labels} {out : Aggregator × Option DropReason}
    (h : Adding a metric tags now out) (hcharged : Charged a) :
    ∃ n, (n = 0 ∨ n ∈ a.asked metric tags) ∧ Effect n a out.1 := by
  cases h with
  | full _ _ => exact ⟨0, .inl rfl, .refl hcharged 0⟩
  | found hstate hrec =>
    refine ⟨_, .inr ?_, hrec.effect hcharged nofun⟩
    unfold Metric.aggregationKey withCustom at hstate
    simp only [asked, hstate]
    exact List.mem_singleton_self _
  | made hnew hfits hrec =>
    have hasked : a.asked metric tags = [a.stateBytes metric tags, a.stateBytes metric tags +
        a.sampleBytes (metric.aggregationKey tags) (emptyState a.cfg metric tags) metric] := by
      unfold Metric.aggregationKey withCustom at hnew
      simp only [asked, hnew]
      rfl
    have hpos : 0 < a.stateBytes metric tags := estimateAggregateStateBytes_pos _
    have hactive := hcharged.active
    have hmade : Charged (a.withState metric tags) :=
      ⟨by simp only [withState]; omega, hcharged.inflight, hcharged.gauges⟩
    obtain ⟨h1, h2, h3, hcharged', htotal⟩ := hrec.effect hmade fun bytes he => by
      cases he
      exact ⟨hpos.le, le_add_of_nonneg_left hactive⟩
    have hbytes : (a.withState metric tags).totalBytes =
        a.totalBytes + a.stateBytes metric tags := by
      simp only [totalBytes, withState, setState]
      omega
    rw [hasked]
    rw [hbytes] at htotal
    rcases htotal with htotal | ⟨hmore, hroom, htotal⟩
    · exact ⟨_, .inr List.mem_cons_self, h1, h2, h3, hcharged', .inr ⟨hpos, hfits, htotal⟩⟩
    · refine ⟨_, .inr (List.mem_cons_of_mem _ (List.mem_singleton_self _)), h1, h2, h3, hcharged',
        .inr ⟨add_pos hpos hmore, ?_, ?_⟩⟩
      · rw [← add_assoc]
        exact hroom
      · rw [← add_assoc]
        exact htotal

/-- **What `Add` does**: it drops the expired baselines, and then takes no more than one of the sums
that it has compared with the limit. -/
theorem add_effect (h : Charged a) (metric : Metric) (tags : Labels) (clock : Int) :
    ∃ n, (n = 0 ∨ n ∈ (a.pruneGauges (metric.receivedAt.getD clock)).asked metric tags) ∧
      Effect n (a.pruneGauges (metric.receivedAt.getD clock)) (a.add metric tags clock).1 :=
  (add_spec a metric tags clock).effect (pruneGauges_effect h _).charged

end Aggregator

/-! ## Interleavings of `Add`, `Snapshot` and `Commit` -/

/-- An aggregator, with the windows that a `Snapshot` has rotated out and not yet published. -/
structure Flushing where
  agg : Aggregator
  pending : List Rotated

/-- The atomic steps: each is one critical section. -/
inductive FlushStep where
  | add (metric : Metric) (tags : Labels) (clock : Int)
  | rotate
  -- the pending window at this index is rendered and put in flight
  | publish (index : Nat) (atMillis : Int)
  | commit

namespace Flushing

variable (formatFloat : ℚ → Bytes)

def step (sys : Flushing) : FlushStep → Flushing
  | .add metric tags clock => { sys with agg := (sys.agg.add metric tags clock).1 }
  | .rotate =>
    match sys.agg.rotate with
    | (.inl _, a) => { sys with agg := a }
    | (.inr rotated, a) => ⟨a, sys.pending ++ [rotated]⟩
  | .publish index atMillis =>
    match sys.pending[index]? with
    | some rotated =>
      ⟨(sys.agg.publish formatFloat atMillis rotated).2, sys.pending.eraseIdx index⟩
    | none => sys
  | .commit => { sys with agg := sys.agg.commit }

def run (sys : Flushing) (steps : List FlushStep) : Flushing := steps.foldl (step formatFloat) sys

def rotatedBytes (sys : Flushing) : Int := (sys.pending.map Rotated.bytes).sum

/-- What a sample asks for, and what fits beside the accounted bytes, fits beside them and the
rotated windows. The bytes are those before the sample, without the baselines that have expired. -/
def LeavesRoom (sys : Flushing) (next : FlushStep) : Prop :=
  match next with
  | .add metric tags clock =>
    (sys.agg.pruneGauges (metric.receivedAt.getD clock)).FitsBeside sys.rotatedBytes metric tags
  | _ => True

/-- Every sample of the run leaves room for the windows rotated out at that time. -/
def AllLeaveRoom (sys : Flushing) : List FlushStep → Prop
  | [] => True
  | next :: rest => sys.LeavesRoom next ∧ (sys.step formatFloat next).AllLeaveRoom rest

/-- The invariant: the limit holds with the rotated windows counted. -/
structure Bounded (sys : Flushing) : Prop where
  charged : sys.agg.Charged
  pending : ∀ r ∈ sys.pending, 0 ≤ r.bytes
  total : sys.agg.totalBytes + sys.rotatedBytes ≤ sys.agg.cfg.maxBytes

variable {formatFloat} {sys : Flushing}

theorem Bounded.rotatedBytes_nonneg (h : sys.Bounded) : 0 ≤ sys.rotatedBytes := by
  refine List.sum_nonneg (fun x hx => ?_)
  obtain ⟨r, hr, rfl⟩ := List.mem_map.mp hx
  exact h.pending r hr

theorem Bounded.totalBytes_le_maxBytes (h : sys.Bounded) :
    sys.agg.totalBytes ≤ sys.agg.cfg.maxBytes := by
  have := h.rotatedBytes_nonneg
  have := h.total
  omega

@[simp] theorem step_cfg (next : FlushStep) (h : sys.agg.Charged) :
    (sys.step formatFloat next).agg.cfg = sys.agg.cfg := by
  cases next with
  | add metric tags clock =>
    obtain ⟨n, -, heffect⟩ := Aggregator.add_effect h metric tags clock
    exact heffect.cfg.trans (Aggregator.pruneGauges_effect h _).cfg
  | rotate =>
    simp only [step, Aggregator.rotate]
    split
    all_goals
      next heq =>
      split at heq <;> cases heq
      rfl
  | publish index atMillis =>
    simp only [step]
    split <;> rfl
  | commit => rfl

/-! ### One step -/

theorem Bounded.add {metric : Metric} {tags : Labels} {clock : Int} (h : sys.Bounded)
    (hroom : sys.LeavesRoom (.add metric tags clock)) :
    (sys.step formatFloat (.add metric tags clock)).Bounded := by
  obtain ⟨n, hn, heffect⟩ := Aggregator.add_effect h.charged metric tags clock
  have hprune := Aggregator.pruneGauges_effect h.charged (metric.receivedAt.getD clock)
  have hcfg := congrArg AggregationConfig.maxBytes hprune.cfg
  have hcfg' := congrArg AggregationConfig.maxBytes heffect.cfg
  have hdropped : (sys.agg.pruneGauges (metric.receivedAt.getD clock)).totalBytes ≤
      sys.agg.totalBytes := by
    rcases hprune.total with hle | ⟨hpos, -⟩
    · exact hle
    · omega
  refine ⟨heffect.charged, h.pending, ?_⟩
  have htotal := h.total
  simp only [LeavesRoom, step, rotatedBytes] at hroom htotal ⊢
  rcases heffect.total with hle | ⟨hpos, hfits, hle⟩
  · omega
  · have hasked := hroom n (hn.resolve_left hpos.ne') hpos hfits
    omega

theorem Bounded.rotate (h : sys.Bounded) : (sys.step formatFloat .rotate).Bounded := by
  have htotal := h.total
  simp only [step, Aggregator.rotate]
  split
  · next heq =>
    split at heq
    · cases heq; exact h
    · cases heq
  · next heq =>
    split at heq
    · cases heq
    · cases heq
      refine ⟨⟨le_rfl, h.charged.inflight, h.charged.gauges⟩, fun r hr => ?_, ?_⟩
      · rcases List.mem_append.mp hr with hr | hr
        · exact h.pending r hr
        · rw [List.mem_singleton.mp hr]
          exact h.charged.active
      · simp only [rotatedBytes, Aggregator.totalBytes, List.map_append, List.sum_append,
          List.map_cons, List.map_nil, List.sum_singleton] at htotal ⊢
        omega

theorem Bounded.publish {index : Nat} {atMillis : Int} (h : sys.Bounded) :
    (sys.step formatFloat (.publish index atMillis)).Bounded := by
  simp only [step]
  split
  · next rotated hr =>
    have hmem := List.mem_of_getElem? hr
    have hsum : rotated.bytes + ((sys.pending.eraseIdx index).map Rotated.bytes).sum =
        sys.rotatedBytes := by
      have hperm := List.getElem_cons_eraseIdx_perm (List.getElem?_eq_some_iff.mp hr).1
      rw [(List.getElem?_eq_some_iff.mp hr).2] at hperm
      simpa [rotatedBytes] using (hperm.map Rotated.bytes).sum_eq
    have htotal := h.total
    have hinflight := h.charged.inflight
    refine ⟨⟨h.charged.active, h.pending _ hmem, h.charged.gauges⟩,
      fun r hr' => h.pending r (List.mem_of_mem_eraseIdx hr'), ?_⟩
    simp only [Aggregator.publish, Aggregator.totalBytes, rotatedBytes] at hsum htotal ⊢
    omega
  · exact h

theorem Bounded.commit (h : sys.Bounded) : (sys.step formatFloat .commit).Bounded := by
  have htotal := h.total
  have hinflight := h.charged.inflight
  refine ⟨⟨h.charged.active, le_rfl, h.charged.gauges⟩, h.pending, ?_⟩
  simp only [step, Aggregator.commit, Aggregator.totalBytes, rotatedBytes] at htotal ⊢
  omega

theorem Bounded.step {next : FlushStep} (h : sys.Bounded) (hroom : sys.LeavesRoom next) :
    (sys.step formatFloat next).Bounded := by
  cases next with
  | add => exact h.add hroom
  | rotate => exact h.rotate
  | publish => exact h.publish
  | commit => exact h.commit

/-! ### Whole runs -/

theorem Bounded.run {steps : List FlushStep} (h : sys.Bounded)
    (hroom : sys.AllLeaveRoom formatFloat steps) :
    (sys.run formatFloat steps).Bounded ∧ (sys.run formatFloat steps).agg.cfg = sys.agg.cfg := by
  induction steps generalizing sys with
  | nil => exact ⟨h, rfl⟩
  | cons next rest ih =>
    obtain ⟨hb, hcfg⟩ := ih (h.step hroom.1) hroom.2
    exact ⟨hb, hcfg.trans (step_cfg next h.charged)⟩

theorem validate_maxBytes {cfg : AggregationConfig} (h : cfg.validate = none) :
    0 < cfg.maxBytes := by
  unfold AggregationConfig.validate at h
  split at h
  · cases h
  split at h
  · cases h
  · omega

theorem bounded_newAggregator {cfg : AggregationConfig} {a : Aggregator}
    (hnew : newAggregator cfg = .ok a) : Bounded ⟨a, []⟩ ∧ a.cfg = cfg := by
  obtain ⟨hvalid, rfl⟩ := newAggregator_ok hnew
  refine ⟨⟨⟨le_rfl, le_rfl, fun k b hk => by simp at hk⟩, by simp, ?_⟩, rfl⟩
  simpa [Aggregator.totalBytes, rotatedBytes] using (validate_maxBytes hvalid).le

/-- **In every run of `Add`, `Snapshot` and `Commit` whose samples leave room for the windows
rotated out at their time, the accounted bytes never exceed the limit.** Without a rotated window
every sample does. -/
theorem totalBytes_le {cfg : AggregationConfig} {a : Aggregator} {steps : List FlushStep}
    (hnew : newAggregator cfg = .ok a)
    (hroom : AllLeaveRoom formatFloat ⟨a, []⟩ steps) :
    (run formatFloat ⟨a, []⟩ steps).agg.totalBytes ≤ cfg.maxBytes := by
  obtain ⟨hb, hcfg⟩ := bounded_newAggregator hnew
  obtain ⟨hrun, hcfg'⟩ := hb.run hroom
  have hle := hrun.totalBytes_le_maxBytes
  rwa [hcfg', hcfg] at hle

/-! ### A sample in the gap -/

def smallConfig : AggregationConfig := ⟨[1], [1], 1, 600, 100⟩

def smallAggregator : Aggregator :=
  ⟨smallConfig, by decide +kernel, ∅, [], 0, 0, ∅, 0, none⟩

/-- What the line `name:1|c` parses to. -/
def countOne (name : String) : FlushStep :=
  .add ⟨ascii name, .counter, 1, [], false, 1, ∅, some 0⟩ ∅ 0

theorem newAggregator_small : newAggregator smallConfig = .ok smallAggregator := rfl

/-- The sample in the gap leaves room for the rotated window. -/
theorem totalBytes_le_small :
    (run (fun _ => []) ⟨smallAggregator, []⟩
      [countOne "a", .rotate, countOne "b", .publish 0 0]).agg.totalBytes ≤ 600 :=
  totalBytes_le newAggregator_small ⟨by unfold LeavesRoom countOne; decide +kernel, trivial,
    by unfold LeavesRoom countOne; decide +kernel, trivial, trivial⟩

/-- **Two samples between the rotation and the publication exceed the limit**: `Add` admits them
both, because the rotated series is in no counter. -/
theorem gap_exceeds_limit :
    newAggregator smallConfig = .ok smallAggregator ∧ smallConfig.maxBytes = 600 ∧
    (run (fun _ => []) ⟨smallAggregator, []⟩ [countOne "a", .rotate, countOne "b", countOne "c",
      .publish 0 0]).agg.totalBytes = 762 :=
  ⟨newAggregator_small, rfl, by decide +kernel⟩

end Flushing

end Dogstatsd
