import Mathlib.Algebra.Order.Ring.Unbundled.Rat
import Mathlib.Data.Rat.Encodable
import NodeAgent.Dogstatsd.Receiver.Identity
import NodeAgent.Dogstatsd.SeriesKeys

/-!
# Series that are told apart

The series of one flush differ in their labels, unless an application uses the label `le` for a tag:
the bound of a bucket replaces the tag, and two states that differ in this tag only get the same
series.

* `distinct_windowSeries_iff` — a window has different series if and only if it has no twins
* `snapshots_distinct_iff` — the same for the flushes of a run
-/

namespace Dogstatsd

open Infra

variable {sent : Bytes → MetricType → Prop}

/-- `strconv.FormatFloat`: different numbers have different texts, and none has the one for
infinity. -/
structure FloatFormat where
  text : ℚ → Bytes
  injective : Function.Injective text
  finite : ∀ q, text q ≠ ascii "+Inf"

/-- The same labels, in any order. -/
def SameLabels (s t : TimeSeries) : Prop := ∀ l, l ∈ s.labels ↔ l ∈ t.labels

/-- Two states of one name whose labels agree but for `le`. -/
structure Twins (s t : AggregateState) : Prop where
  name : s.name = t.name
  type : s.metricType = t.metricType
  distribution : s.metricType = .timer ∨ s.metricType = .histogram
  labels : ∀ k, k ≠ ascii "le" → s.labels.lookup k = t.labels.lookup k

def Window.NoTwins (w : Window) : Prop :=
  ∀ k k' s t, w.lookup k = some s → w.lookup k' = some t → k ≠ k' → ¬ Twins s t

/-- The series with the labels of the agent have different labels. -/
def DistinctSeries (external : Labels) (series : List TimeSeries) : Prop :=
  (series.map (addExternalLabels external)).Pairwise (fun s t => ¬ SameLabels s t)

/-! ## Labels -/

section

variable {s t : TimeSeries} {external : Labels}

theorem not_mem_of_identityKey {name k v : Bytes} (h : Plain s name) (hk : k ∈ identityKeys) :
    (k, v) ∉ s.labels := by
  have hreserved : ∀ k ∈ identityKeys, k ∈ reservedLabelKeys ∧ k ≠ ascii "is_custom" ∧
      k ≠ ascii "__name__" := by decide
  obtain ⟨hr, hcustom, hname⟩ := hreserved k hk
  exact h.reserved k hr hcustom hname v

theorem sameLabels_external {name name' : Bytes} (hs : Plain s name) (ht : Plain t name')
    (hexternal : ∀ k ∈ external, k ∈ identityKeys) :
    SameLabels (addExternalLabels external s) (addExternalLabels external t) ↔ SameLabels s t := by
  constructor
  · rintro hsame ⟨k, v⟩
    by_cases hk : k ∈ external
    · exact iff_of_false (not_mem_of_identityKey hs (hexternal k hk))
        (not_mem_of_identityKey ht (hexternal k hk))
    · have := hsame (k, v)
      rw [mem_addExternalLabels hs.nodup, mem_addExternalLabels ht.nodup,
        AList.lookup_eq_none.mpr hk] at this
      simpa [hk] using this
  · rintro hsame ⟨k, v⟩
    rw [mem_addExternalLabels hs.nodup, mem_addExternalLabels ht.nodup, hsame]

theorem sameLabels_iff {name name' : Bytes} {labels labels' : Labels}
    (hs : s.labels = labelsMapToSortedPromLabels name labels)
    (ht : t.labels = labelsMapToSortedPromLabels name' labels')
    (h : ascii "__name__" ∉ labels) (h' : ascii "__name__" ∉ labels') :
    SameLabels s t ↔ name = name' ∧ ∀ k, labels.lookup k = labels'.lookup k := by
  have hnone := AList.lookup_eq_none.mpr h
  have hnone' := AList.lookup_eq_none.mpr h'
  unfold SameLabels
  rw [hs, ht]
  constructor
  · intro hsame
    refine ⟨?_, fun k => Option.ext fun v => ?_⟩
    · have hmem := (hsame (ascii "__name__", name)).mp (mem_labelsMap.mpr (.inl rfl))
      rcases mem_labelsMap.mp hmem with heq | hlookup
      · exact congrArg Prod.snd heq
      · rw [hnone'] at hlookup
        cases hlookup
    · by_cases hk : k = ascii "__name__"
      · rw [hk, hnone, hnone']
      · have hne : ∀ n, (k, v) ≠ (ascii "__name__", n) := fun n he => hk (congrArg Prod.fst he)
        have := hsame (k, v)
        rw [mem_labelsMap, mem_labelsMap] at this
        simpa [hne] using this
  · rintro ⟨rfl, hlookup⟩ ⟨k, v⟩
    rw [mem_labelsMap, mem_labelsMap, hlookup]

end

/-! ## Names -/

theorem suffix_unique : ∀ e ∈ seriesSuffixes, ∀ e' ∈ seriesSuffixes,
    e.text <:+ e'.text → e = e' := by
  decide

theorem append_suffix_inj {e e' : SeriesSuffix} (he : e ∈ seriesSuffixes)
    (he' : e' ∈ seriesSuffixes) {name name' : Bytes} (h : name ++ e.text = name' ++ e'.text) :
    e = e' ∧ name = name' := by
  have hsuffix : e.text <:+ name' ++ e'.text := h ▸ List.suffix_append name e.text
  have heq : e = e' := by
    rcases List.suffix_or_suffix_of_suffix hsuffix (List.suffix_append name' e'.text) with h | h
    · exact suffix_unique e he e' he' h
    · exact (suffix_unique e' he' e he h).symm
  subst heq
  exact ⟨rfl, List.append_cancel_right h⟩

/-! ## Two states -/

section

variable {key key' : Bytes} {s t : AggregateState} {x y : TimeSeries}

theorem Attributed.name_not_mem {name : Bytes} {type : MetricType} {labels : Labels}
    (h : Attributed sent key name type labels) : ascii "__name__" ∉ labels :=
  h.reserved _ (by decide) (by decide)

theorem Attributed.name_not_mem_insert {name : Bytes} {type : MetricType} {labels : Labels}
    (h : Attributed sent key name type labels) (le : Bytes) :
    ascii "__name__" ∉ labels.insert (ascii "le") le := by
  intro hmem
  rcases (AList.mem_insert _).mp hmem with heq | hmem
  · exact absurd heq (by decide)
  · exact h.name_not_mem hmem

theorem twins_of_sameLabels (hs : Attributed sent key s.name s.metricType s.labels)
    (ht : Attributed sent key' t.name t.metricType t.labels) (hx : RenderedAs s x)
    (hy : RenderedAs t y) (hsame : SameLabels x y) : key = key' ∨ Twins s t := by
  rcases hx with ⟨hsuffix, hlabels⟩ | ⟨hsuffix, hlabels⟩ <;>
    rcases hy with ⟨hsuffix', hlabels'⟩ | ⟨hsuffix', hlabels'⟩
  · obtain ⟨hname, hlookup⟩ :=
      (sameLabels_iff hlabels hlabels' hs.name_not_mem ht.name_not_mem).mp hsame
    obtain ⟨heq, hname⟩ := append_suffix_inj hsuffix hsuffix' hname
    refine .inl ?_
    rw [hs.key, ht.key, hname, show s.metricType = t.metricType from congrArg SeriesSuffix.type heq]
    rw [aggregationKey, aggregationKey, sortedLabels_congr hlookup]
  · obtain ⟨hname, -⟩ :=
      (sameLabels_iff hlabels hlabels' hs.name_not_mem (ht.name_not_mem_insert _)).mp hsame
    have hbucket : false = true :=
      congrArg SeriesSuffix.bucket (append_suffix_inj hsuffix hsuffix' hname).1
    cases hbucket
  · obtain ⟨hname, -⟩ :=
      (sameLabels_iff hlabels hlabels' (hs.name_not_mem_insert _) ht.name_not_mem).mp hsame
    have hbucket : true = false :=
      congrArg SeriesSuffix.bucket (append_suffix_inj hsuffix hsuffix' hname).1
    cases hbucket
  · obtain ⟨hname, hlookup⟩ := (sameLabels_iff hlabels hlabels' (hs.name_not_mem_insert _)
      (ht.name_not_mem_insert _)).mp hsame
    obtain ⟨heq, hname⟩ := append_suffix_inj hsuffix hsuffix' hname
    have hbucket : ∀ e ∈ seriesSuffixes, e.bucket = true →
        e.type = .timer ∨ e.type = .histogram := by decide
    refine .inr ⟨hname, congrArg SeriesSuffix.type heq, hbucket _ hsuffix rfl, fun k hk => ?_⟩
    have := hlookup k
    rwa [AList.lookup_insert_ne hk, AList.lookup_insert_ne hk] at this

theorem sameLabels_of_twins (formatFloat : ℚ → Bytes) (cfg : AggregationConfig) (atMillis : Int)
    (hs : Attributed sent key s.name s.metricType s.labels)
    (ht : Attributed sent key' t.name t.metricType t.labels) (h : Twins s t) :
    ∃ x ∈ stateSeries formatFloat cfg atMillis s, ∃ y ∈ stateSeries formatFloat cfg atMillis t,
      SameLabels x y := by
  have hlookup : ∀ k, (s.labels.insert (ascii "le") (ascii "+Inf")).lookup k =
      (t.labels.insert (ascii "le") (ascii "+Inf")).lookup k := by
    intro k
    by_cases hk : k = ascii "le"
    · rw [hk, AList.lookup_insert, AList.lookup_insert]
    · rw [AList.lookup_insert_ne hk, AList.lookup_insert_ne hk, h.labels k hk]
  -- the series for infinity is the same whatever the tag was
  have hsame : ∀ (kind : Bytes) (bounds bounds' : List ℚ),
      ∃ x ∈ distributionSeries formatFloat (s.name ++ kind) s bounds atMillis,
      ∃ y ∈ distributionSeries formatFloat (t.name ++ kind) t bounds' atMillis,
        SameLabels x y := by
    intro kind bounds bounds'
    refine ⟨_, List.mem_append_right _ List.mem_cons_self, _,
      List.mem_append_right _ List.mem_cons_self, ?_⟩
    refine (sameLabels_iff rfl rfl (hs.name_not_mem_insert _) (ht.name_not_mem_insert _)).mpr ?_
    exact ⟨by rw [h.name], hlookup⟩
  rcases h.distribution with htype | htype
  · have htype' := h.type ▸ htype
    rw [stateSeries, stateSeries, htype, htype']
    exact hsame (ascii "_timer_ms") _ _
  · have htype' := h.type ▸ htype
    rw [stateSeries, stateSeries, htype, htype']
    exact hsame (ascii "_histogram") _ _

end

/-! ## One state -/

section

variable {key : Bytes} {state : AggregateState} {atMillis : Int}

theorem pairwise_distributionSeries (format : FloatFormat)
    (hs : Attributed sent key state.name state.metricType state.labels) (baseName : Bytes)
    {bounds : List ℚ} (hbounds : bounds.Pairwise (· < ·)) :
    (distributionSeries format.text baseName state bounds atMillis).Pairwise
      (fun s t => ¬ SameLabels s t) := by
  -- two buckets are told apart by their bounds
  have hbucket : ∀ {le le' : Bytes} {u v : ℚ}, le ≠ le' →
      ¬ SameLabels
        (aggregateSeries (baseName ++ ascii "_bucket") (state.labels.insert (ascii "le") le) u
          atMillis)
        (aggregateSeries (baseName ++ ascii "_bucket") (state.labels.insert (ascii "le") le') v
          atMillis) := by
    intro le le' u v hne hsame
    have hlookup := ((sameLabels_iff rfl rfl (hs.name_not_mem_insert _)
      (hs.name_not_mem_insert _)).mp hsame).2 (ascii "le")
    rw [AList.lookup_insert, AList.lookup_insert, Option.some.injEq] at hlookup
    exact hne hlookup
  -- the other series have other names
  have hname : ∀ {suffix suffix' : Bytes} {labels labels' : Labels} {u v : ℚ}, suffix ≠ suffix' →
      ascii "__name__" ∉ labels → ascii "__name__" ∉ labels' →
      ¬ SameLabels (aggregateSeries (baseName ++ suffix) labels u atMillis)
        (aggregateSeries (baseName ++ suffix') labels' v atMillis) := by
    intro suffix suffix' labels labels' u v hne hlabels hlabels' hsame
    exact hne (List.append_cancel_left ((sameLabels_iff rfl rfl hlabels hlabels').mp hsame).1)
  unfold distributionSeries
  simp only
  refine List.pairwise_append.mpr ⟨?_, ?_, fun x hx y hy => ?_⟩
  · refine List.pairwise_iff_getElem.mpr fun i j hi hj hlt => ?_
    rw [List.getElem_mapIdx, List.getElem_mapIdx]
    refine hbucket (format.injective.ne (ne_of_lt ?_))
    exact List.pairwise_iff_getElem.mp hbounds i j _ _ hlt
  · simp only [List.pairwise_cons, List.mem_cons, List.not_mem_nil, or_false, forall_eq_or_imp,
      forall_eq, IsEmpty.forall_iff, implies_true, List.Pairwise.nil, and_true]
    exact ⟨⟨hname (by decide) (hs.name_not_mem_insert _) hs.name_not_mem,
      hname (by decide) (hs.name_not_mem_insert _) hs.name_not_mem⟩,
      hname (by decide) hs.name_not_mem hs.name_not_mem⟩
  · obtain ⟨i, hi, rfl⟩ := List.mem_mapIdx.mp hx
    simp only [List.mem_cons, List.not_mem_nil, or_false] at hy
    rcases hy with rfl | rfl | rfl
    · exact hbucket (format.finite _)
    · exact hname (by decide) (hs.name_not_mem_insert _) hs.name_not_mem
    · exact hname (by decide) (hs.name_not_mem_insert _) hs.name_not_mem

theorem pairwise_stateSeries (format : FloatFormat) {cfg : AggregationConfig}
    (hcfg : cfg.validate = none)
    (hs : Attributed sent key state.name state.metricType state.labels) :
    (stateSeries format.text cfg atMillis state).Pairwise (fun s t => ¬ SameLabels s t) := by
  unfold stateSeries
  split
  · exact List.pairwise_singleton _ _
  · exact List.pairwise_singleton _ _
  · exact pairwise_distributionSeries format hs _ (pairwise_buckets hcfg).1
  · exact pairwise_distributionSeries format hs _ (pairwise_buckets hcfg).2
  · exact List.pairwise_singleton _ _
  · exact .nil

end

/-! ## Windows -/

theorem sameLabels_symm {s t : TimeSeries} (h : SameLabels s t) : SameLabels t s :=
  fun l => (h l).symm

theorem distinct_windowSeries_iff (format : FloatFormat) {cfg : AggregationConfig}
    (hcfg : cfg.validate = none) {external : Labels}
    (hexternal : ∀ k ∈ external, k ∈ identityKeys) {w : Window} (hw : w.Attributed sent)
    (atMillis : Int) :
    DistinctSeries external (windowSeries format.text cfg atMillis w) ↔ w.NoTwins := by
  have hraw : DistinctSeries external (windowSeries format.text cfg atMillis w) ↔
      (windowSeries format.text cfg atMillis w).Pairwise (fun s t => ¬ SameLabels s t) := by
    rw [DistinctSeries, List.pairwise_map]
    refine List.Pairwise.iff_of_mem fun hs ht => ?_
    obtain ⟨_, _, _, _, hplain⟩ := (traced_of_window hw hs).plain
    obtain ⟨_, _, _, _, hplain'⟩ := (traced_of_window hw ht).plain
    rw [sameLabels_external hplain hplain' hexternal]
  rw [hraw, windowSeries, List.pairwise_flatMap]
  constructor
  · rintro ⟨-, hpairs⟩ k k' s t hs ht hne htwins
    have hmem := Dict.mem_sortedEntries.mpr hs
    have hmem' := Dict.mem_sortedEntries.mpr ht
    obtain ⟨x, hx, y, hy, hsame⟩ :=
      sameLabels_of_twins format.text cfg atMillis (hw k s hs) (hw k' t ht) htwins
    -- the pair is in the list in one order or the other
    have hsymm : Std.Symm fun e e' : Bytes × AggregateState =>
        ∀ x ∈ stateSeries format.text cfg atMillis e.2,
          ∀ y ∈ stateSeries format.text cfg atMillis e'.2, ¬ SameLabels x y :=
      ⟨fun e e' hdiffer x hx y hy hxy => hdiffer y hy x hx (sameLabels_symm hxy)⟩
    have hkeys : (k, s) ≠ (k', t) := fun he => hne (congrArg Prod.fst he)
    exact hpairs.forall hmem hmem' hkeys x hx y hy hsame
  · intro hno
    refine ⟨fun e he => ?_, ?_⟩
    · exact pairwise_stateSeries format hcfg (hw e.1 e.2 (Dict.mem_sortedEntries.mp he))
    · have hnodup : w.sortedEntries.Nodup := (Dict.nodup_keys_sortedEntries w).of_map
      refine hnodup.pairwise_of_forall_ne fun e he e' he' hne x hx y hy hsame => ?_
      have hs := Dict.mem_sortedEntries.mp he
      have ht := Dict.mem_sortedEntries.mp he'
      have hkey : e.1 ≠ e'.1 := by
        intro heq
        rw [heq, ht, Option.some.injEq] at hs
        exact hne (Prod.ext heq hs.symm)
      rcases twins_of_sameLabels (hw _ _ hs) (hw _ _ ht) (renderedAs_of_mem hx)
        (renderedAs_of_mem hy) hsame with heq | htwins
      · exact hkey heq
      · exact hno e.1 e'.1 e.2 e'.2 hs ht hkey htwins

/-! ## Runs -/

section

variable {sys : Intake}

def Intake.TwinFree (sys : Intake) : IntakeStep → Prop
  | .publish index _ =>
    ∀ rotated, sys.flushing.pending[index]? = some rotated → rotated.window.NoTwins
  | _ => True

theorem inflight_next (parseFloat : Bytes → Option ℚ) (formatFloat : ℚ → Bytes) (sys : Intake)
    (step : IntakeStep) :
    (sys.next parseFloat formatFloat step).flushing.agg.inflight = sys.flushing.agg.inflight ∨
      (sys.next parseFloat formatFloat step).flushing.agg.inflight =
        sys.snapshot formatFloat step := by
  cases step with
  | receive payload => exact .inl rfl
  | dequeue i now =>
    simp only [Intake.next]
    split
    · exact .inl rfl
    · exact .inl rfl
  | line i allowed =>
    left
    simp only [Intake.next]
    split
    · rfl
    · rename_i line rest _
      unfold Intake.processLine
      rcases processLine_add parseFloat sys.receiver sys.flushing.agg (sys.workers i).now allowed
        line with hsame | ⟨metric, tags, -, hfrom, hadd⟩
      · simp only [hsame]
      · simp only [hadd, (Aggregator.add_keeps hfrom.parsed.supported tags _).inflight]
  | rotate =>
    left
    by_cases hwait : sys.flushing.agg.inflight = []
    · simp only [Intake.next, Flushing.step, Aggregator.rotate_of_none hwait]
    · simp only [Intake.next, Flushing.step, Aggregator.rotate_of_waiting hwait]
  | publish index atMillis =>
    simp only [Intake.next, Flushing.step, Intake.snapshot]
    cases sys.flushing.pending[index]? with
    | none => exact .inl rfl
    | some rotated => exact .inr rfl
  | commit => exact .inr rfl

theorem distinct_snapshot_iff (format : FloatFormat) {external : Labels}
    (hexternal : ∀ k ∈ external, k ∈ identityKeys) (h : Traceable parseFloat sent sys)
    (hinflight : DistinctSeries external sys.flushing.agg.inflight) (step : IntakeStep) :
    DistinctSeries external (sys.snapshot format.text step) ↔ sys.TwinFree step := by
  cases step with
  | rotate =>
    refine iff_of_true ?_ trivial
    by_cases hwait : sys.flushing.agg.inflight = []
    · simp only [Intake.snapshot, Aggregator.rotate_of_none hwait]
      exact .nil
    · simp only [Intake.snapshot, Aggregator.rotate_of_waiting hwait]
      exact hinflight
  | publish index atMillis =>
    cases hpending : sys.flushing.pending[index]? with
    | none =>
      simp only [Intake.snapshot, Intake.TwinFree, hpending]
      exact iff_of_true .nil fun _ h => by cases h
    | some rotated =>
      have hwindow := h.pending rotated (List.mem_of_getElem? hpending)
      simp only [Intake.snapshot, Intake.TwinFree, hpending, Option.some.injEq, forall_eq']
      exact distinct_windowSeries_iff format sys.flushing.agg.valid hexternal hwindow atMillis
  | receive payload => exact iff_of_true .nil trivial
  | dequeue i now => exact iff_of_true .nil trivial
  | line i allowed => exact iff_of_true .nil trivial
  | commit => exact iff_of_true .nil trivial

/-- **The series that the flushes of a run return have different labels if and only if no window has
twins when it is rendered.** -/
theorem snapshots_distinct_iff (parseFloat : Bytes → Option ℚ) (format : FloatFormat) (r : Receiver)
    {cfg : AggregationConfig} {a : Aggregator} (hnew : newAggregator cfg = .ok a)
    {external : Labels} (hexternal : ∀ k ∈ external, k ∈ identityKeys) (steps : List IntakeStep) :
    EveryStep (Intake.next parseFloat format.text)
        (fun sys step => DistinctSeries external (sys.snapshot format.text step))
        (.start r a) steps ↔
      EveryStep (Intake.next parseFloat format.text) Intake.TwinFree (.start r a) steps := by
  have hinflight : (Intake.start r a).flushing.agg.inflight = [] := by
    obtain ⟨hvalid, rfl⟩ := newAggregator_ok hnew
    rfl
  have hiff : ∀ (sys : Intake) (step : IntakeStep),
      Traceable parseFloat (fun _ _ => True) sys ∧
        DistinctSeries external sys.flushing.agg.inflight →
      (DistinctSeries external (sys.snapshot format.text step) ↔ sys.TwinFree step) :=
    fun sys step h => distinct_snapshot_iff format hexternal h.1 h.2 step
  have hkeep : ∀ (sys : Intake) (step : IntakeStep),
      Traceable parseFloat (fun _ _ => True) sys ∧
        DistinctSeries external sys.flushing.agg.inflight → sys.TwinFree step →
      Traceable parseFloat (fun _ _ => True) (sys.next parseFloat format.text step) ∧
        DistinctSeries external (sys.next parseFloat format.text step).flushing.agg.inflight := by
    intro sys step h hfree
    refine ⟨h.1.next_any _ step, ?_⟩
    -- what waits after the step is what waited before, or what the step has rendered
    rcases inflight_next parseFloat format.text sys step with hsame | hrendered
    · rw [hsame]
      exact h.2
    · rw [hrendered]
      exact (hiff sys step h).mpr hfree
  refine everyStep_congr hkeep hiff steps ⟨traceable_start r hnew, ?_⟩
  rw [hinflight]
  exact .nil

end

/-! ## Two timers -/

def unaryFormat : FloatFormat where
  text q := List.replicate (Encodable.encode q) 48
  injective := by
    intro p q h
    have hlength := congrArg List.length h
    rw [List.length_replicate, List.length_replicate] at hlength
    exact Encodable.encode_injective hlength
  finite := by
    intro q h
    have hplus : (43 : UInt8) ∈ List.replicate (Encodable.encode q) 48 :=
      h ▸ (by decide : (43 : UInt8) ∈ ascii "+Inf")
    exact absurd (List.eq_of_mem_replicate hplus) (by decide)

theorem DistinctSeries.nodup_labels {external : Labels} {series : List TimeSeries}
    (h : DistinctSeries external series) :
    (series.map fun s => (addExternalLabels external s).labels).Nodup := by
  refine List.pairwise_map.mpr ((List.pairwise_map.mp h).imp fun hdiffer heq => hdiffer fun l => ?_)
  rw [heq]

/-- States that differ in a tag other than `le` are no twins. -/
theorem noTwins_of_tag {w : Window} {tag : Bytes} (htag : tag ≠ ascii "le")
    (h : w.entries.Pairwise fun e e' => e.2.labels.lookup tag ≠ e'.2.labels.lookup tag) :
    w.NoTwins := by
  intro k k' s t hs ht hne htwins
  have : Std.Symm fun e e' : Σ _ : Bytes, AggregateState =>
      e.2.labels.lookup tag ≠ e'.2.labels.lookup tag := ⟨fun _ _ h => h.symm⟩
  have hdiffer := h.forall (AList.mem_lookup_iff.mp hs) (AList.mem_lookup_iff.mp ht)
    fun heq => hne (congrArg Sigma.fst heq)
  exact hdiffer (htwins.labels tag htag)

theorem twinFree_of_tag {sys : Intake} {index : Nat} {atMillis : Int} (tag : Bytes)
    (htag : tag ≠ ascii "le")
    (h : sys.flushing.pending[index]?.all (fun rotated => rotated.window.entries.Pairwise
      fun e e' => e.2.labels.lookup tag ≠ e'.2.labels.lookup tag) = true) :
    sys.TwinFree (.publish index atMillis) := by
  intro rotated hrotated
  rw [hrotated] at h
  exact noTwins_of_tag htag (of_decide_eq_true h)

/-- Two samples of a timer, the first one with a tag. -/
def timersPayload (tag : String) : Bytes := ascii "t:1|ms|#" ++ ascii tag ++ [10] ++ ascii "t:1|ms"

def timersSteps (tag : String) : List IntakeStep :=
  [.receive (timersPayload tag), .dequeue 0 5, .line 0 true, .line 0 true, .rotate, .publish 0 7]

/-- Two timers of one name, one of them with a tag `env`. -/
theorem snapshots_distinct_timers :
    EveryStep (Intake.next readInteger unaryFormat.text)
      (fun sys step => DistinctSeries nodeLabels (sys.snapshot unaryFormat.text step))
      (.start smallReceiver Flushing.smallAggregator) (timersSteps "env:x") := by
  refine (snapshots_distinct_iff readInteger unaryFormat smallReceiver
    Flushing.newAggregator_small nodeLabels_identity (timersSteps "env:x")).mpr
    ⟨trivial, trivial, trivial, trivial, trivial, ?_, trivial⟩
  exact twinFree_of_tag (ascii "env") (by decide) (by decide +kernel)

/-- **Both timers are flushed as the same bucket.** -/
theorem tagged_timers_collide :
    newAggregator Flushing.smallConfig = .ok Flushing.smallAggregator ∧
    (∀ k ∈ nodeLabels, k ∈ identityKeys) ∧
    ¬ EveryStep (Intake.next readInteger unaryFormat.text)
      (fun sys step => DistinctSeries nodeLabels (sys.snapshot unaryFormat.text step))
      (.start smallReceiver Flushing.smallAggregator) (timersSteps "le:x") := by
  refine ⟨Flushing.newAggregator_small, nodeLabels_identity, fun h => ?_⟩
  have hnodup := h.2.2.2.2.2.1.nodup_labels
  revert hnodup
  decide +kernel

end Dogstatsd
