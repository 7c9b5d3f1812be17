import NodeAgent.Infra.Segments
import NodeAgent.Dogstatsd.Pipeline
import NodeAgent.Dogstatsd.Receiver

/-!
# Who a series is from

A series carries labels of the agent and labels that the application chose. The application can not
set those of the agent, nor the name of the series.

* `series_authentic` — every series that a flush encodes is authentic
-/

namespace Dogstatsd

open Infra

-- the names that were sent, with the types of their metrics
variable {sent : Bytes → MetricType → Prop} {s : TimeSeries} {name : Bytes} {labels : Labels}

/-! ## The states of a window -/

/-- The name, the type and the labels of a state that a line has led to, and its key. -/
structure Attributed (sent : Bytes → MetricType → Prop) (key name : Bytes) (type : MetricType)
    (labels : Labels) : Prop where
  key : key = aggregationKey name type labels
  name : ∃ raw, sent raw type ∧ name = normalizeMetricName raw
  supported : type.Supported
  custom : labels.lookup (ascii "is_custom") = some (ascii "true")
  reserved : ∀ k ∈ reservedLabelKeys, k ≠ ascii "is_custom" → k ∉ labels

def Window.Attributed (sent : Bytes → MetricType → Prop) (w : Window) : Prop :=
  ∀ k state, w.lookup k = some state →
    Dogstatsd.Attributed sent k state.name state.metricType state.labels

section

variable {w : Window} {key : Bytes} {state : AggregateState}

theorem Window.attributed_empty : Window.Attributed sent ∅ := fun _ _ h => by cases h

theorem Window.Attributed.insert (h : w.Attributed sent)
    (hs : Dogstatsd.Attributed sent key state.name state.metricType state.labels) :
    Window.Attributed sent (w.insert key state) := by
  intro k s hk
  rcases Dict.of_lookup_insert hk with ⟨rfl, rfl⟩ | ⟨-, hk⟩
  · exact hs
  · exact h k s hk

theorem Window.Attributed.erase (h : w.Attributed sent) : Window.Attributed sent (w.erase key) :=
  fun k s hk => h k s (Dict.of_lookup_erase hk).2

variable {a : Aggregator} {metric : Metric} {now : Int}

theorem Aggregator.Recording.attributed {created : Option Int}
    {out : Aggregator × Option DropReason} (hrec : a.Recording key state created metric now out)
    (h : a.series.Attributed sent)
    (hs : Attributed sent key state.name state.metricType state.labels) :
    out.1.series.Attributed sent := by
  cases hrec with
  | refused _ _ | known _ _ => exact h
  | unmade _ _ _ | unsupported _ _ => exact h.erase
  | absorbed _ _ _ =>
    obtain ⟨hname, htype, hlabels⟩ := state.absorb_series a.cfg metric (a.gaugeValue key metric)
    exact h.insert (by rwa [hname, htype, hlabels])
  | shown _ _ => exact h.insert hs

theorem Aggregator.Adding.attributed {tags : Labels} {out : Aggregator × Option DropReason}
    (hadd : a.Adding metric tags now out) (h : a.series.Attributed sent)
    (hnew : Attributed sent (metric.aggregationKey tags) (normalizeMetricName metric.name)
      metric.type (withCustom tags)) : out.1.series.Attributed sent := by
  cases hadd with
  | full _ _ => exact h
  | found hstate hrec => exact hrec.attributed h (h _ _ hstate)
  | made _ _ hrec => exact hrec.attributed (h.insert hnew) hnew

theorem attributed_add {tags : Labels} {clock : Int} (h : a.series.Attributed sent)
    (hnew : Attributed sent (metric.aggregationKey tags) (normalizeMetricName metric.name)
      metric.type (withCustom tags)) :
    (a.add metric tags clock).1.series.Attributed sent := by
  rw [← (Aggregator.pruned_pruneGauges a (metric.receivedAt.getD clock)).series] at h
  exact (Aggregator.add_spec a metric tags clock).attributed h hnew

end

theorem FromLine.attributed {r : Receiver} {now : Int} {metric : Metric} {tags : Labels}
    (h : FromLine r now metric tags) (hsent : sent metric.name metric.type) :
    Attributed sent (metric.aggregationKey tags) (normalizeMetricName metric.name) metric.type
      (withCustom tags) := by
  refine ⟨rfl, ⟨metric.name, hsent, rfl⟩, h.parsed.supported, AList.lookup_insert _,
    fun k hk hne hmem => ?_⟩
  rcases (AList.mem_insert _).mp hmem with rfl | hmem
  · exact hne rfl
  · rw [h.tags] at hmem
    exact apply_not_reserved _ _ _ _ _ hk hmem

/-! ## The series of a state -/

/-- What is put after the name of a metric to get the name of a series. -/
structure SeriesSuffix where
  type : MetricType
  bucket : Bool
  text : Bytes
  deriving DecidableEq

def seriesSuffixes : List SeriesSuffix :=
  [⟨.counter, false, ascii "_counter_count"⟩, ⟨.gauge, false, ascii "_gauge"⟩,
    ⟨.timer, true, ascii "_timer_ms_bucket"⟩, ⟨.timer, false, ascii "_timer_ms_sum"⟩,
    ⟨.timer, false, ascii "_timer_ms_count"⟩, ⟨.histogram, true, ascii "_histogram_bucket"⟩,
    ⟨.histogram, false, ascii "_histogram_sum"⟩, ⟨.histogram, false, ascii "_histogram_count"⟩,
    ⟨.set, false, ascii "_set_cardinality"⟩]

/-- A series of a state: its labels are those of the state, and those of a bucket have its bound. -/
inductive RenderedAs (state : AggregateState) (s : TimeSeries) : Prop
  | plain {suffix : Bytes} (hsuffix : ⟨state.metricType, false, suffix⟩ ∈ seriesSuffixes)
      (hlabels : s.labels = labelsMapToSortedPromLabels (state.name ++ suffix) state.labels)
  | bucket {suffix le : Bytes} (hsuffix : ⟨state.metricType, true, suffix⟩ ∈ seriesSuffixes)
      (hlabels : s.labels = labelsMapToSortedPromLabels (state.name ++ suffix)
        (state.labels.insert (ascii "le") le))

section

variable {formatFloat : ℚ → Bytes} {cfg : AggregationConfig} {atMillis : Int}

theorem renderedAs_distribution {kind : Bytes} {state : AggregateState} {bounds : List ℚ}
    (hbucket : ⟨state.metricType, true, kind ++ ascii "_bucket"⟩ ∈ seriesSuffixes)
    (hsum : ⟨state.metricType, false, kind ++ ascii "_sum"⟩ ∈ seriesSuffixes)
    (hcount : ⟨state.metricType, false, kind ++ ascii "_count"⟩ ∈ seriesSuffixes)
    (hs : s ∈ distributionSeries formatFloat (state.name ++ kind) state bounds atMillis) :
    RenderedAs state s := by
  unfold distributionSeries at hs
  simp only [List.mem_append, List.mem_cons, List.not_mem_nil, or_false, List.append_assoc] at hs
  rcases hs with hs | rfl | rfl | rfl
  · obtain ⟨i, hi, rfl⟩ := List.mem_mapIdx.mp hs
    exact .bucket hbucket rfl
  · exact .bucket hbucket rfl
  · exact .plain hsum rfl
  · exact .plain hcount rfl

theorem renderedAs_of_mem {state : AggregateState}
    (hs : s ∈ stateSeries formatFloat cfg atMillis state) : RenderedAs state s := by
  unfold stateSeries at hs
  split at hs
  · rename_i htype
    rw [List.mem_singleton.mp hs]
    exact .plain (by rw [htype]; decide) rfl
  · rename_i htype
    rw [List.mem_singleton.mp hs]
    exact .plain (by rw [htype]; decide) rfl
  · rename_i htype
    exact renderedAs_distribution (by rw [htype]; decide) (by rw [htype]; decide)
      (by rw [htype]; decide) hs
  · rename_i htype
    exact renderedAs_distribution (by rw [htype]; decide) (by rw [htype]; decide)
      (by rw [htype]; decide) hs
  · rename_i htype
    rw [List.mem_singleton.mp hs]
    exact .plain (by rw [htype]; decide) rfl
  · cases hs

end

def Traced (sent : Bytes → MetricType → Prop) (s : TimeSeries) : Prop :=
  ∃ key state, Attributed sent key state.name state.metricType state.labels ∧ RenderedAs state s

theorem traced_of_window {formatFloat : ℚ → Bytes} {cfg : AggregationConfig} {atMillis : Int}
    {w : Window} (h : w.Attributed sent) (hs : s ∈ windowSeries formatFloat cfg atMillis w) :
    Traced sent s := by
  obtain ⟨⟨key, state⟩, hmem, hs⟩ := List.mem_flatMap.mp hs
  exact ⟨key, state, h key state (Dict.mem_sortedEntries.mp hmem), renderedAs_of_mem hs⟩

/-! ## Runs -/

/-- What a line is parsed to was sent. -/
def Admitted (parseFloat : Bytes → Option ℚ) (sent : Bytes → MetricType → Prop) (line : Bytes) :
    Prop :=
  ∀ now limit metric, parseLine parseFloat (trimSpaceBytes line) now limit = .ok metric →
    sent metric.name metric.type

/-- All states are attributed, also those on their way out, and the lines that wait were sent. -/
structure Traceable (parseFloat : Bytes → Option ℚ) (sent : Bytes → MetricType → Prop)
    (sys : Intake) : Prop where
  packets : ∀ payload ∈ sys.packets, ∀ line ∈ payload.splitOn 10, Admitted parseFloat sent line
  workers : ∀ i, ∀ line ∈ (sys.workers i).lines, Admitted parseFloat sent line
  series : sys.flushing.agg.series.Attributed sent
  pending : ∀ rotated ∈ sys.flushing.pending, rotated.window.Attributed sent
  inflight : ∀ s ∈ sys.flushing.agg.inflight, Traced sent s

section

variable {parseFloat : Bytes → Option ℚ} {formatFloat : ℚ → Bytes} {sys : Intake}

theorem traceable_start {cfg : AggregationConfig} {a : Aggregator} (r : Receiver)
    (hnew : newAggregator cfg = .ok a) : Traceable parseFloat sent (.start r a) := by
  obtain ⟨hvalid, rfl⟩ := newAggregator_ok hnew
  exact ⟨fun _ h => (by cases h), fun _ _ h => (by cases h), Window.attributed_empty,
    fun _ h => (by cases h), fun _ h => (by cases h)⟩

theorem Traceable.setWorker (h : Traceable parseFloat sent sys) (i : Nat) {w : Worker}
    (hw : ∀ line ∈ w.lines, Admitted parseFloat sent line) (j : Nat) :
    ∀ line ∈ ((sys.setWorker i w).workers j).lines, Admitted parseFloat sent line := by
  unfold Intake.setWorker
  by_cases hj : j = i
  · subst hj
    simpa using hw
  · simpa [Function.update_of_ne hj] using h.workers j

theorem Traceable.line (h : Traceable parseFloat sent sys) (i : Nat) (allowed : Bool) {line : Bytes}
    {rest : List Bytes} (hlines : ∀ l ∈ line :: rest, Admitted parseFloat sent l) :
    Traceable parseFloat sent (sys.processLine parseFloat i allowed line rest) := by
  have hworkers := h.setWorker i (w := ⟨(sys.workers i).now, rest⟩)
    fun l hl => hlines l (List.mem_cons_of_mem line hl)
  unfold Intake.processLine
  rcases processLine_add parseFloat sys.receiver sys.flushing.agg (sys.workers i).now allowed
    line with hsame | ⟨metric, tags, hparse, hfrom, hadd⟩
  · refine ⟨h.packets, hworkers, ?_, h.pending, ?_⟩
    · simp only [hsame]
      exact h.series
    · simp only [hsame]
      exact h.inflight
  · have hsent := hlines line List.mem_cons_self _ _ metric hparse
    refine ⟨h.packets, hworkers, ?_, h.pending, ?_⟩
    · simp only [hadd]
      exact attributed_add h.series (hfrom.attributed hsent)
    · simp only [hadd, (Aggregator.add_keeps hfrom.parsed.supported tags _).inflight]
      exact h.inflight

theorem Traceable.rotate (h : Traceable parseFloat sent sys) :
    Traceable parseFloat sent (sys.next parseFloat formatFloat .rotate) := by
  by_cases hwait : sys.flushing.agg.inflight = []
  · simp only [Intake.next, Flushing.step, Aggregator.rotate_of_none hwait]
    refine ⟨h.packets, h.workers, Window.attributed_empty, fun rotated hmem => ?_, h.inflight⟩
    rcases List.mem_append.mp hmem with hmem | hmem
    · exact h.pending rotated hmem
    · rw [List.mem_singleton.mp hmem]
      exact h.series
  · simp only [Intake.next, Flushing.step, Aggregator.rotate_of_waiting hwait]
    exact h

theorem Traceable.publish (h : Traceable parseFloat sent sys) (index : Nat) (atMillis : Int) :
    Traceable parseFloat sent (sys.next parseFloat formatFloat (.publish index atMillis)) := by
  simp only [Intake.next, Flushing.step]
  split
  · rename_i rotated hrotated
    have hwindow := h.pending rotated (List.mem_of_getElem? hrotated)
    exact ⟨h.packets, h.workers, h.series, fun r hr => h.pending r (List.mem_of_mem_eraseIdx hr),
      fun s hs => traced_of_window hwindow hs⟩
  · exact h

/-- **Every step keeps the states attributed.** -/
theorem Traceable.next (h : Traceable parseFloat sent sys) (step : IntakeStep)
    (hreceived : ∀ payload, step = .receive payload → ∀ line ∈ payload.splitOn 10,
      Admitted parseFloat sent line) :
    Traceable parseFloat sent (sys.next parseFloat formatFloat step) := by
  cases step with
  | receive payload =>
    refine ⟨fun p hp => ?_, h.workers, h.series, h.pending, h.inflight⟩
    rcases List.mem_append.mp hp with hp | hp
    · exact h.packets p hp
    · rw [List.mem_singleton.mp hp]
      exact hreceived payload rfl
  | dequeue i now =>
    simp only [Intake.next]
    split
    · rename_i payload packets _ hpackets
      have hpacket : ∀ p ∈ payload :: packets, _ := hpackets ▸ h.packets
      exact ⟨fun p hp => hpacket p (List.mem_cons_of_mem payload hp),
        h.setWorker i (hpacket payload List.mem_cons_self), h.series, h.pending, h.inflight⟩
    · exact h
  | line i allowed =>
    simp only [Intake.next]
    split
    · exact h
    · rename_i line rest hlines
      exact h.line i allowed (hlines ▸ h.workers i)
  | rotate => exact h.rotate
  | publish index atMillis => exact h.publish index atMillis
  | commit => exact ⟨h.packets, h.workers, h.series, h.pending, fun _ hs => by cases hs⟩

/-- Whatever was sent, the states stay attributed to something. -/
theorem Traceable.next_any (h : Traceable parseFloat (fun _ _ => True) sys)
    (formatFloat : ℚ → Bytes) (step : IntakeStep) :
    Traceable parseFloat (fun _ _ => True) (sys.next parseFloat formatFloat step) :=
  h.next step fun _ _ _ _ _ _ _ _ => trivial

theorem Attributed.mono {sent' : Bytes → MetricType → Prop} {key : Bytes} {type : MetricType}
    (hsent : ∀ raw type, sent raw type → sent' raw type)
    (h : Attributed sent key name type labels) :
    Attributed sent' key name type labels := by
  obtain ⟨raw, hraw, hname⟩ := h.name
  exact ⟨h.key, ⟨raw, hsent raw type hraw, hname⟩, h.supported, h.custom, h.reserved⟩

theorem Traceable.mono {sent' : Bytes → MetricType → Prop}
    (hsent : ∀ raw type, sent raw type → sent' raw type) (h : Traceable parseFloat sent sys) :
    Traceable parseFloat sent' sys := by
  have hwindow : ∀ {w : Window}, w.Attributed sent → w.Attributed sent' :=
    fun hw k state hk => (hw k state hk).mono hsent
  have hline : ∀ {line}, Admitted parseFloat sent line → Admitted parseFloat sent' line :=
    fun hline now limit metric hparse => hsent _ _ (hline now limit metric hparse)
  refine ⟨fun p hp line hl => hline (h.packets p hp line hl),
    fun i line hl => hline (h.workers i line hl), hwindow h.series,
    fun r hr => hwindow (h.pending r hr), fun s hs => ?_⟩
  obtain ⟨key, state, hstate, hrendered⟩ := h.inflight s hs
  exact ⟨key, state, hstate.mono hsent, hrendered⟩

end

/-- The series that `Snapshot` returns to the flush in a step. -/
def Intake.snapshot (formatFloat : ℚ → Bytes) (sys : Intake) : IntakeStep → List TimeSeries
  | .rotate =>
    match sys.flushing.agg.rotate with
    | (.inl series, _) => series
    | (.inr _, _) => []
  | .publish index atMillis =>
    match sys.flushing.pending[index]? with
    | some rotated => (sys.flushing.agg.publish formatFloat atMillis rotated).1
    | none => []
  | _ => []

theorem takeWindow_eq_snapshot (parseFloat : Bytes → Option ℚ) (formatFloat : ℚ → Bytes)
    (sys : Intake) (h : sys.flushing.pending = []) (atMillis : Int) :
    (Pipeline.takeWindow formatFloat atMillis [] sys.flushing.agg).1 =
      sys.snapshot formatFloat .rotate ++
        (sys.next parseFloat formatFloat .rotate).snapshot formatFloat (.publish 0 atMillis) := by
  cases hrotate : sys.flushing.agg.rotate with
  | mk taken a =>
    simp only [Pipeline.takeWindow, Intake.snapshot, Intake.next, Flushing.step, hrotate]
    cases taken with
    | inl series => simp [h]
    | inr rotated => simp [h, Aggregator.addAll]

theorem Traceable.snapshot {parseFloat : Bytes → Option ℚ} {formatFloat : ℚ → Bytes}
    {sys : Intake} (h : Traceable parseFloat sent sys) {step : IntakeStep}
    (hs : s ∈ sys.snapshot formatFloat step) : Traced sent s := by
  cases step with
  | rotate =>
    by_cases hwait : sys.flushing.agg.inflight = []
    · simp only [Intake.snapshot, Aggregator.rotate_of_none hwait] at hs
      cases hs
    · simp only [Intake.snapshot, Aggregator.rotate_of_waiting hwait] at hs
      exact h.inflight s hs
  | publish index atMillis =>
    simp only [Intake.snapshot] at hs
    split at hs
    · rename_i rotated hrotated
      exact traced_of_window (h.pending rotated (List.mem_of_getElem? hrotated)) hs
    · cases hs
  | receive payload => cases hs
  | dequeue i now => cases hs
  | line i allowed => cases hs
  | commit => cases hs

/-! ## Labels -/

theorem mem_addExternalLabels {external : Labels} {k v : Bytes} (h : (s.labels.map Prod.fst).Nodup)
    :
    (k, v) ∈ (addExternalLabels external s).labels ↔
      external.lookup k = some v ∨ (k ∉ external ∧ (k, v) ∈ s.labels) := by
  have hpairs : ∀ (m : Labels), external.entries.foldl (fun m l => m.insert l.1 l.2) m =
      (external.entries.map (fun e => (e.1, e.2))).foldl (fun m l => m.insert l.1 l.2) m :=
    fun m => by rw [List.foldl_map]
  have hkeys : (external.entries.map (fun e => (e.1, e.2))).map Prod.fst = external.keys := by
    rw [List.map_map]
    rfl
  have hmem : (k, v) ∈ external.entries.map (fun e => (e.1, e.2)) ↔ external.lookup k = some v := by
    rw [← Option.mem_def, AList.mem_lookup_iff]
    constructor
    · intro hmem
      obtain ⟨⟨k', v'⟩, hentry, he⟩ := List.mem_map.mp hmem
      cases he
      exact hentry
    · exact fun hmem => List.mem_map.mpr ⟨_, hmem, rfl⟩
  unfold addExternalLabels
  simp only [sortedLabels]
  rw [Dict.mem_sortedEntries, hpairs, Dict.lookup_foldl_insert (hkeys ▸ external.keys_nodup), hmem,
    hkeys, ← AList.mem_keys, Dict.lookup_foldl_insert h]
  simp

theorem nodup_addExternalLabels (external : Labels) (s : TimeSeries) :
    ((addExternalLabels external s).labels.map Prod.fst).Nodup :=
  Dict.nodup_keys_sortedEntries _

theorem nodup_labelsMap (h : ascii "__name__" ∉ labels) :
    ((labelsMapToSortedPromLabels name labels).map Prod.fst).Nodup := by
  refine List.nodup_cons.mpr ⟨fun hmem => ?_, Dict.nodup_keys_sortedEntries labels⟩
  obtain ⟨⟨k, v⟩, hmem, rfl⟩ := List.mem_map.mp hmem
  exact h (AList.lookup_isSome.mp (Option.isSome_of_eq_some (Dict.mem_sortedEntries.mp hmem)))

def identityKeys : List Bytes :=
  [ascii "instance", ascii "job", ascii "machine_id", ascii "system_uuid"]

/-- The labels of a series are those of the agent, and its name is that of a metric that was
sent. -/
structure Authentic (sent : Bytes → MetricType → Prop) (external : Labels) (s : TimeSeries) :
    Prop where
  /-- no label twice -/
  nodup : (s.labels.map Prod.fst).Nodup
  custom : (ascii "is_custom", ascii "true") ∈ s.labels
  external : ∀ k v, external.lookup k = some v → (k, v) ∈ s.labels
  /-- the only name is generated from that of the metric and from its type -/
  name : ∃ raw, ∃ suffix ∈ seriesSuffixes, sent raw suffix.type ∧
    s.labels.filter (fun l => l.1 = ascii "__name__") =
      [(ascii "__name__", normalizeMetricName raw ++ suffix.text)]
  absent : ∀ k ∈ [ascii "statsd_type", ascii "tenant_id", ascii "project_id"],
    ∀ v, (k, v) ∉ s.labels

structure Plain (s : TimeSeries) (name : Bytes) : Prop where
  nodup : (s.labels.map Prod.fst).Nodup
  custom : (ascii "is_custom", ascii "true") ∈ s.labels
  name : (ascii "__name__", name) ∈ s.labels
  reserved : ∀ k ∈ reservedLabelKeys, k ≠ ascii "is_custom" → k ≠ ascii "__name__" →
    ∀ v, (k, v) ∉ s.labels

theorem mem_labelsMap {k v : Bytes} :
    (k, v) ∈ labelsMapToSortedPromLabels name labels ↔
      (k, v) = (ascii "__name__", name) ∨ labels.lookup k = some v := by
  rw [labelsMapToSortedPromLabels, List.mem_cons, sortedLabels, Dict.mem_sortedEntries]

theorem plain_of_labels (hs : s.labels = labelsMapToSortedPromLabels name labels)
    (hcustom : labels.lookup (ascii "is_custom") = some (ascii "true"))
    (hreserved : ∀ k ∈ reservedLabelKeys, k ≠ ascii "is_custom" → k ∉ labels) : Plain s name := by
  refine ⟨?_, ?_, ?_, fun k hk hcustom' hname v hmem => ?_⟩
  · rw [hs]
    exact nodup_labelsMap (hreserved _ (by decide) (by decide))
  · rw [hs, mem_labelsMap]
    exact .inr hcustom
  · rw [hs, mem_labelsMap]
    exact .inl rfl
  · rw [hs, mem_labelsMap] at hmem
    rcases hmem with heq | hlookup
    · exact hname (congrArg Prod.fst heq)
    · exact hreserved k hk hcustom'
        (AList.lookup_isSome.mp (Option.isSome_of_eq_some hlookup))

theorem Traced.plain (h : Traced sent s) : ∃ raw, ∃ suffix ∈ seriesSuffixes,
    sent raw suffix.type ∧ Plain s (normalizeMetricName raw ++ suffix.text) := by
  obtain ⟨key, state, hstate, hrendered⟩ := h
  obtain ⟨raw, hsent, hraw⟩ := hstate.name
  rcases hrendered with ⟨hsuffix, hlabels⟩ | ⟨hsuffix, hlabels⟩
  · rw [hraw] at hlabels
    exact ⟨raw, _, hsuffix, hsent, plain_of_labels hlabels hstate.custom hstate.reserved⟩
  · rw [hraw] at hlabels
    have hle : ∀ k ∈ reservedLabelKeys, k ≠ ascii "le" := by decide
    refine ⟨raw, _, hsuffix, hsent, plain_of_labels hlabels ?_ fun k hk hne hmem => ?_⟩
    · rw [AList.lookup_insert_ne (by decide)]
      exact hstate.custom
    · rcases (AList.mem_insert _).mp hmem with rfl | hmem
      · exact hle _ hk rfl
      · exact hstate.reserved k hk hne hmem

theorem filter_eq_singleton {l : List (Bytes × Bytes)} {k v : Bytes}
    (hnodup : (l.map Prod.fst).Nodup) (hmem : (k, v) ∈ l) :
    l.filter (fun e => e.1 = k) = [(k, v)] := by
  induction l with
  | nil => cases hmem
  | cons e l ih =>
    obtain ⟨hkey, hnodup⟩ := List.nodup_cons.mp hnodup
    rcases List.mem_cons.mp hmem with rfl | hmem
    · have hnone : l.filter (fun e => e.1 = k) = [] := by
        refine List.filter_eq_nil_iff.mpr fun e he hek => hkey ?_
        rw [← decide_eq_true_eq.mp hek]
        exact List.mem_map.mpr ⟨e, he, rfl⟩
      rw [List.filter_cons_of_pos (by simp), hnone]
    · have hne : e.1 ≠ k := by
        rintro rfl
        exact hkey (List.mem_map.mpr ⟨_, hmem, rfl⟩)
      rw [List.filter_cons_of_neg (by simpa using hne)]
      exact ih hnodup hmem

theorem authentic_of_plain {external : Labels} {raw : Bytes} {suffix : SeriesSuffix}
    (hsuffix : suffix ∈ seriesSuffixes) (hsent : sent raw suffix.type)
    (h : Plain s (normalizeMetricName raw ++ suffix.text))
    (hexternal : ∀ k ∈ external, k ∈ identityKeys) :
    Authentic sent external (addExternalLabels external s) := by
  have hother : ∀ k ∈ [ascii "is_custom", ascii "__name__", ascii "statsd_type",
      ascii "tenant_id", ascii "project_id"], k ∉ external := by
    intro k hk hmem
    have hdisjoint : ∀ k ∈ [ascii "is_custom", ascii "__name__", ascii "statsd_type",
        ascii "tenant_id", ascii "project_id"], k ∉ identityKeys := by decide
    exact hdisjoint k hk (hexternal k hmem)
  have hnodup := nodup_addExternalLabels external s
  refine ⟨hnodup, ?_, fun k v hk => ?_, ⟨raw, suffix, hsuffix, hsent, ?_⟩,
    fun k hk v hmem => ?_⟩
  · exact (mem_addExternalLabels h.nodup).mpr (.inr ⟨hother _ (by decide), h.custom⟩)
  · exact (mem_addExternalLabels h.nodup).mpr (.inl hk)
  · refine filter_eq_singleton hnodup ?_
    exact (mem_addExternalLabels h.nodup).mpr (.inr ⟨hother _ (by decide), h.name⟩)
  · have habsent : ∀ k ∈ [ascii "statsd_type", ascii "tenant_id", ascii "project_id"],
        k ∈ reservedLabelKeys ∧ k ≠ ascii "is_custom" ∧ k ≠ ascii "__name__" ∧
          k ∈ [ascii "is_custom", ascii "__name__", ascii "statsd_type", ascii "tenant_id",
            ascii "project_id"] := by decide
    obtain ⟨hreserved, hcustom, hne, hlisted⟩ := habsent k hk
    rcases (mem_addExternalLabels h.nodup).mp hmem with hexternal' | ⟨_, hmem⟩
    · exact hother k hlisted (AList.lookup_isSome.mp (Option.isSome_of_eq_some hexternal'))
    · exact h.reserved k hreserved hcustom hne v hmem

/-- A line of a datagram received so far is a metric of this type, with this name before its first
colon. -/
def SentIn (parseFloat : Bytes → Option ℚ) (pre : List IntakeStep) (raw : Bytes)
    (type : MetricType) : Prop :=
  ∃ payload, .receive payload ∈ pre ∧ ∃ line ∈ payload.splitOn 10, raw = metricName line ∧
    ∃ now limit metric, parseLine parseFloat (trimSpaceBytes line) now limit = .ok metric ∧
      metric.type = type

theorem metricName_trimSpaceBytes {line : Bytes} (h : 58 ∈ line) :
    metricName (trimSpaceBytes line) = metricName line := by
  obtain ⟨before, after, rfl, hbefore⟩ := List.eq_append_cons_of_mem h
  have htake : ∀ {p q : Bytes}, 58 ∉ p → (p ++ 58 :: q).takeWhile (· ≠ 58) = p := by
    intro p q hp
    have hne : ∀ b ∈ p, decide (b ≠ (58 : UInt8)) = true := fun b hb =>
      decide_eq_true fun heq => hp (heq ▸ hb)
    rw [List.takeWhile_append_of_pos hne]
    simp
  rw [trimSpaceBytes_append_ascii (by decide) (by decide), metricName, metricName, htake hbefore,
    htake fun hmem => hbefore (trimLeftSpace_subset before hmem), trimSpaceBytes_trimLeftSpace]

theorem admitted_of_received {parseFloat : Bytes → Option ℚ} {pre : List IntakeStep}
    {payload line : Bytes} (hreceived : .receive payload ∈ pre)
    (hline : line ∈ payload.splitOn 10) : Admitted parseFloat (SentIn parseFloat pre) line := by
  intro now limit metric hparse
  obtain ⟨hname, hcolon⟩ := parseLine_name hparse
  rw [trimSpaceBytes_idem] at hname hcolon
  rw [metricName_trimSpaceBytes (mem_trimSpaceBytes hcolon)] at hname
  exact ⟨payload, hreceived, line, hline, hname, now, limit, metric, hparse, rfl⟩

/-- **Every series that a flush encodes is authentic**, whatever datagrams were received before, and
however the workers and the flushes interleave. -/
theorem series_authentic (parseFloat : Bytes → Option ℚ) (formatFloat : ℚ → Bytes) (r : Receiver)
    {cfg : AggregationConfig} {a : Aggregator} (hnew : newAggregator cfg = .ok a)
    {external : Labels} (hexternal : ∀ k ∈ external, k ∈ identityKeys) (steps : List IntakeStep) :
    ∀ pre step rest, steps = pre ++ step :: rest →
      ∀ s ∈ (pre.foldl (Intake.next parseFloat formatFloat) (.start r a)).snapshot formatFloat step,
        Authentic (SentIn parseFloat pre) external (addExternalLabels external s) := by
  intro pre step rest hsplit s hs
  have htraceable : Traceable parseFloat (SentIn parseFloat pre)
      (pre.foldl (Intake.next parseFloat formatFloat) (.start r a)) := by
    refine holds_of_history (J := fun pre => Traceable parseFloat (SentIn parseFloat pre)
      (pre.foldl (Intake.next parseFloat formatFloat) (.start r a))) (H := fun _ _ => True)
      (traceable_start r hnew) ?_ (fun _ _ _ _ => trivial) pre _ hsplit
    intro pre step h _
    rw [List.foldl_concat]
    refine (h.mono fun raw type => ?_).next step fun payload hstep line hline => ?_
    · exact fun ⟨payload, hp, hrest⟩ => ⟨payload, List.mem_append_left _ hp, hrest⟩
    · subst hstep
      exact admitted_of_received (List.mem_append_right _ (List.mem_singleton_self _)) hline
  obtain ⟨raw, suffix, hsuffix, hsent, hplain⟩ := (htraceable.snapshot hs).plain
  exact authentic_of_plain hsuffix hsent hplain hexternal

/-! ## A datagram with reserved tags -/

/-- A counter whose tags name another instance, and another series. -/
def forgedPayload : Bytes := ascii "a:1|c|#instance:evil,__name__:evil,Is-Custom:no"

def forgedSteps : List IntakeStep :=
  [.receive forgedPayload, .dequeue 0 5, .line 0 true, .rotate, .publish 0 7]

def forgedLabels : List (Bytes × Bytes) :=
  [(ascii "__name__", ascii "a_counter_count"), (ascii "is_custom", ascii "true")]

def nodeLabels : Labels := AList.singleton (ascii "instance") (ascii "node")

theorem nodeLabels_identity : ∀ k ∈ nodeLabels, k ∈ identityKeys := by decide

/-- The series has the labels of the agent, and the name of the counter. -/
theorem series_authentic_forged :
    Authentic (SentIn readInteger (forgedSteps.take 4)) nodeLabels
      (addExternalLabels nodeLabels ⟨forgedLabels, [⟨1, 7⟩]⟩) :=
  series_authentic readInteger (fun _ => []) smallReceiver Flushing.newAggregator_small
    nodeLabels_identity forgedSteps (forgedSteps.take 4) (.publish 0 7) [] rfl _ (by decide +kernel)

end Dogstatsd
