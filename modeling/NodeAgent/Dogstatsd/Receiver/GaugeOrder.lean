import NodeAgent.Dogstatsd.Receiver.Identity
import NodeAgent.Dogstatsd.SeriesKeys

/-!
# The order of gauge updates

Updates of a gauge do not commute: an absolute value replaces what was there, a signed value is
added to it. One parse worker handles the lines in the order in which their datagrams were queued.
Two workers do not, and not even the lines of one datagram stay together.

* `gaugesOrdered_iff` — this holds if and only if there is one worker
-/

namespace Dogstatsd

open Infra

variable {sent sent' : Bytes → MetricType → Prop}

/-! ## What the lines say -/

structure GaugeUpdate where
  key : Bytes
  relative : Bool
  value : ℚ

abbrev Gauges := Bytes → Option ℚ

/-- An absolute value overwrites, a signed value is added. -/
def GaugeUpdate.apply (u : GaugeUpdate) (values : Gauges) : Gauges :=
  Function.update values u.key
    (some (if u.relative then (values u.key).getD 0 + u.value else u.value))

section

variable (parseFloat : Bytes → Option ℚ) (cfg : Config)

/-- The labels that the aggregator keeps for a metric. -/
def Config.aggregateLabels (tags : Labels) : Labels :=
  (cfg.tagPolicy.apply tags).1.insert (ascii "is_custom") (ascii "true")

def metricUpdate (metric : Metric) : Option GaugeUpdate :=
  if metric.type = .gauge then
    some ⟨aggregationKey (normalizeMetricName metric.name) .gauge (cfg.aggregateLabels metric.tags),
      metric.relative, metric.value⟩
  else none

/-- The update that a line asks for. The time does not matter. -/
def gaugeUpdate (line : Bytes) : Option GaugeUpdate :=
  match parseLine parseFloat (trimSpaceBytes line) 0 cfg.maxMetricNameLength with
  | .ok metric => metricUpdate cfg metric
  | .error _ => none

def applyLine (values : Gauges) (line : Bytes) : Gauges :=
  match gaugeUpdate parseFloat cfg line with
  | some u => u.apply values
  | none => values

/-- The datagrams one after the other, and the lines of each of them in order. -/
def applyDatagrams (payloads : List Bytes) : Gauges :=
  (payloads.flatMap (·.splitOn 10)).foldl (applyLine parseFloat cfg) (fun _ => none)

end

/-! ## What the aggregator shows -/

/-- The gauges have these values, and so have their states in the active window. -/
structure Shows (a : Aggregator) (values : Gauges) : Prop where
  baseline : ∀ key, (a.gauges.lookup key).map GaugeBaseline.value = values key
  window : ∀ key state, a.series.lookup key = some state → state.metricType = .gauge →
    values key = some state.value

def Aggregator.Fresh (a : Aggregator) (now : Int) : Prop :=
  ∀ key b, a.gauges.lookup key = some b → now - a.cfg.gaugeTTL ≤ b.lastSeen

section

variable {a a' : Aggregator} {values : Gauges} {key : Bytes} {state : AggregateState}
  {metric : Metric} {now : Int}

theorem lookup_pruneGauges_fresh (h : a.Fresh now) (key : Bytes) :
    (a.pruneGauges now).gauges.lookup key = a.gauges.lookup key := by
  cases hb : a.gauges.lookup key with
  | none => exact Aggregator.lookup_pruneGauges_none hb
  | some b =>
    refine Aggregator.lookup_pruneGauges_kept hb ?_
    rintro ⟨-, hexpired⟩
    exact absurd (h key b hb) (not_le.mpr hexpired)

theorem Shows.pruneGauges (h : Shows a values) (hfresh : a.Fresh now) :
    Shows (a.pruneGauges now) values := by
  refine ⟨fun key => ?_, fun key state => ?_⟩
  · rw [lookup_pruneGauges_fresh hfresh]
    exact h.baseline key
  · rw [(Aggregator.pruned_pruneGauges a now).series]
    exact h.window key state

/-- The aggregator changes beside the gauges: no baseline moves, and no new state is one of a
gauge. -/
structure Beside (a a' : Aggregator) : Prop where
  gauges : a'.gauges = a.gauges
  series : ∀ k state, a'.series.lookup k = some state →
    a.series.lookup k = some state ∨ state.metricType ≠ .gauge

theorem Beside.refl : Beside a a := ⟨rfl, fun _ _ h => .inl h⟩

theorem beside_insert (hgauges : a'.gauges = a.gauges)
    (hseries : a'.series = a.series.insert key state) (hs : state.metricType ≠ .gauge) :
    Beside a a' := by
  refine ⟨hgauges, fun k s hk => ?_⟩
  rw [hseries] at hk
  rcases Dict.of_lookup_insert hk with ⟨-, rfl⟩ | ⟨-, hk⟩
  · exact .inr hs
  · exact .inl hk

theorem setState_beside (hs : state.metricType ≠ .gauge) (bytes : Int) :
    Beside a { a.setState key state with activeBytes := bytes } := beside_insert rfl rfl hs

theorem Shows.beside (h : Shows a values) (hb : Beside a a') : Shows a' values := by
  refine ⟨fun k => ?_, fun k state hk hgauge => ?_⟩
  · rw [hb.gauges]
    exact h.baseline k
  · rcases hb.series k state hk with hk | hne
    · exact h.window k state hk hgauge
    · exact absurd hgauge hne

theorem Aggregator.Recording.beside {created : Option Int} {out : Aggregator × Option DropReason}
    (h : a.Recording key state created metric now out) (hm : metric.type ≠ .gauge)
    (hsupported : metric.type.Supported) (hs : state.metricType ≠ .gauge) : Beside a out.1 := by
  cases h with
  | refused _ _ | known _ _ => exact .refl
  | unmade _ hgauge _ | shown hgauge _ => exact absurd hgauge hm
  | unsupported htype _ => exact absurd hsupported htype
  | absorbed _ _ _ =>
    refine beside_insert rfl rfl ?_
    rwa [(state.absorb_series _ _ _).2.1]

/-- As `Shows`, but for the state at one key. -/
structure ShowsBut (key : Bytes) (a : Aggregator) (values : Gauges) : Prop where
  baseline : ∀ k, (a.gauges.lookup k).map GaugeBaseline.value = values k
  window : ∀ k state, k ≠ key → a.series.lookup k = some state → state.metricType = .gauge →
    values k = some state.value

theorem Shows.but (h : Shows a values) (key : Bytes) : ShowsBut key a values :=
  ⟨h.baseline, fun k state _ => h.window k state⟩

theorem Shows.insert (h : Shows a values) (key : Bytes) (state : AggregateState) (bytes : Int) :
    ShowsBut key { a.setState key state with activeBytes := bytes } values := by
  refine ⟨h.baseline, fun k s hne hk => h.window k s ?_⟩
  rwa [Aggregator.setState, AList.lookup_insert_ne hne] at hk

theorem Aggregator.Recording.shows {created : Option Int} {out : Aggregator × Option DropReason}
    (hrec : a.Recording key state created metric now out) (h : ShowsBut key a values)
    (hgauge : metric.type = .gauge) (hfits : out.2 ≠ some .aggregationBytes) :
    Shows out.1 (GaugeUpdate.apply ⟨key, metric.relative, metric.value⟩ values) := by
  cases hrec with
  | refused reason hwhy =>
    rcases hwhy with ⟨-, hnot⟩ | hset | ⟨-, -, rfl⟩
    · exact absurd hgauge hnot
    · rw [hgauge] at hset
      cases hset
    · exact absurd rfl hfits
  | unmade _ _ _ => exact absurd rfl hfits
  | unsupported htype _ => exact absurd (by rw [hgauge]; trivial) htype
  | known hset _ =>
    rw [hgauge] at hset
    cases hset
  | absorbed hnot _ _ => exact absurd hgauge hnot
  | shown _ _ =>
    have hvalue : (a.baseline key).value = (values key).getD 0 := by
      rw [← h.baseline key, Aggregator.baseline]
      cases a.gauges.lookup key <;> rfl
    unfold Aggregator.setGauge GaugeUpdate.apply
    simp only [hvalue]
    refine ⟨fun k => ?_, fun k s hk hgauge => ?_⟩
    · by_cases he : k = key
      · rw [he, AList.lookup_insert, Function.update_self]
        rfl
      · rw [AList.lookup_insert_ne he, Function.update_of_ne he]
        exact h.baseline k
    · rcases Dict.of_lookup_insert hk with ⟨rfl, rfl⟩ | ⟨he, hk⟩
      · rw [Function.update_self]
      · rw [Function.update_of_ne he]
        exact h.window k s he hk hgauge

end

/-! ## Keys -/

theorem Attributed.type_eq {key name name' : Bytes} {type type' : MetricType}
    {labels labels' : Labels} (h : Attributed sent key name type labels)
    (h' : Attributed sent' key name' type' labels') : type = type' := by
  obtain ⟨raw, -, hname⟩ := h.name
  obtain ⟨raw', -, hname'⟩ := h'.name
  have hkey := h.key.symm.trans h'.key
  rw [hname, hname'] at hkey
  exact (aggregationKey_parts (normalizeMetricName_no_separator raw)
    (normalizeMetricName_no_separator raw') h.supported h'.supported hkey).2.1

/-! ## What a line does -/

section

variable {a : Aggregator} {values : Gauges} {r : Receiver} {metric : Metric} {tags : Labels}
  {now : Int}

def applyMetric (cfg : Config) (metric : Metric) (values : Gauges) : Gauges :=
  match metricUpdate cfg metric with
  | some u => u.apply values
  | none => values

theorem Aggregator.Adding.shows {out : Aggregator × Option DropReason}
    (hadd : a.Adding metric tags now out) (h : Shows a values) (hw : a.series.Attributed sent)
    (hfrom : FromLine r now metric tags) (hfits : out.2 ≠ some .aggregationBytes) :
    Shows out.1 (applyMetric r.cfg metric values) := by
  have hnew := @FromLine.attributed (fun _ _ => True) r now metric tags hfrom trivial
  unfold applyMetric metricUpdate
  by_cases hgauge : metric.type = .gauge
  · have hkey : aggregationKey (normalizeMetricName metric.name) .gauge
        (r.cfg.aggregateLabels metric.tags) = metric.aggregationKey tags := by
      rw [← hgauge, hfrom.tags]
      rfl
    rw [if_pos hgauge, hkey]
    cases hadd with
    | full _ _ => exact absurd rfl hfits
    | found _ hrec => exact hrec.shows (h.but _) hgauge hfits
    | made _ _ hrec => exact hrec.shows (h.insert _ _ _) hgauge hfits
  · rw [if_neg hgauge]
    cases hadd with
    | full _ _ => exact h
    | found hstate hrec =>
      -- the state that was found is one of the same type
      have htype := hnew.type_eq (hw _ _ hstate)
      exact h.beside (hrec.beside hgauge hfrom.parsed.supported (htype ▸ hgauge))
    | made _ _ hrec =>
      exact (h.beside (setState_beside hgauge _)).beside
        (hrec.beside hgauge hfrom.parsed.supported hgauge)

/-- **A call of `Add` that is not refused for its bytes does what the metric says.** -/
theorem shows_add (h : Shows a values) (hw : a.series.Attributed sent)
    (hfrom : FromLine r now metric tags) (hfresh : a.Fresh now)
    (hfits : (a.add metric tags now).2 ≠ some .aggregationBytes) :
    Shows (a.add metric tags now).1 (applyMetric r.cfg metric values) := by
  have hspec := Aggregator.add_spec a metric tags now
  rw [hfrom.parsed.receivedAt, Option.getD_some] at hspec
  rw [← (Aggregator.pruned_pruneGauges a now).series] at hw
  exact hspec.shows (h.pruneGauges hfresh) hw hfrom hfits

theorem applyLine_of_ok {parseFloat : Bytes → Option ℚ} {cfg : Config} {line : Bytes}
    (h : parseLine parseFloat (trimSpaceBytes line) now cfg.maxMetricNameLength = .ok metric) :
    applyLine parseFloat cfg values line = applyMetric cfg metric values := by
  unfold applyLine gaugeUpdate applyMetric
  rw [parseLine_receivedAt _ now, h]
  rfl

theorem applyLine_of_error {parseFloat : Bytes → Option ℚ} {cfg : Config} {line : Bytes}
    {e : ParseError}
    (h : parseLine parseFloat (trimSpaceBytes line) now cfg.maxMetricNameLength = .error e) :
    applyLine parseFloat cfg values line = values := by
  unfold applyLine gaugeUpdate
  rw [parseLine_receivedAt _ now, h]
  rfl

theorem applyLine_of_blank {parseFloat : Bytes → Option ℚ} {cfg : Config} {line : Bytes}
    (h : trimSpaceBytes line = []) : applyLine parseFloat cfg values line = values := by
  have hparse : parseLine parseFloat (trimSpaceBytes line) 0 cfg.maxMetricNameLength =
      .error .emptyLine := by
    rw [h]
    rfl
  exact applyLine_of_error hparse

def LineOutcome.Limited : LineOutcome → Prop
  | .rateLimited => True
  | .refused _ => True
  | .dropped reason => reason = .aggregationBytes
  | _ => False

theorem shows_processMetric (h : Shows a values) (hw : a.series.Attributed sent)
    (hparsed : Parsed now metric) (hfresh : a.Fresh now)
    (hlimits : ¬ (r.processMetric a now metric).1.Limited) :
    Shows (r.processMetric a now metric).2.2 (applyMetric r.cfg metric values) := by
  revert hlimits
  unfold Receiver.processMetric
  simp only
  have hadd := fun hfits => shows_add (r := r) h hw ⟨hparsed, rfl⟩ hfresh hfits
  split
  · -- there is a series for every gauge
    rename_i hseries
    intro _
    have htype : metric.type ≠ .gauge := by
      intro htype
      simp only [buildRawSeries, htype] at hseries
      cases hseries
    unfold applyMetric metricUpdate
    rw [if_neg htype]
    exact h
  split
  · exact fun hlimits => absurd trivial hlimits
  split
  · rename_i hdropped
    rw [hdropped] at hadd
    exact fun hlimits => hadd fun hreason => hlimits (Option.some.inj hreason)
  · rename_i hadded
    rw [hadded] at hadd
    exact fun _ => hadd fun hreason => by cases hreason

/-- **A line that no limit drops does what it says.** -/
theorem shows_processLine {parseFloat : Bytes → Option ℚ} {allowed : Bool} {line : Bytes}
    (h : Shows a values) (hw : a.series.Attributed sent) (hfresh : a.Fresh now)
    (hlimits : ¬ (r.processLine parseFloat a now allowed line).1.Limited) :
    Shows (r.processLine parseFloat a now allowed line).2.2
      (applyLine parseFloat r.cfg values line) := by
  revert hlimits
  unfold Receiver.processLine
  simp only
  split
  · rename_i hblank
    rw [applyLine_of_blank hblank]
    exact fun _ => h
  split
  · exact fun hlimits => absurd trivial hlimits
  split
  · rename_i hparse
    rw [applyLine_of_error hparse]
    exact fun _ => h
  · rename_i hparse
    rw [applyLine_of_ok hparse]
    exact shows_processMetric h hw (parseLine_ok hparse) hfresh

end

/-! ## Runs -/

/-- The worker that takes a step, if it is the step of a worker. -/
def IntakeStep.worker : IntakeStep → Option Nat
  | .dequeue i _ => some i
  | .line i _ => some i
  | _ => none

def OnWorkers (workers : Int) (steps : List IntakeStep) : Prop :=
  ∀ step ∈ steps, ∀ i ∈ step.worker, (i : Int) < workers

def datagrams (steps : List IntakeStep) : List Bytes :=
  steps.filterMap fun
    | .receive payload => some payload
    | _ => none

namespace Intake

/-- No limit drops the line of a step, and no gauge has expired. -/
def Undisturbed (parseFloat : Bytes → Option ℚ) (sys : Intake) : IntakeStep → Prop
  | .line i allowed =>
    ∀ line ∈ (sys.workers i).lines.head?,
      ¬ (sys.receiver.processLine parseFloat sys.flushing.agg (sys.workers i).now allowed
        line).1.Limited ∧ sys.flushing.agg.Fresh (sys.workers i).now
  | _ => True

def Drained (sys : Intake) : Prop := sys.packets = [] ∧ ∀ i, (sys.workers i).lines = []

def run (parseFloat : Bytes → Option ℚ) (formatFloat : ℚ → Bytes) (sys : Intake)
    (steps : List IntakeStep) : Intake :=
  steps.foldl (next parseFloat formatFloat) sys

end Intake

/-- Whatever the schedule of the workers, the gauges end as the datagrams say one after the other.
-/
def GaugesOrdered (r : Receiver) : Prop :=
  ∀ (parseFloat : Bytes → Option ℚ) (formatFloat : ℚ → Bytes) (cfg : AggregationConfig)
    (a : Aggregator) (steps : List IntakeStep), newAggregator cfg = .ok a →
    OnWorkers r.cfg.parseWorkers steps →
    EveryStep (Intake.next parseFloat formatFloat) (Intake.Undisturbed parseFloat) (.start r a)
      steps →
    ((Intake.start r a).run parseFloat formatFloat steps).Drained →
    Shows ((Intake.start r a).run parseFloat formatFloat steps).flushing.agg
      (applyDatagrams parseFloat r.cfg (datagrams steps))

/-! ## One worker -/

section

variable {parseFloat : Bytes → Option ℚ} {formatFloat : ℚ → Bytes} {sys : Intake}
  {values : Gauges} {cfg : Config}

def Intake.ahead (sys : Intake) : List Bytes :=
  (sys.workers 0).lines ++ sys.packets.flatMap (·.splitOn 10)

/-- The aggregator shows the values that the lines so far lead to: with the lines ahead they are
`total`. -/
structure InOrder (parseFloat : Bytes → Option ℚ) (cfg : Config) (sys : Intake) (total : Gauges) :
    Prop where
  traceable : Traceable parseFloat (fun _ _ => True) sys
  config : sys.receiver.cfg = cfg
  shows : ∃ values, Shows sys.flushing.agg values ∧
    sys.ahead.foldl (applyLine parseFloat cfg) values = total

variable {total : Gauges}

theorem InOrder.receive (h : InOrder parseFloat cfg sys total) (payload : Bytes) :
    InOrder parseFloat cfg (sys.next parseFloat formatFloat (.receive payload))
      ((payload.splitOn 10).foldl (applyLine parseFloat cfg) total) := by
  obtain ⟨values, hshows, htotal⟩ := h.shows
  refine ⟨h.traceable.next_any _ _, h.config, values, hshows, ?_⟩
  have hahead : (sys.next parseFloat formatFloat (.receive payload)).ahead =
      sys.ahead ++ payload.splitOn 10 := by
    simp [Intake.ahead, Intake.next]
  rw [hahead, List.foldl_append, htotal]

theorem InOrder.dequeue (h : InOrder parseFloat cfg sys total) (now : Int) :
    InOrder parseFloat cfg (sys.next parseFloat formatFloat (.dequeue 0 now)) total := by
  obtain ⟨values, hshows, htotal⟩ := h.shows
  have htraceable := h.traceable.next_any formatFloat (.dequeue 0 now)
  revert htraceable
  simp only [Intake.next]
  split
  · rename_i payload packets hidle hpackets
    refine fun htraceable => ⟨htraceable, h.config, values, hshows, ?_⟩
    rw [← htotal]
    simp [Intake.ahead, Intake.setWorker, hidle, hpackets]
  · exact fun _ => h

theorem InOrder.line (h : InOrder parseFloat cfg sys total) {allowed : Bool}
    (hundisturbed : sys.Undisturbed parseFloat (.line 0 allowed)) :
    InOrder parseFloat cfg (sys.next parseFloat formatFloat (.line 0 allowed)) total := by
  obtain ⟨values, hshows, htotal⟩ := h.shows
  have htraceable := h.traceable.next_any formatFloat (.line 0 allowed)
  revert htraceable
  simp only [Intake.next]
  cases hlines : (sys.workers 0).lines with
  | nil => exact fun _ => h
  | cons line rest =>
    intro htraceable
    obtain ⟨hlimits, hfresh⟩ := hundisturbed line (by rw [hlines]; rfl)
    have hline := shows_processLine hshows h.traceable.series hfresh hlimits
    rw [h.config] at hline
    refine ⟨htraceable, ?_, _, hline, ?_⟩
    · exact (cfg_processLine _ _ _).trans h.config
    · rw [← htotal]
      simp [Intake.ahead, Intake.processLine, Intake.setWorker, hlines]

theorem InOrder.flush (h : InOrder parseFloat cfg sys total) {step : IntakeStep}
    (hworkers : (sys.next parseFloat formatFloat step).ahead = sys.ahead)
    (hreceiver : (sys.next parseFloat formatFloat step).receiver = sys.receiver)
    (hgauges : (sys.next parseFloat formatFloat step).flushing.agg.gauges =
      sys.flushing.agg.gauges)
    (hseries : (sys.next parseFloat formatFloat step).flushing.agg.series =
      sys.flushing.agg.series ∨
      (sys.next parseFloat formatFloat step).flushing.agg.series = ∅) :
    InOrder parseFloat cfg (sys.next parseFloat formatFloat step) total := by
  obtain ⟨values, hshows, htotal⟩ := h.shows
  refine ⟨h.traceable.next_any _ step, ?_, values, ⟨fun key => ?_, fun key state hkey => ?_⟩, ?_⟩
  · rw [hreceiver]
    exact h.config
  · rw [hgauges]
    exact hshows.baseline key
  · rcases hseries with hseries | hseries
    · rw [hseries] at hkey
      exact hshows.window key state hkey
    · rw [hseries] at hkey
      cases hkey
  · rw [hworkers]
    exact htotal

/-- **Each step of the one worker, and each flush, keeps the order.** -/
theorem InOrder.next (h : InOrder parseFloat cfg sys total) {step : IntakeStep}
    (hworker : ∀ i ∈ step.worker, i = 0) (hundisturbed : sys.Undisturbed parseFloat step) :
    InOrder parseFloat cfg (sys.next parseFloat formatFloat step)
      (((datagrams [step]).flatMap (·.splitOn 10)).foldl (applyLine parseFloat cfg) total) := by
  cases step with
  | receive payload =>
    have hreceive : InOrder parseFloat cfg (sys.next parseFloat formatFloat (.receive payload))
        ((payload.splitOn 10).foldl (applyLine parseFloat cfg) total) := h.receive payload
    simpa [datagrams] using hreceive
  | dequeue i now =>
    obtain rfl := hworker i rfl
    exact h.dequeue now
  | line i allowed =>
    obtain rfl := hworker i rfl
    exact h.line hundisturbed
  | rotate =>
    by_cases hwait : sys.flushing.agg.inflight = []
    · refine h.flush rfl rfl ?_ (.inr ?_)
      · simp only [Intake.next, Flushing.step, Aggregator.rotate_of_none hwait]
      · simp only [Intake.next, Flushing.step, Aggregator.rotate_of_none hwait]
    · refine h.flush rfl rfl ?_ (.inl ?_)
      · simp only [Intake.next, Flushing.step, Aggregator.rotate_of_waiting hwait]
      · simp only [Intake.next, Flushing.step, Aggregator.rotate_of_waiting hwait]
  | publish index atMillis =>
    cases hpending : sys.flushing.pending[index]? with
    | none =>
      refine h.flush rfl rfl ?_ (.inl ?_)
      · simp only [Intake.next, Flushing.step, hpending]
      · simp only [Intake.next, Flushing.step, hpending]
    | some rotated =>
      refine h.flush rfl rfl ?_ (.inl ?_)
      · simp only [Intake.next, Flushing.step, hpending, Aggregator.publish]
      · simp only [Intake.next, Flushing.step, hpending, Aggregator.publish]
  | commit => exact h.flush rfl rfl rfl (.inl rfl)

theorem InOrder.run : ∀ (steps : List IntakeStep) {sys : Intake} {total : Gauges},
    InOrder parseFloat cfg sys total → (∀ step ∈ steps, ∀ i ∈ step.worker, i = 0) →
    EveryStep (Intake.next parseFloat formatFloat) (Intake.Undisturbed parseFloat) sys steps →
    InOrder parseFloat cfg (sys.run parseFloat formatFloat steps)
      (((datagrams steps).flatMap (·.splitOn 10)).foldl (applyLine parseFloat cfg) total)
  | [], _, _, h, _, _ => h
  | step :: steps, sys, total, h, hworkers, hundisturbed => by
    have hrest := InOrder.run steps (h.next (hworkers step List.mem_cons_self) hundisturbed.1)
      (fun step hstep => hworkers step (List.mem_cons_of_mem _ hstep)) hundisturbed.2
    have hsplit : datagrams (step :: steps) = datagrams [step] ++ datagrams steps := by
      rw [datagrams, datagrams, datagrams, ← List.filterMap_append, List.singleton_append]
    rw [hsplit, List.flatMap_append, List.foldl_append]
    exact hrest

theorem inOrder_start {r : Receiver} {acfg : AggregationConfig} {a : Aggregator}
    (hnew : newAggregator acfg = .ok a) :
    InOrder parseFloat r.cfg (.start r a) (fun _ => none) := by
  refine ⟨traceable_start r hnew, rfl, fun _ => none, ?_, rfl⟩
  obtain ⟨hvalid, rfl⟩ := newAggregator_ok hnew
  exact ⟨fun _ => rfl, fun _ _ h => by cases h⟩

theorem gaugesOrdered_of_one {r : Receiver} (h : r.cfg.parseWorkers = 1) : GaugesOrdered r := by
  intro parseFloat formatFloat acfg a steps hnew hworkers hundisturbed hdrained
  have hzero : ∀ step ∈ steps, ∀ i ∈ step.worker, i = 0 := by
    intro step hstep i hi
    have hlt := hworkers step hstep i hi
    omega
  have horder := InOrder.run steps (inOrder_start hnew) hzero hundisturbed
  obtain ⟨values, hshows, htotal⟩ := horder.shows
  have hahead : ((Intake.start r a).run parseFloat formatFloat steps).ahead = [] := by
    rw [Intake.ahead, hdrained.1, hdrained.2 0]
    rfl
  rw [hahead] at htotal
  rwa [← show values = applyDatagrams parseFloat r.cfg (datagrams steps) from htotal]

end

/-! ## Two workers -/

/-- A sample of the gauge `t`. -/
def gaugeSample (relative : Bool) (value : ℚ) : Metric :=
  ⟨ascii "t", .gauge, value, [], relative, 1, ∅, some 5⟩

def gaugeKey : Bytes :=
  aggregationKey (ascii "t") .gauge (AList.singleton (ascii "is_custom") (ascii "true"))

def gaugeLabels : List (Bytes × Bytes) :=
  [(ascii "__name__", ascii "t_gauge"), (ascii "is_custom", ascii "true")]

/-- The idiom for an absolute negative value, and then an absolute value. -/
def setToMinusFive : Bytes := ascii "t:0|g" ++ [10] ++ ascii "t:-5|g"

def setToSeven : Bytes := ascii "t:7|g"

/-- The second worker comes between the two lines of the first. -/
def splitSteps : List IntakeStep :=
  [.receive setToMinusFive, .receive setToSeven, .dequeue 0 5, .line 0 true, .dequeue 1 5,
    .line 1 true, .line 0 true]

/-- The receiver takes names of one byte, and its limiter admits the gauge. -/
structure Willing (r : Receiver) : Prop where
  name : 1 ≤ r.cfg.maxMetricNameLength
  admits : ∀ series : TimeSeries, series.labels = gaugeLabels → ∀ now,
    (r.limiter.allow series now).1.refused = none

theorem willing_new {cfg : Config} {r : Receiver} (h : newReceiver cfg = .ok r) : Willing r := by
  unfold newReceiver at h
  split at h
  · cases h
  · rename_i hvalid
    cases h
    have hpos := (Config.positive_of_valid hvalid).2
    refine ⟨?_, fun series _ now => SeriesLimiter.allow_new ?_ ?_ _ series now⟩
    · exact hpos ("max-metric-name-length", cfg.maxMetricNameLength) (by simp [Config.checks])
    · exact hpos ("active-series-per-metric-cap", cfg.activeSeriesPerMetricCap)
        (by simp [Config.checks])
    · exact hpos ("active-series-global-cap", cfg.activeSeriesGlobalCap) (by simp [Config.checks])

theorem buildRawSeries_gaugeSample (relative : Bool) (value : ℚ) :
    ∃ series, buildRawSeries (gaugeSample relative value) ∅ 5 = .ok series ∧
      series.labels = gaugeLabels := by
  refine ⟨_, rfl, ?_⟩
  show labelsMapToSortedPromLabels (normalizeMetricName (ascii "t") ++ ascii "_gauge")
    (AList.singleton (ascii "is_custom") (ascii "true")) = gaugeLabels
  decide +kernel

theorem Willing.processLine {r : Receiver} (h : Willing r) (line : Bytes) (relative : Bool)
    (value : ℚ) (a : Aggregator) (htrim : trimSpaceBytes line = line) (hne : line ≠ [])
    (hparse : parseLine readInteger line 5 1 = .ok (gaugeSample relative value))
    (hadd : (a.add (gaugeSample relative value) ∅ 5).2 = none) :
    ∃ r', Willing r' ∧ r.processLine readInteger a 5 true line =
      (.added, r', (a.add (gaugeSample relative value) ∅ 5).1) := by
  obtain ⟨series, hseries, hlabels⟩ := buildRawSeries_gaugeSample relative value
  have hadmits := h.admits series hlabels 5
  have htags : r.cfg.tagPolicy.apply (gaugeSample relative value).tags = (∅, ⟨0, 0, 0, 0⟩) := rfl
  refine ⟨{ r with limiter := (r.limiter.allow series 5).2 },
    ⟨h.name, fun series' hlabels' now => ?_⟩, ?_⟩
  · have hseen := (SeriesLimiter.seen_allow hadmits).congr (hlabels'.trans hlabels.symm)
    exact SeriesLimiter.allow_of_seen hseen now
  · unfold Receiver.processLine
    simp only [htrim, if_neg hne, parseLine_limit hparse h.name, Bool.true_eq_false, if_false]
    unfold Receiver.processMetric
    simp only [htags, hseries]
    cases hallow : r.limiter.allow series 5 with
    | mk reply limiter =>
      obtain ⟨refused, active⟩ := reply
      rw [hallow] at hadmits
      obtain rfl : refused = none := hadmits
      cases hresult : a.add (gaugeSample relative value) ∅ 5 with
      | mk a' dropped =>
        rw [hresult] at hadd
        cases hadd
        rfl

theorem fresh_of_entries {a : Aggregator} {now : Int}
    (h : ∀ e ∈ a.gauges.entries, now - a.cfg.gaugeTTL ≤ e.2.lastSeen) : a.Fresh now :=
  fun key b hkey => h ⟨key, b⟩ (AList.mem_lookup_iff.mp hkey)

/-! The aggregator as the three lines change it. -/

def afterZero : Aggregator := (Flushing.smallAggregator.add (gaugeSample false 0) ∅ 5).1

def afterSeven : Aggregator := (afterZero.add (gaugeSample false 7) ∅ 5).1

def afterFive : Aggregator := (afterSeven.add (gaugeSample true (-5)) ∅ 5).1

theorem run_splitSteps {r : Receiver} (h : Willing r) :
    EveryStep (Intake.next readInteger fun _ => []) (Intake.Undisturbed readInteger)
        (.start r Flushing.smallAggregator) splitSteps ∧
      ((Intake.start r Flushing.smallAggregator).run readInteger (fun _ => []) splitSteps).Drained ∧
      ((Intake.start r Flushing.smallAggregator).run readInteger (fun _ => [])
        splitSteps).flushing.agg = afterFive := by
  obtain ⟨r₁, h₁, hzero⟩ := h.processLine (ascii "t:0|g") false 0 Flushing.smallAggregator
    (by decide +kernel) (by decide) rfl (by decide +kernel)
  obtain ⟨r₂, h₂, hseven⟩ := h₁.processLine (ascii "t:7|g") false 7 afterZero
    (by decide +kernel) (by decide) rfl (by decide +kernel)
  obtain ⟨r₃, -, hfive⟩ := h₂.processLine (ascii "t:-5|g") true (-5) afterSeven
    (by decide +kernel) (by decide) rfl (by decide +kernel)
  rw [← afterZero] at hzero
  rw [← afterSeven] at hseven
  rw [← afterFive] at hfive
  have hlines : setToMinusFive.splitOn 10 = [ascii "t:0|g", ascii "t:-5|g"] := by decide +kernel
  have hlines' : setToSeven.splitOn 10 = [ascii "t:7|g"] := by decide +kernel
  have hfresh₀ : Flushing.smallAggregator.Fresh 5 := fresh_of_entries (by decide +kernel)
  have hfresh₁ : afterZero.Fresh 5 := fresh_of_entries (by decide +kernel)
  have hfresh₂ : afterSeven.Fresh 5 := fresh_of_entries (by decide +kernel)
  refine ⟨?_, ⟨?_, fun i => ?_⟩, ?_⟩
  · simp [splitSteps, EveryStep, Intake.Undisturbed, Intake.next, Intake.start, Intake.setWorker,
      Intake.processLine, hlines, hlines', hzero, hseven, hfive, LineOutcome.Limited, hfresh₀,
      hfresh₁, hfresh₂]
  · simp [splitSteps, Intake.run, Intake.next, Intake.start, Intake.setWorker,
      Intake.processLine, hlines, hlines', hzero, hseven, hfive]
  · simp [splitSteps, Intake.run, Intake.next, Intake.start, Intake.setWorker,
      Intake.processLine, hlines, hlines', hzero, hseven, hfive]
    by_cases hi : i = 0
    · simp [hi]
    · by_cases hi' : i = 1
      · simp [hi']
      · simp [hi, hi']
  · simp [splitSteps, Intake.run, Intake.next, Intake.start, Intake.setWorker,
      Intake.processLine, hlines, hlines', hzero, hseven, hfive]

theorem applyDatagrams_splitSteps {r : Receiver} (h : Willing r) :
    applyDatagrams readInteger r.cfg (datagrams splitSteps) gaugeKey = some 7 := by
  have hline : ∀ values : Gauges, applyLine readInteger r.cfg values (ascii "t:7|g") =
      GaugeUpdate.apply ⟨gaugeKey, false, 7⟩ values := by
    intro values
    have hparse : parseLine readInteger (trimSpaceBytes (ascii "t:7|g")) 5 1 =
        .ok (gaugeSample false 7) := rfl
    rw [applyLine_of_ok (parseLine_limit hparse h.name)]
    rfl
  have hlines : (datagrams splitSteps).flatMap (·.splitOn 10) =
      [ascii "t:0|g", ascii "t:-5|g", ascii "t:7|g"] := by decide +kernel
  rw [applyDatagrams, hlines, List.foldl_cons, List.foldl_cons, List.foldl_cons, List.foldl_nil,
    hline]
  exact Function.update_self _ _ _

theorem onWorkers_splitSteps {workers : Int} (h : 2 ≤ workers) : OnWorkers workers splitSteps := by
  have htwo : ∀ step ∈ splitSteps, ∀ i ∈ step.worker, i < 2 := by decide
  intro step hstep i hi
  have := htwo step hstep i hi
  omega

theorem not_gaugesOrdered {r : Receiver} (h : Willing r) (hworkers : 2 ≤ r.cfg.parseWorkers) :
    ¬ GaugesOrdered r := by
  intro hordered
  obtain ⟨hundisturbed, hdrained, hagg⟩ := run_splitSteps h
  have hshows := hordered readInteger (fun _ => []) Flushing.smallConfig Flushing.smallAggregator
    splitSteps Flushing.newAggregator_small (onWorkers_splitSteps hworkers) hundisturbed hdrained
  have hvalue := hshows.baseline gaugeKey
  rw [hagg, applyDatagrams_splitSteps h] at hvalue
  have htwo : (afterFive.gauges.lookup gaugeKey).map GaugeBaseline.value = some 2 := by
    decide +kernel
  rw [htwo] at hvalue
  exact absurd hvalue (by decide)

theorem cfg_newReceiver {cfg : Config} {r : Receiver} (h : newReceiver cfg = .ok r) :
    r.cfg = cfg := by
  unfold newReceiver at h
  split at h
  · cases h
  · cases h
    rfl

/-- **The gauges of a receiver are in the order of the datagrams if and only if it has one parse
worker.** -/
theorem gaugesOrdered_iff {cfg : Config} {r : Receiver} (hnew : newReceiver cfg = .ok r) :
    GaugesOrdered r ↔ cfg.parseWorkers = 1 := by
  have hcfg := cfg_newReceiver hnew
  have hpos : 0 < cfg.parseWorkers := by
    rw [← hcfg]
    exact (Config.positive_of_valid r.valid).2 ("parse-workers", r.cfg.parseWorkers)
      (by simp [Config.checks])
  constructor
  · intro hordered
    by_contra hne
    exact not_gaugesOrdered (willing_new hnew) (by rw [hcfg]; omega) hordered
  · intro hone
    exact gaugesOrdered_of_one (by rw [hcfg]; exact hone)

def oneWorkerConfig : Config := { smallReceiverConfig with parseWorkers := 1 }

def oneWorkerReceiver : Receiver :=
  ⟨oneWorkerConfig, by decide +kernel, newSeriesLimiter 10 10 100⟩

theorem gaugesOrdered_oneWorker :
    newReceiver oneWorkerConfig = .ok oneWorkerReceiver ∧ GaugesOrdered oneWorkerReceiver := by
  have hnew : newReceiver oneWorkerConfig = .ok oneWorkerReceiver := rfl
  exact ⟨hnew, (gaugesOrdered_iff hnew).mpr rfl⟩

/-- **Two workers turn `0`, `-5` in one datagram and `7` in the next into `2`.** -/
theorem split_datagram_reorders :
    newReceiver smallReceiverConfig = .ok smallReceiver ∧
    OnWorkers smallReceiverConfig.parseWorkers splitSteps ∧
    EveryStep (Intake.next readInteger fun _ => []) (Intake.Undisturbed readInteger)
      (.start smallReceiver Flushing.smallAggregator) splitSteps ∧
    ((Intake.start smallReceiver Flushing.smallAggregator).run readInteger (fun _ => [])
      splitSteps).Drained ∧
    (((Intake.start smallReceiver Flushing.smallAggregator).run readInteger (fun _ => [])
      splitSteps).flushing.agg.gauges.lookup gaugeKey).map GaugeBaseline.value = some 2 ∧
    applyDatagrams readInteger smallReceiverConfig (datagrams splitSteps) gaugeKey = some 7 := by
  have hnew : newReceiver smallReceiverConfig = .ok smallReceiver := rfl
  have hwilling := willing_new hnew
  obtain ⟨hundisturbed, hdrained, hagg⟩ := run_splitSteps hwilling
  have hseven := applyDatagrams_splitSteps hwilling
  rw [cfg_newReceiver hnew] at hseven
  refine ⟨hnew, onWorkers_splitSteps le_rfl, hundisturbed, hdrained, ?_, hseven⟩
  rw [hagg]
  decide +kernel

end Dogstatsd
