import NodeAgent.Dogstatsd.Aggregator.Recording

/-!
# States enter a window and stay in it

What `Add` does to the states of the active window, for the metric types that the parser yields.

* `add_keeps` — a state that is in the window stays in it, and the waiting window is left alone
* `windowSeries_eq_nil` — a window with a state in it is not rendered as nothing
-/

namespace Dogstatsd

open Infra

/-- Every state of the window is of a supported type. -/
def Window.Known (w : Window) : Prop :=
  ∀ k state, w.lookup k = some state → state.metricType.Supported

theorem Window.known_empty : Window.Known ∅ := by
  intro k state h
  cases h

theorem Window.Known.insert {w : Window} {key : Bytes} {state : AggregateState} (h : w.Known)
    (hs : state.metricType.Supported) : Window.Known (w.insert key state) := by
  intro k st hk
  rcases Dict.of_lookup_insert hk with ⟨-, rfl⟩ | ⟨-, hk⟩
  · exact hs
  · exact h k st hk

namespace Aggregator

variable {a a' : Aggregator} {key : Bytes} {state : AggregateState} {created : Option Int}
  {metric : Metric} {now : Int}

/-! ## Adding -/

/-- The configuration and the waiting window are the same, and the states of the active window
stay in it. -/
structure Keeps (a a' : Aggregator) : Prop where
  cfg : a'.cfg = a.cfg
  inflight : a'.inflight = a.inflight
  states : ∀ k ∈ a.series, k ∈ a'.series
  known : a.series.Known → a'.series.Known

theorem Keeps.refl : Keeps a a := ⟨rfl, rfl, fun _ h => h, fun h => h⟩

theorem Keeps.trans {a'' : Aggregator} (h : Keeps a a') (h' : Keeps a' a'') : Keeps a a'' :=
  ⟨h'.cfg.trans h.cfg, h'.inflight.trans h.inflight, fun k hk => h'.states k (h.states k hk),
    fun hk => h'.known (h.known hk)⟩

theorem keeps_of_insert (hcfg : a'.cfg = a.cfg) (hin : a'.inflight = a.inflight)
    (hseries : a'.series = a.series.insert key state)
    (hs : a.series.Known → state.metricType.Supported) : Keeps a a' := by
  refine ⟨hcfg, hin, fun k hk => ?_, fun h => ?_⟩
  · rw [hseries]
    exact (AList.mem_insert _).mpr (Or.inr hk)
  · rw [hseries]
    exact h.insert (hs h)

theorem Recording.keeps {out : Aggregator × Option DropReason}
    (h : Recording a key state created metric now out) (hm : metric.type.Supported)
    (hs : a.series.Known → state.metricType.Supported) :
    Keeps a out.1 ∨ ∃ bytes, created = some bytes ∧
      out.1 = { a with series := a.series.erase key, activeBytes := a.activeBytes - bytes } := by
  cases h with
  | refused _ _ | known _ _ => exact .inl .refl
  | unmade bytes _ hcreated => exact .inr ⟨bytes, hcreated, rfl⟩
  | unsupported htype _ => exact absurd hm htype
  | absorbed _ _ _ =>
    refine .inl (keeps_of_insert rfl rfl rfl fun hk => ?_)
    rw [(state.absorb_series _ _ _).2.1]
    exact hs hk
  | shown _ _ => exact .inl (keeps_of_insert rfl rfl rfl hs)

theorem pruneGauges_keeps (a : Aggregator) (now : Int) : Keeps a (a.pruneGauges now) := by
  have hpruned := pruned_pruneGauges a now
  refine ⟨hpruned.cfg, hpruned.inflight, fun k hk => ?_, fun h => ?_⟩
  · rw [hpruned.series]
    exact hk
  · rw [hpruned.series]
    exact h

theorem Adding.keeps {tags : Labels} {out : Aggregator × Option DropReason}
    (h : Adding a metric tags now out) (hm : metric.type.Supported) : Keeps a out.1 := by
  cases h with
  | full _ _ => exact .refl
  | found hstate hrec =>
    rcases hrec.keeps hm fun hk => hk _ _ hstate with h | ⟨_, hcreated, _⟩
    · exact h
    · cases hcreated
  | made hnew _ hrec =>
    have hmade : Keeps a (a.withState metric tags) := by
      refine keeps_of_insert rfl rfl rfl fun _ => ?_
      exact hm
    rcases hrec.keeps hm fun _ => hm with h | ⟨_, hcreated, h⟩
    · exact hmade.trans h
    · cases hcreated
      rw [h, unmake_withState hnew]
      exact .refl

/-- **A state that is in the active window stays in it when a sample is added**, and the waiting
window is left alone. -/
theorem add_keeps (hm : metric.type.Supported) (tags : Labels) (clock : Int) :
    Keeps a (a.add metric tags clock).1 :=
  (pruneGauges_keeps a _).trans ((add_spec a metric tags clock).keeps hm)

end Aggregator

/-! ## Rendering -/

variable (formatFloat : ℚ → Bytes) (cfg : AggregationConfig) (atMillis : Int)

theorem stateSeries_ne_nil {state : AggregateState} (h : state.metricType.Supported) :
    stateSeries formatFloat cfg atMillis state ≠ [] := by
  unfold stateSeries
  split
  all_goals first
    | exact List.cons_ne_nil _ _
    | exact List.append_ne_nil_of_right_ne_nil _ (List.cons_ne_nil _ _)
    | skip
  next htype =>
  rw [htype] at h
  exact h.elim

theorem windowSeries_eq_nil {w : Window} (h : w.Known) :
    windowSeries formatFloat cfg atMillis w = [] ↔ w.entries = [] := by
  rw [windowSeries, List.flatMap_eq_nil_iff]
  constructor
  · intro hall
    rw [← List.length_eq_zero_iff, ← Dict.length_sortedEntries, List.length_eq_zero_iff,
      List.eq_nil_iff_forall_not_mem]
    rintro ⟨k, state⟩ hmem
    exact stateSeries_ne_nil _ _ _ (h k state (Dict.mem_sortedEntries.mp hmem)) (hall _ hmem)
  · rintro hnil ⟨k, state⟩ hmem
    have := List.length_pos_of_mem hmem
    rw [Dict.length_sortedEntries, hnil] at this
    exact absurd this (by decide)

end Dogstatsd
