import NodeAgent.Dogstatsd.Safeguards
import NodeAgent.Infra.Sequences

/-!
# The limit on active series

The limiter stores when each series was last seen, in a table for each metric. A series that is not
stored meets the caps, after a pruning if one is due.

* `limiter_exact` — over every sequence of calls, the count is exact and the caps are respected
* `expired_never_block_iff` — when the series that a refusal counts were all seen within the TTL
-/

namespace Dogstatsd

open Infra

namespace SeriesLimiter

variable {l : SeriesLimiter} {series : TimeSeries} {now cutoff : Int} {m : Bytes}

/-! ## What `Allow` returns -/

theorem table_of_lookup {table : Dict Bytes Int} (h : l.byMetric.lookup m = some table) :
    l.table m = table := by
  rw [SeriesLimiter.table, h, Option.getD_some]

theorem full_of_refused_metric (h : (l.allow series now).1.refused = some .seriesCapMetric) :
    ¬ l.Seen series ∧ (l.settled now).perMetricCap ≤
      ((l.settled now).table (metricNameOf series)).entries.length := by
  rcases allow_cases l series now with ⟨-, heq⟩ | ⟨hseen, ⟨hfull, heq⟩ | ⟨-, heq⟩ | ⟨-, -, heq⟩⟩ <;>
    rw [heq] at h
  · cases h
  · exact ⟨hseen, hfull⟩
  · cases h
  · cases h

theorem full_of_refused_global (h : (l.allow series now).1.refused = some .seriesCapGlobal) :
    (l.settled now).globalCap ≤ (l.settled now).total := by
  rcases allow_cases l series now with ⟨-, heq⟩ | ⟨-, ⟨-, heq⟩ | ⟨hfull, heq⟩ | ⟨-, -, heq⟩⟩ <;>
    rw [heq] at h
  · cases h
  · cases h
  · exact hfull
  · cases h

/-! ## What a pruning leaves -/

def kept (cutoff : Int) (table : Dict Bytes Int) : Dict Bytes Int :=
  table.filter (fun _ lastSeen => decide (¬ lastSeen < cutoff))

def fresh (cutoff : Int) (table : Dict Bytes Int) : Nat :=
  table.entries.countP (fun e => decide (¬ e.2 < cutoff))

theorem length_kept (cutoff : Int) (table : Dict Bytes Int) :
    (kept cutoff table).entries.length = fresh cutoff table := by
  rw [kept, fresh, (Dict.perm_filter _ _).length_eq, List.countP_eq_length_filter]

theorem fresh_le (cutoff : Int) (table : Dict Bytes Int) :
    fresh cutoff table ≤ table.entries.length := List.countP_le_length

theorem fresh_kept (cutoff : Int) (table : Dict Bytes Int) :
    fresh cutoff (kept cutoff table) = (kept cutoff table).entries.length := by
  rw [fresh, kept, (Dict.perm_filter _ _).countP_eq, (Dict.perm_filter _ _).length_eq,
    List.countP_eq_length]
  exact fun e he => (List.mem_filter.mp he).2

/-- A table is deleted when nothing is left of it. -/
def pruned (cutoff : Int) (table : Dict Bytes Int) : Option (Dict Bytes Int) :=
  if (kept cutoff table).entries = [] then none else some (kept cutoff table)

theorem lookup_pruneMetric (cutoff : Int) (l : SeriesLimiter) (e : Σ _ : Bytes, Dict Bytes Int)
    (m : Bytes) : (pruneMetric cutoff l e).byMetric.lookup m =
      if m = e.1 then pruned cutoff e.2 else l.byMetric.lookup m := by
  show (if (kept cutoff e.2).entries = [] then l.byMetric.erase e.1
    else l.byMetric.insert e.1 (kept cutoff e.2)).lookup m = _
  unfold pruned
  split
  · split
    · next hm => rw [hm, AList.lookup_erase]
    · next hm => exact AList.lookup_erase_ne hm
  · rw [Dict.lookup_insert_eq]

theorem lookup_foldl_pruneMetric (cutoff : Int) :
    ∀ (entries : List (Σ _ : Bytes, Dict Bytes Int)) (l : SeriesLimiter), entries.NodupKeys →
      (∀ e ∈ entries, l.byMetric.lookup e.1 = some e.2) →
      (entries.foldl (pruneMetric cutoff) l).byMetric.lookup m =
        if m ∈ entries.keys then (l.byMetric.lookup m).bind (pruned cutoff)
        else l.byMetric.lookup m
  | [], l, _, _ => by simp
  | e :: entries, l, hnodup, hfound => by
    obtain ⟨hkey, hnodup⟩ := List.nodupKeys_cons.mp hnodup
    -- the entries that follow have other keys
    have hrest : ∀ e' ∈ entries, (pruneMetric cutoff l e).byMetric.lookup e'.1 = some e'.2 := by
      intro e' he'
      have hne : e'.1 ≠ e.1 := fun heq => hkey (heq ▸ List.mem_keys_of_mem he')
      rw [lookup_pruneMetric, if_neg hne, hfound e' (List.mem_cons_of_mem _ he')]
    rw [List.foldl_cons, lookup_foldl_pruneMetric cutoff entries _ hnodup hrest,
      lookup_pruneMetric, List.keys_cons]
    by_cases hm : m = e.1
    · subst hm
      rw [if_neg hkey, if_pos rfl, if_pos List.mem_cons_self, hfound e List.mem_cons_self]
      rfl
    · simp only [List.mem_cons, hm, false_or, if_false]

/-- **The tables after a pruning.** -/
theorem lookup_pruneExpired (l : SeriesLimiter) (now : Int) (m : Bytes) :
    (l.pruneExpired now).byMetric.lookup m =
      (l.byMetric.lookup m).bind (pruned (now - l.ttl)) := by
  refine (lookup_foldl_pruneMetric (now - l.ttl) l.byMetric.entries l l.byMetric.nodupKeys
    fun e he => Dict.lookup_of_mem he).trans ?_
  split
  · rfl
  · next hm =>
    have hnone : l.byMetric.lookup m = none := AList.lookup_eq_none.mpr hm
    rw [hnone]
    rfl

theorem pruneExpired_keeps {P : SeriesLimiter → Prop}
    (hstep : ∀ s e, s.byMetric.lookup e.1 = some e.2 → P s →
      P (pruneMetric (now - l.ttl) s e))
    (hlast : ∀ s, P s → P { s with lastPrune := some now }) (hl : P l) :
    P (l.pruneExpired now) := by
  have hchain := Dict.foldl_chain
    (T := fun s s' => ∃ e, s.byMetric.lookup e.1 = some e.2 ∧ s' = pruneMetric (now - l.ttl) s e)
    (P := fun s e => s.byMetric.lookup e.1 = some e.2) (f := pruneMetric (now - l.ttl))
    (fun s e he => .single ⟨e, he, rfl⟩)
    (fun s e e' _ he' hne => by rw [lookup_pruneMetric, if_neg hne, he'])
    l.byMetric.entries l l.byMetric.nodupKeys fun e he => Dict.lookup_of_mem he
  refine hlast _ (hchain.rec (motive := fun s _ => P s) hl ?_)
  rintro s _ - ⟨e, he, rfl⟩ hs
  exact hstep s e he hs

theorem caps_pruneExpired (l : SeriesLimiter) (now : Int) :
    (l.pruneExpired now).perMetricCap = l.perMetricCap ∧
      (l.pruneExpired now).globalCap = l.globalCap ∧ (l.pruneExpired now).ttl = l.ttl :=
  pruneExpired_keeps (P := fun s => s.perMetricCap = l.perMetricCap ∧
    s.globalCap = l.globalCap ∧ s.ttl = l.ttl) (fun _ _ _ h => h) (fun _ h => h) ⟨rfl, rfl, rfl⟩

theorem sumOf_pruneMetric {f : Dict Bytes Int → Nat} {e : Σ _ : Bytes, Dict Bytes Int}
    (h : l.byMetric.lookup e.1 = some e.2)
    (hempty : (kept cutoff e.2).entries = [] → f (kept cutoff e.2) = 0) :
    Dict.sumOf f (pruneMetric cutoff l e).byMetric + f e.2 =
      Dict.sumOf f l.byMetric + f (kept cutoff e.2) := by
  show Dict.sumOf f (if (kept cutoff e.2).entries = [] then l.byMetric.erase e.1
    else l.byMetric.insert e.1 (kept cutoff e.2)) + _ = _
  split
  · next hnil => rw [Dict.sumOf_erase h, hempty hnil, Nat.add_zero]
  · exact Dict.sumOf_replace h _

/-! ## The count -/

def stored (l : SeriesLimiter) : Nat := Dict.sumOf (fun table => table.entries.length) l.byMetric

def timeOf (l : SeriesLimiter) (metricName fingerprint : Bytes) : Option Int :=
  (l.table metricName).lookup fingerprint

/-- The limiter counts the series that are stored, and no table is empty or above its cap. -/
structure Counted (l : SeriesLimiter) : Prop where
  total : l.total = l.stored
  tables : ∀ m table, l.byMetric.lookup m = some table →
    table.entries ≠ [] ∧ (table.entries.length : Int) ≤ l.perMetricCap

/-- The count is exact, and both caps are respected. -/
structure Exact (l : SeriesLimiter) : Prop extends Counted l where
  global : l.total ≤ l.globalCap

theorem Counted.pruneExpired (h : l.Counted) (now : Int) : (l.pruneExpired now).Counted where
  total := by
    refine pruneExpired_keeps (P := fun s => s.total = s.stored) ?_ (fun _ hs => hs) h.total
    intro s e he hs
    have hsum := sumOf_pruneMetric (f := fun table : Dict Bytes Int => table.entries.length) he
      (fun hnil : (kept (now - l.ttl) e.2).entries = [] => by rw [hnil, List.length_nil])
    have htotal : (pruneMetric (now - l.ttl) s e).total =
        s.total - (e.2.entries.length - (kept (now - l.ttl) e.2).entries.length) := rfl
    rw [htotal, hs, stored, stored]
    omega
  tables m table hm := by
    rw [lookup_pruneExpired] at hm
    obtain ⟨before, hbefore, hpruned⟩ := Option.bind_eq_some_iff.mp hm
    rw [pruned] at hpruned
    split at hpruned
    · cases hpruned
    · next hne =>
      cases hpruned
      have hle := fresh_le (now - l.ttl) before
      have hcap := (h.tables m before hbefore).2
      rw [(caps_pruneExpired l now).1]
      rw [← length_kept] at hle
      exact ⟨hne, by omega⟩

theorem total_pruneExpired_le (l : SeriesLimiter) (now : Int) :
    (l.pruneExpired now).total ≤ l.total := by
  refine pruneExpired_keeps (P := fun s => s.total ≤ l.total) ?_ (fun _ hs => hs) le_rfl
  intro s e _ hs
  have hle := fresh_le (now - l.ttl) e.2
  rw [← length_kept] at hle
  show s.total - (e.2.entries.length - (kept (now - l.ttl) e.2).entries.length) ≤ l.total
  omega

theorem caps_settled (l : SeriesLimiter) (now : Int) :
    (l.settled now).perMetricCap = l.perMetricCap ∧ (l.settled now).globalCap = l.globalCap ∧
      (l.settled now).ttl = l.ttl := by
  unfold settled
  split
  · exact caps_pruneExpired l now
  · exact ⟨rfl, rfl, rfl⟩

theorem Counted.settled (h : l.Counted) (now : Int) : (l.settled now).Counted := by
  unfold SeriesLimiter.settled
  split
  · exact h.pruneExpired now
  · exact h

theorem Exact.settled (h : l.Exact) (now : Int) : (l.settled now).Exact := by
  refine ⟨h.toCounted.settled now, ?_⟩
  have hglobal := h.global
  have hle := total_pruneExpired_le l now
  rw [(caps_settled l now).2.1]
  unfold SeriesLimiter.settled
  split
  · omega
  · exact hglobal

theorem stored_noted (l : SeriesLimiter) (metricName fingerprint : Bytes) (now : Int) :
    (l.noted metricName fingerprint now).stored + (l.table metricName).entries.length =
      l.stored + ((l.table metricName).insert fingerprint now).entries.length := by
  unfold stored noted
  cases h : l.byMetric.lookup metricName with
  | some table => rw [table_of_lookup h]; exact Dict.sumOf_replace h _
  | none =>
    have hempty : (l.table metricName).entries.length = 0 := by
      rw [SeriesLimiter.table, h]
      rfl
    rw [hempty, Nat.add_zero]
    exact Dict.sumOf_new h _

theorem Counted.noted (h : l.Counted) {metricName fingerprint : Bytes} {now more : Int}
    (hmore : ((l.table metricName).insert fingerprint now).entries.length =
      (l.table metricName).entries.length + more)
    (hcap : (l.table metricName).entries.length + more ≤ l.perMetricCap) :
    ({ l.noted metricName fingerprint now with total := l.total + more } : SeriesLimiter).Counted
      where
  total := by
    have hstored := stored_noted l metricName fingerprint now
    have := h.total
    show l.total + more = (l.noted metricName fingerprint now).stored
    omega
  tables m table hm := by
    rcases Dict.of_lookup_insert hm with ⟨-, rfl⟩ | ⟨-, hm⟩
    · refine ⟨fun hnil => ?_, hmore ▸ hcap⟩
      rw [AList.entries_insert] at hnil
      cases hnil
    · exact h.tables m table hm

theorem timeOf_settled {metricName fingerprint : Bytes} {time : Int}
    (h : (l.settled now).timeOf metricName fingerprint = some time) :
    l.timeOf metricName fingerprint = some time := by
  revert h
  unfold settled
  split
  · unfold timeOf table
    rw [lookup_pruneExpired]
    cases l.byMetric.lookup metricName with
    | none => exact id
    | some before =>
      rw [Option.bind_some, pruned]
      split
      · exact fun h => by cases h
      · rw [Option.getD_some, Option.getD_some, kept, Dict.lookup_filter,
          Option.filter_eq_some_iff]
        exact And.left
  · exact id

theorem length_table_le (h : l.Counted) (m : Bytes) (hm : (l.table m).entries ≠ []) :
    ((l.table m).entries.length : Int) ≤ l.perMetricCap := by
  cases htable : l.byMetric.lookup m with
  | none =>
    rw [table, htable] at hm
    exact absurd rfl hm
  | some stored =>
    rw [table_of_lookup htable]
    exact (h.tables m stored htable).2

theorem Counted.allow (h : l.Counted) (series : TimeSeries) (now : Int) :
    (l.allow series now).2.Counted := by
  have hsettled := h.settled now
  rcases allow_cases l series now with ⟨hseen, heq⟩ | ⟨hseen, ⟨-, heq⟩ | ⟨-, heq⟩ |
    ⟨hmetric, -, heq⟩⟩ <;> rw [heq]
  · -- a stored series keeps its place
    have hcap := length_table_le h (metricNameOf series) fun hnil =>
      List.ne_nil_of_mem (AList.mem_keys.mp hseen) (by rw [AList.keys, hnil]; rfl)
    have hlength :=
      Dict.length_insert (l.table (metricNameOf series)) (seriesFingerprint series) now
    rw [if_pos (show seriesFingerprint series ∈ _ from hseen)] at hlength
    have hnoted : ({ l.noted (metricNameOf series) (seriesFingerprint series) now with
        total := l.total + 0 } : SeriesLimiter).Counted := h.noted (by omega) (by omega)
    rwa [Int.add_zero] at hnoted
  · exact hsettled
  · exact hsettled
  · -- a new one makes its table longer by one
    have hnew : seriesFingerprint series ∉ (l.settled now).table (metricNameOf series) := by
      intro hmem
      obtain ⟨time, htime⟩ := Option.isSome_iff_exists.mp (AList.lookup_isSome.mpr hmem)
      have hbefore : l.timeOf (metricNameOf series) (seriesFingerprint series) = some time :=
        timeOf_settled htime
      exact hseen (AList.lookup_isSome.mp (Option.isSome_of_eq_some hbefore))
    have hlength := Dict.length_insert ((l.settled now).table (metricNameOf series))
      (seriesFingerprint series) now
    rw [if_neg hnew] at hlength
    exact hsettled.noted (by omega) (by omega)

/-- **Every call keeps the count exact.** -/
theorem Exact.allow (h : l.Exact) (series : TimeSeries) (now : Int) :
    (l.allow series now).2.Exact := by
  refine ⟨h.toCounted.allow series now, ?_⟩
  have hsettled := (h.settled now).global
  rcases allow_cases l series now with ⟨-, heq⟩ | ⟨-, ⟨-, heq⟩ | ⟨-, heq⟩ | ⟨-, hroom, heq⟩⟩ <;>
    rw [heq]
  · exact h.global
  · exact hsettled
  · exact hsettled
  · show (l.settled now).total + 1 ≤ (l.settled now).globalCap
    omega

/-! ## Every sequence of calls -/

def next (l : SeriesLimiter) (call : TimeSeries × Int) : SeriesLimiter :=
  (l.allow call.1 call.2).2

/-- The answer has the number of active series, a series that is stored is allowed, and a refusal
adds no entry. -/
structure Answered (l : SeriesLimiter) (call : TimeSeries × Int) : Prop where
  active : (l.allow call.1 call.2).1.active = (l.next call).total
  stored : l.Seen call.1 → (l.allow call.1 call.2).1.allowed = true
  refused : (l.allow call.1 call.2).1.allowed = false → ∀ metricName fingerprint time,
    (l.next call).timeOf metricName fingerprint = some time →
      l.timeOf metricName fingerprint = some time

theorem answered (l : SeriesLimiter) (call : TimeSeries × Int) : l.Answered call := by
  have hnone : ∀ {active : Int}, ¬ (⟨none, active⟩ : Reply).allowed = false := fun h => nomatch h
  rcases allow_cases l call.1 call.2 with ⟨-, heq⟩ | ⟨hseen, ⟨-, heq⟩ | ⟨-, heq⟩ | ⟨-, -, heq⟩⟩
  · exact ⟨by rw [next, heq]; rfl, fun _ => by rw [heq]; rfl,
      fun h => absurd (heq ▸ h) hnone⟩
  · exact ⟨by rw [next, heq], fun h => absurd h hseen,
      fun _ _ _ _ h => timeOf_settled (by rwa [next, heq] at h)⟩
  · exact ⟨by rw [next, heq], fun h => absurd h hseen,
      fun _ _ _ _ h => timeOf_settled (by rwa [next, heq] at h)⟩
  · exact ⟨by rw [next, heq], fun _ => by rw [heq]; rfl, fun h => absurd (heq ▸ h) hnone⟩

theorem exact_new (perMetricCap : Int) {globalCap : Int} (hglobal : 0 ≤ globalCap) (ttl : Int) :
    (newSeriesLimiter perMetricCap globalCap ttl).Exact where
  total := rfl
  tables m table h := by
    rw [newSeriesLimiter, AList.lookup_empty] at h
    cases h
  global := hglobal

/-- **The limiter counts exactly and respects its caps**, over every sequence of calls. -/
theorem limiter_exact (perMetricCap : Int) {globalCap : Int} (hglobal : 0 < globalCap) (ttl : Int)
    (calls : List (TimeSeries × Int)) :
    EveryState next Exact (newSeriesLimiter perMetricCap globalCap ttl) calls ∧
      EveryStep next Answered (newSeriesLimiter perMetricCap globalCap ttl) calls := by
  have hnew := exact_new perMetricCap hglobal.le ttl
  have hkeep : ∀ (l : SeriesLimiter) call, l.Exact → (l.next call).Exact :=
    fun l call hl => hl.allow call.1 call.2
  exact ⟨everyState_of_everyStep (C := fun _ _ => True) (fun l call hl _ => hkeep l call hl)
      (fun _ hl => hl) calls hnew ((everyStep_events calls).mpr fun _ _ => trivial),
    everyStep_of_invariant hkeep (fun l call _ => l.answered call) calls hnew⟩

def tagged (metricName value : Bytes) : TimeSeries :=
  ⟨[(ascii "__name__", metricName), (ascii "tag", value)], []⟩

/-- A limiter with room for one series of a metric. -/
theorem limiter_exact_one :
    EveryState next Exact (newSeriesLimiter 1 10 100)
        [(tagged (ascii "m") (ascii "a"), 0), (tagged (ascii "m") (ascii "b"), 1)] ∧
      EveryStep next Answered (newSeriesLimiter 1 10 100)
        [(tagged (ascii "m") (ascii "a"), 0), (tagged (ascii "m") (ascii "b"), 1)] :=
  limiter_exact 1 (by decide) 100 _

/-! ## Series that have expired -/

/-- How many stored series of a metric were seen within the TTL. -/
def freshIn (l : SeriesLimiter) (now : Int) (metricName : Bytes) : Nat :=
  fresh (now - l.ttl) (l.table metricName)

def freshTotal (l : SeriesLimiter) (now : Int) : Nat :=
  Dict.sumOf (fresh (now - l.ttl)) l.byMetric

/-- A refusal is justified by series that were seen within the TTL. -/
structure Justified (l : SeriesLimiter) (call : TimeSeries × Int) : Prop where
  metric : (l.allow call.1 call.2).1.reason = ascii "series_cap_metric" →
    l.perMetricCap ≤ l.freshIn call.2 (metricNameOf call.1)
  global : (l.allow call.1 call.2).1.reason = ascii "series_cap_global" →
    l.globalCap ≤ l.freshTotal call.2

/-- The series is stored, or a pruning is due, or its metric has room, or nothing in the table of
the metric has expired. -/
def Unblocked (l : SeriesLimiter) (call : TimeSeries × Int) : Prop :=
  l.Seen call.1 ∨ l.pruneDue call.2 = true ∨
    ((l.table (metricNameOf call.1)).entries.length : Int) < l.perMetricCap ∨
    ∀ e ∈ (l.table (metricNameOf call.1)).entries, ¬ e.2 < call.2 - l.ttl

theorem length_table_pruneExpired (l : SeriesLimiter) (now : Int) (m : Bytes) :
    ((l.pruneExpired now).table m).entries.length = l.freshIn now m := by
  rw [freshIn, table, table, lookup_pruneExpired]
  cases l.byMetric.lookup m with
  | none => rfl
  | some before =>
    have hlength := length_kept (now - l.ttl) before
    rw [Option.bind_some, Option.getD_some, pruned]
    split
    · next hnil =>
      rw [hnil, List.length_nil] at hlength
      exact hlength
    · exact hlength

theorem Counted.total_pruneExpired (h : l.Counted) (now : Int) :
    (l.pruneExpired now).total = l.freshTotal now := by
  have hsum : Dict.sumOf (fresh (now - l.ttl)) (l.pruneExpired now).byMetric =
      l.freshTotal now := by
    refine pruneExpired_keeps (P := fun s => Dict.sumOf (fresh (now - l.ttl)) s.byMetric =
      l.freshTotal now) ?_ (fun _ hs => hs) rfl
    intro s e he hs
    have hstep := sumOf_pruneMetric (f := fresh (now - l.ttl)) he
      (fun hnil : (kept (now - l.ttl) e.2).entries = [] => by
        rw [fresh_kept, hnil, List.length_nil])
    rw [fresh_kept, length_kept] at hstep
    omega
  rw [(h.pruneExpired now).total, stored, ← hsum]
  refine congrArg Int.ofNat (Dict.sumOf_congr fun m table hm => ?_)
  rw [lookup_pruneExpired] at hm
  obtain ⟨before, -, hpruned⟩ := Option.bind_eq_some_iff.mp hm
  rw [pruned] at hpruned
  split at hpruned
  · cases hpruned
  · cases hpruned
    exact (fresh_kept _ before).symm

theorem settled_of_due (h : l.pruneDue now = true) : l.settled now = l.pruneExpired now := if_pos h

theorem settled_of_not_due (h : ¬ l.pruneDue now = true) : l.settled now = l := if_neg h

theorem Reply.reason_metric {r : Reply} :
    r.reason = ascii "series_cap_metric" ↔ r.refused = some .seriesCapMetric := by
  unfold Reply.reason
  split <;> simp_all <;> decide

theorem Reply.reason_global {r : Reply} :
    r.reason = ascii "series_cap_global" ↔ r.refused = some .seriesCapGlobal := by
  unfold Reply.reason
  split <;> simp_all <;> decide

/-- **When a refusal is justified.** -/
theorem justified_iff (h : l.Counted) (call : TimeSeries × Int) :
    l.Justified call ↔ l.Unblocked call := by
  obtain ⟨series, now⟩ := call
  have hcaps := caps_settled l now
  constructor
  · intro hjust
    by_contra hblocked
    unfold Unblocked at hblocked
    rw [not_or, not_or, not_or, not_lt] at hblocked
    obtain ⟨hseen, hdue, hfull, hexpired⟩ := hblocked
    have hanswer : (l.allow series now).1.refused = some .seriesCapMetric := by
      rw [allow_unseen hseen, track, settled_of_not_due hdue, if_pos hfull]
    have hfresh : l.perMetricCap ≤ l.freshIn now (metricNameOf series) :=
      hjust.metric (Reply.reason_metric.mpr hanswer)
    -- the table has no more than `perMetricCap` series, so all of them are fresh
    refine hexpired fun e he => ?_
    have hcap := length_table_le h (metricNameOf series) (List.ne_nil_of_mem he)
    have hle := fresh_le (now - l.ttl) (l.table (metricNameOf series))
    have hall : fresh (now - l.ttl) (l.table (metricNameOf series)) =
        (l.table (metricNameOf series)).entries.length := by
      unfold freshIn at hfresh
      omega
    exact of_decide_eq_true (List.countP_eq_length.mp hall e he)
  · intro hunblocked
    refine ⟨fun hreason => ?_, fun hreason => ?_⟩
    · obtain ⟨hseen, hfull⟩ := full_of_refused_metric (Reply.reason_metric.mp hreason)
      show l.perMetricCap ≤ l.freshIn now (metricNameOf series)
      rw [hcaps.1] at hfull
      by_cases hdue : l.pruneDue now = true
      · rw [settled_of_due hdue, length_table_pruneExpired] at hfull
        exact hfull
      · rw [settled_of_not_due hdue] at hfull
        have hnone := ((hunblocked.resolve_left hseen).resolve_left hdue).resolve_left
          (not_lt.mpr hfull)
        have hall : fresh (now - l.ttl) (l.table (metricNameOf series)) =
            (l.table (metricNameOf series)).entries.length :=
          List.countP_eq_length.mpr fun e he => decide_eq_true (hnone e he)
        rw [freshIn, hall]
        exact hfull
    · have hfull := full_of_refused_global (Reply.reason_global.mp hreason)
      show l.globalCap ≤ l.freshTotal now
      rw [hcaps.2.1] at hfull
      by_cases hdue : l.pruneDue now = true
      · rw [settled_of_due hdue, h.total_pruneExpired] at hfull
        exact hfull
      · -- at the global cap a pruning is always due
        rw [settled_of_not_due hdue] at hfull
        refine absurd ?_ hdue
        rw [pruneDue, decide_eq_true hfull, Bool.or_true]

/-- **Over every sequence of calls, the refusals are justified by series seen within the TTL if and
only if no call for a new series finds its metric full, with a series that has expired, and no
pruning due.** -/
theorem expired_never_block_iff (perMetricCap globalCap ttl : Int)
    (calls : List (TimeSeries × Int)) :
    EveryStep next Justified (newSeriesLimiter perMetricCap globalCap ttl) calls ↔
      EveryStep next Unblocked (newSeriesLimiter perMetricCap globalCap ttl) calls := by
  refine everyStep_congr (I := Counted) (fun l call hl _ => hl.allow call.1 call.2)
    (fun l call hl => justified_iff hl call) calls ⟨rfl, fun m table h => ?_⟩
  rw [newSeriesLimiter, AList.lookup_empty] at h
  cases h

/-- A series of one metric, one of another 95 ns later, and a second one of the first metric. -/
def lateCalls : List (TimeSeries × Int) :=
  [(tagged (ascii "m") (ascii "a"), 0), (tagged (ascii "n") (ascii "b"), 95),
    (tagged (ascii "m") (ascii "c"), 101)]

/-- **A full metric refuses a series although its only series has expired**: the pruning for another
metric was too short a time ago. -/
theorem expired_series_blocks :
    lateCalls.Pairwise (fun a b => a.2 ≤ b.2) ∧
      ¬ EveryStep next Justified (newSeriesLimiter 1 10 100) lateCalls := by
  refine ⟨by decide, fun h => ?_⟩
  have hjust := h.2.2.1.metric (by decide +kernel)
  exact absurd hjust (by decide +kernel)

end SeriesLimiter

end Dogstatsd
