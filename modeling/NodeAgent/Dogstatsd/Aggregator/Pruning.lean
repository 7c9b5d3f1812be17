import Mathlib.Algebra.Order.BigOperators.Group.List
import NodeAgent.Dogstatsd.Aggregator

/-!
# Pruning the baselines of gauges

`Add` prunes the baselines first, if the last pruning was long enough ago. A pruning removes the
baselines that were not updated for longer than the TTL, and changes nothing else.

* `lookup_pruneGauges` — the baselines that are left, and when
-/

namespace Dogstatsd

open Infra

namespace Aggregator

variable {a : Aggregator} {now : Int}

def PruneDue (a : Aggregator) (now : Int) : Prop :=
  ∀ last, a.lastGaugePrune = some last → min (a.cfg.gaugeTTL / 10) 60000000000 ≤ now - last

def Expired (a : Aggregator) (now : Int) (b : GaugeBaseline) : Prop :=
  b.lastSeen < now - a.cfg.gaugeTTL

theorem any_lastGaugePrune (a : Aggregator) (now : Int) :
    a.lastGaugePrune.any (fun last => now - last < min (a.cfg.gaugeTTL / 10) 60000000000) = true ↔
      ¬ a.PruneDue now := by
  unfold PruneDue
  cases a.lastGaugePrune with
  | none => simp
  | some last => simp only [Option.any_some, decide_eq_true_eq, Option.some.injEq, forall_eq',
      not_le]

instance (a : Aggregator) (now : Int) : Decidable (a.PruneDue now) :=
  decidable_of_iff _ (not_iff_comm.mp (any_lastGaugePrune a now).symm)

instance (a : Aggregator) (now : Int) (b : GaugeBaseline) : Decidable (a.Expired now b) :=
  inferInstanceAs (Decidable (_ < _))

theorem pruneGauges_of_due (h : a.PruneDue now) :
    a.pruneGauges now = { a with
      gauges := (a.gauges.entries.foldl (pruneEntry (now - a.cfg.gaugeTTL))
        (a.gauges, a.gaugeBytes)).1
      gaugeBytes := (a.gauges.entries.foldl (pruneEntry (now - a.cfg.gaugeTTL))
        (a.gauges, a.gaugeBytes)).2
      lastGaugePrune := some now } :=
  if_neg fun hany => (any_lastGaugePrune a now).mp hany h

theorem pruneGauges_of_not_due (h : ¬ a.PruneDue now) : a.pruneGauges now = a :=
  if_pos ((any_lastGaugePrune a now).mpr h)

theorem foldl_pruneEntry_fst (cutoff : Int) :
    ∀ (entries : List (Σ _ : Bytes, GaugeBaseline)) (acc : Dict Bytes GaugeBaseline × Int),
      (entries.foldl (pruneEntry cutoff) acc).1 =
        entries.foldl (fun m e => if decide (cutoff ≤ e.2.lastSeen) then m else m.erase e.1) acc.1
  | [], _ => rfl
  | e :: entries, acc => by
    rw [List.foldl_cons, List.foldl_cons, foldl_pruneEntry_fst cutoff entries]
    unfold pruneEntry
    by_cases hlt : e.2.lastSeen < cutoff
    · rw [if_pos hlt, if_neg (by simpa using hlt)]
    · rw [if_neg hlt, if_pos (by simpa using hlt)]

theorem foldl_pruneEntry_snd (cutoff : Int) :
    ∀ (entries : List (Σ _ : Bytes, GaugeBaseline)) (acc : Dict Bytes GaugeBaseline × Int),
      (entries.foldl (pruneEntry cutoff) acc).2 =
        acc.2 - ((entries.filter (fun e => e.2.lastSeen < cutoff)).map (·.2.bytes)).sum
  | [], acc => by simp
  | e :: entries, acc => by
    rw [List.foldl_cons, foldl_pruneEntry_snd cutoff entries, List.filter_cons]
    unfold pruneEntry
    by_cases hlt : e.2.lastSeen < cutoff
    · rw [if_pos hlt, if_pos (by simpa using hlt), List.map_cons, List.sum_cons]
      exact (sub_sub _ _ _)
    · rw [if_neg hlt, if_neg (by simpa using hlt)]

theorem lookup_pruneGauges (a : Aggregator) (now : Int) (k : Bytes) :
    (a.pruneGauges now).gauges.lookup k =
      (a.gauges.lookup k).filter (fun b => ¬ (a.PruneDue now ∧ a.Expired now b)) := by
  by_cases hdue : a.PruneDue now
  · rw [pruneGauges_of_due hdue, foldl_pruneEntry_fst]
    refine (Dict.lookup_filter a.gauges
      (fun _ b => decide (now - a.cfg.gaugeTTL ≤ b.lastSeen)) k).trans ?_
    simp only [hdue, true_and, Expired, not_lt]
  · rw [pruneGauges_of_not_due hdue]
    simp only [hdue, false_and, not_false_eq_true, decide_true]
    cases a.gauges.lookup k <;> rfl

theorem of_lookup_pruneGauges {k : Bytes} {b : GaugeBaseline}
    (hb : (a.pruneGauges now).gauges.lookup k = some b) : a.gauges.lookup k = some b := by
  rw [lookup_pruneGauges, Option.filter_eq_some_iff] at hb
  exact hb.1

theorem lookup_pruneGauges_kept {k : Bytes} {b : GaugeBaseline} (hb : a.gauges.lookup k = some b)
    (h : ¬ (a.PruneDue now ∧ a.Expired now b)) : (a.pruneGauges now).gauges.lookup k = some b := by
  rw [lookup_pruneGauges, hb, Option.filter_some]
  exact if_pos (decide_eq_true h)

theorem lookup_pruneGauges_expired {k : Bytes} {b : GaugeBaseline}
    (hb : a.gauges.lookup k = some b) (hdue : a.PruneDue now) (hexpired : a.Expired now b) :
    (a.pruneGauges now).gauges.lookup k = none := by
  rw [lookup_pruneGauges, hb, Option.filter_some]
  exact if_neg (by simpa using ⟨hdue, hexpired⟩)

theorem lookup_pruneGauges_none {k : Bytes} (hb : a.gauges.lookup k = none) :
    (a.pruneGauges now).gauges.lookup k = none := by
  rw [lookup_pruneGauges, hb]
  rfl

def expiredBytes (a : Aggregator) (now : Int) : Int :=
  ((a.gauges.entries.filter (fun e => a.Expired now e.2)).map (·.2.bytes)).sum

theorem expiredBytes_nonneg (h : ∀ k b, a.gauges.lookup k = some b → 0 ≤ b.bytes) :
    0 ≤ a.expiredBytes now := by
  refine List.sum_nonneg ?_
  intro bytes hbytes
  obtain ⟨e, he, rfl⟩ := List.mem_map.mp hbytes
  exact h e.1 e.2 (Dict.lookup_of_mem (List.mem_of_mem_filter he))

/-- The bytes that the limit is compared with: baselines that are pruned do not count. -/
def bytesAt (a : Aggregator) (now : Int) : Int :=
  a.totalBytes - if a.PruneDue now then a.expiredBytes now else 0

theorem totalBytes_pruneGauges (a : Aggregator) (now : Int) :
    (a.pruneGauges now).totalBytes = a.bytesAt now := by
  unfold bytesAt
  by_cases hdue : a.PruneDue now
  · rw [if_pos hdue, pruneGauges_of_due hdue]
    unfold totalBytes expiredBytes
    simp only
    rw [foldl_pruneEntry_snd]
    exact (add_sub_assoc _ _ _).symm
  · rw [if_neg hdue, pruneGauges_of_not_due hdue, sub_zero]

/-- Pruning leaves everything but the baselines as it is. -/
structure Pruned (a a' : Aggregator) : Prop where
  cfg : a'.cfg = a.cfg
  series : a'.series = a.series
  inflight : a'.inflight = a.inflight
  activeBytes : a'.activeBytes = a.activeBytes
  inflightBytes : a'.inflightBytes = a.inflightBytes

theorem pruned_pruneGauges (a : Aggregator) (now : Int) : Pruned a (a.pruneGauges now) := by
  by_cases hdue : a.PruneDue now
  · rw [pruneGauges_of_due hdue]
    exact ⟨rfl, rfl, rfl, rfl, rfl⟩
  · rw [pruneGauges_of_not_due hdue]
    exact ⟨rfl, rfl, rfl, rfl, rfl⟩

end Aggregator

end Dogstatsd
