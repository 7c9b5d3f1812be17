import Mathlib.Algebra.Order.BigOperators.Group.List
import Mathlib.Algebra.Order.Field.Rat
import Mathlib.Algebra.Order.Monoid.Prod
import Mathlib.Tactic.Positivity
import NodeAgent.Infra.Bytes
import NodeAgent.Infra.Dict

/-!
# GPU usage of processes

The poller of `gpu/gpu.go` forwards the utilization samples of every device to the containers,
where `getGPUUsage` (`containers/process.go`) averages those of a process over a window and
`Collect` (`containers/container.go`) adds up the processes of a container. Percentages are exact
rationals here.

* `forwarded_iff_ordered` — which samples the poller's common `lastTs` lets through.
* `collected_usage_iff` — what `Collect` reports, when every process resets the sums before it.
-/

namespace Containers

open Infra

/-! ## The poller -/

/-- What the driver reports of one process on a device; the time is in microseconds. -/
structure UtilizationSample where
  pid : Nat
  timeStamp : Nat
  smUtil : Nat
  memUtil : Nat
deriving DecidableEq

/-- A sample as it is sent to the containers; the time is in nanoseconds. -/
structure ProcessUsageSample where
  uuid : Bytes
  pid : Nat
  timestamp : Int
  gpuPercent : Nat
  memoryPercent : Nat
deriving DecidableEq

def usageSample (uuid : Bytes) (sample : UtilizationSample) : ProcessUsageSample :=
  ⟨uuid, sample.pid, 1000 * sample.timeStamp, sample.smUtil, sample.memUtil⟩

/-- The poller: `lastTs`, and what it has sent. -/
structure Poller where
  lastTs : Nat
  sent : List ProcessUsageSample

/-- The body of the innermost loop. -/
def pollSample (uuid : Bytes) (c : Poller) (sample : UtilizationSample) : Poller :=
  if sample.timeStamp ≤ c.lastTs then c
  else
    { lastTs := sample.timeStamp
      sent := if 0 < sample.smUtil then c.sent ++ [usageSample uuid sample] else c.sent }

/-- One device with the samples that `GetProcessUtilization` returns for it. -/
abbrev DeviceSamples := Bytes × List UtilizationSample

def pollDevices (c : Poller) (devices : List DeviceSamples) : Poller :=
  devices.foldl (fun c dev => dev.2.foldl (pollSample dev.1) c) c

/-- The samples that are sent in the ticks after the start. -/
def processUtilizationPoller (start : Nat) (ticks : List (List DeviceSamples)) :
    List ProcessUsageSample :=
  (ticks.foldl pollDevices ⟨start, []⟩).sent

/-- All samples with their devices, in the order in which the poller comes to them. -/
def polled (ticks : List (List DeviceSamples)) : List (Bytes × UtilizationSample) :=
  ticks.flatMap fun devices => devices.flatMap fun dev => dev.2.map (dev.1, ·)

/-- A sample with some utilization, taken after `start`. -/
def Wanted (start : Nat) (x : Bytes × UtilizationSample) : Prop :=
  0 < x.2.smUtil ∧ start < x.2.timeStamp

instance (start : Nat) : DecidablePred (Wanted start) :=
  fun _ => inferInstanceAs (Decidable (_ ∧ _))

/-- The samples that a poller with `lastTs` lets through. -/
def passing (lastTs : Nat) : List (Bytes × UtilizationSample) → List (Bytes × UtilizationSample)
  | [] => []
  | x :: xs =>
    if x.2.timeStamp ≤ lastTs then passing lastTs xs
    else if 0 < x.2.smUtil then x :: passing x.2.timeStamp xs
    else passing x.2.timeStamp xs

theorem sent_foldl (xs : List (Bytes × UtilizationSample)) : ∀ c : Poller,
    (xs.foldl (fun c x => pollSample x.1 c x.2) c).sent =
      c.sent ++ (passing c.lastTs xs).map fun x => usageSample x.1 x.2 := by
  induction xs with
  | nil => simp [passing]
  | cons x xs ih =>
    intro c
    rw [List.foldl_cons, ih, passing, pollSample]
    by_cases hold : x.2.timeStamp ≤ c.lastTs
    · rw [if_pos hold, if_pos hold]
    · rw [if_neg hold, if_neg hold]
      split <;> simp

theorem processUtilizationPoller_eq (start : Nat) (ticks : List (List DeviceSamples)) :
    processUtilizationPoller start ticks =
      (passing start (polled ticks)).map fun x => usageSample x.1 x.2 := by
  have hflat := sent_foldl (polled ticks) ⟨start, []⟩
  simp only [polled, List.foldl_flatMap, List.foldl_map, List.nil_append] at hflat
  exact hflat

theorem wanted_of_passing {x : Bytes × UtilizationSample} {xs : List (Bytes × UtilizationSample)} :
    ∀ {lastTs : Nat}, x ∈ passing lastTs xs → Wanted lastTs x := by
  induction xs with
  | nil => nofun
  | cons y ys ih =>
    intro lastTs h
    rw [passing] at h
    split at h
    · exact ih h
    · next hold =>
      have hys : x ∈ passing y.2.timeStamp ys → Wanted lastTs x := fun h =>
        ⟨(ih h).1, (Nat.lt_of_not_le hold).trans (ih h).2⟩
      split at h
      · next hsm =>
        rcases List.mem_cons.mp h with rfl | h
        · exact ⟨hsm, Nat.lt_of_not_le hold⟩
        · exact hys h
      · exact hys h

theorem passing_eq_filter_iff {xs : List (Bytes × UtilizationSample)} : ∀ {lastTs : Nat},
    passing lastTs xs = xs.filter (Wanted lastTs) ↔
      xs.Pairwise fun y x => Wanted lastTs x → y.2.timeStamp < x.2.timeStamp := by
  induction xs with
  | nil => simp [passing]
  | cons x xs ih =>
    intro lastTs
    rw [passing, List.filter_cons, List.pairwise_cons]
    by_cases hold : x.2.timeStamp ≤ lastTs
    · have hx : ¬ Wanted lastTs x := fun h => absurd h.2 (Nat.not_lt.mpr hold)
      rw [if_pos hold, if_neg (by simpa using hx), ih]
      exact ⟨fun h => ⟨fun _ _ hw => hold.trans_lt hw.2, h⟩, And.right⟩
    -- from here on `lastTs` is the time of `x`, and later samples are wanted if they are after it
    · have hlater : ∀ z, Wanted x.2.timeStamp z ↔
          Wanted lastTs z ∧ x.2.timeStamp < z.2.timeStamp := fun z =>
        ⟨fun h => ⟨⟨h.1, by have := h.2; omega⟩, h.2⟩, fun h => ⟨h.1.1, h.2⟩⟩
      have htail : passing x.2.timeStamp xs = xs.filter (Wanted lastTs) ↔
          (∀ z ∈ xs, Wanted lastTs z → x.2.timeStamp < z.2.timeStamp) ∧
            xs.Pairwise fun y z => Wanted lastTs z → y.2.timeStamp < z.2.timeStamp := by
        constructor
        · intro h
          have hall : ∀ z ∈ xs, Wanted lastTs z → x.2.timeStamp < z.2.timeStamp := fun z hz hw =>
            (wanted_of_passing (h ▸ List.mem_filter.mpr ⟨hz, by simpa using hw⟩)).2
          have hfilter : xs.filter (Wanted lastTs) = xs.filter (Wanted x.2.timeStamp) :=
            List.filter_congr fun z hz => by
              rw [decide_eq_decide, hlater]
              exact ⟨fun hw => ⟨hw, hall z hz hw⟩, And.left⟩
          refine ⟨hall, (ih.mp (h.trans hfilter)).imp_of_mem fun _ hz hyz hw => ?_⟩
          exact hyz ((hlater _).mpr ⟨hw, hall _ hz hw⟩)
        · rintro ⟨hall, hpair⟩
          rw [ih.mpr (hpair.imp fun hyz hw => hyz ((hlater _).mp hw).1)]
          refine List.filter_congr fun z hz => ?_
          rw [decide_eq_decide, hlater]
          exact ⟨And.left, fun hw => ⟨hw, hall z hz hw⟩⟩
      rw [if_neg hold, ← htail]
      by_cases hsm : 0 < x.2.smUtil
      · rw [if_pos hsm, if_pos (by simpa [Wanted, hsm] using hold), List.cons.injEq]
        exact and_iff_right rfl
      · rw [if_neg hsm, if_neg (by simp [Wanted, hsm])]

/-- **Every wanted sample is sent, once and in order, exactly when the samples of the other devices
that the poller came to before are older**, where the samples of each device come in the order of
their times. -/
theorem forwarded_iff_ordered {start : Nat} {ticks : List (List DeviceSamples)}
    (hincreasing : (polled ticks).Pairwise fun y x => y.1 = x.1 → y.2.timeStamp < x.2.timeStamp) :
    processUtilizationPoller start ticks =
        ((polled ticks).filter (Wanted start)).map (fun x => usageSample x.1 x.2) ↔
      (polled ticks).Pairwise fun y x =>
        y.1 ≠ x.1 → Wanted start x → y.2.timeStamp < x.2.timeStamp := by
  have hinj : Function.Injective fun x : Bytes × UtilizationSample => usageSample x.1 x.2 := by
    rintro ⟨u, p, t, s, m⟩ ⟨u', p', t', s', m'⟩ h
    simp only [usageSample, ProcessUsageSample.mk.injEq] at h
    obtain ⟨rfl, rfl, ht, rfl, rfl⟩ := h
    rw [show t = t' by omega]
  rw [processUtilizationPoller_eq, (List.map_injective_iff.mpr hinj).eq_iff,
    passing_eq_filter_iff]
  constructor
  · exact fun h => h.imp fun hyx _ hw => hyx hw
  · refine fun h => (hincreasing.and h).imp fun {y x} hyx hw => ?_
    by_cases hdev : y.1 = x.1
    · exact hyx.1 hdev
    · exact hyx.2 hdev hw

def twoDevices (first second : Nat) : List (List DeviceSamples) :=
  [[([0], [⟨1, first, 50, 10⟩]), ([1], [⟨2, second, 70, 20⟩])]]

theorem forwarded_iff_ordered_two :
    processUtilizationPoller 10 (twoDevices 12 15) =
      [usageSample [0] ⟨1, 12, 50, 10⟩, usageSample [1] ⟨2, 15, 70, 20⟩] :=
  (forwarded_iff_ordered (by decide)).mpr (by decide)

/-- The sample of the second device is sent or not, as the time of the first one's sample is. -/
theorem device_hides_sample :
    usageSample [1] ⟨2, 15, 70, 20⟩ ∈ processUtilizationPoller 10 (twoDevices 12 15) ∧
      usageSample [1] ⟨2, 15, 70, 20⟩ ∉ processUtilizationPoller 10 (twoDevices 20 15) := by
  decide

/-! ## The usage of a process -/

abbrev GpuUsage := ℚ × ℚ

/-- The window of the average, in nanoseconds. -/
def gpuStatsWindow : Int := 15 * 1000000000

/-- The usage of a GPU in a table, zero if it is not there. -/
def usageOf (stats : Dict Bytes GpuUsage) (uuid : Bytes) : GpuUsage := (stats.lookup uuid).getD 0

/-- Adds to the entry of a GPU, which is created if it is not there. -/
def addUsage (stats : Dict Bytes GpuUsage) (uuid : Bytes) (u : GpuUsage) : Dict Bytes GpuUsage :=
  stats.insert uuid (usageOf stats uuid + u)

/-- A process of the container when `Collect` comes to it, with the time of that moment. -/
structure GpuProcess where
  cmdline : Bytes
  gpuUsageSamples : List ProcessUsageSample
  now : Int

def removeOldGpuUsageSamples (cutoff : Int) (samples : List ProcessUsageSample) :
    List ProcessUsageSample :=
  samples.dropWhile fun sample => !decide (cutoff < sample.timestamp)

namespace GpuProcess

def inWindow (p : GpuProcess) : List ProcessUsageSample :=
  removeOldGpuUsageSamples (p.now - gpuStatsWindow) p.gpuUsageSamples

def share (sample : ProcessUsageSample) : GpuUsage :=
  (sample.gpuPercent / 15, sample.memoryPercent / 15)

def getGPUUsage (p : GpuProcess) : Option (Dict Bytes GpuUsage) :=
  if p.inWindow = [] then none
  else some (p.inWindow.foldl (fun res sample => addUsage res sample.uuid (share sample)) ∅)

def usage (p : GpuProcess) (uuid : Bytes) : GpuUsage :=
  p.getGPUUsage.elim 0 fun res => usageOf res uuid

end GpuProcess

/-! ## The usage of a container -/

/-- `Reset` of every entry. -/
def resetUsage (stats : Dict Bytes GpuUsage) : Dict Bytes GpuUsage :=
  stats.mapValues fun _ _ => 0

/-- The part of the body of `Collect`'s loop over the processes that is about `gpuStats`. -/
def collectProcess (gpuStats : Dict Bytes GpuUsage) (p : GpuProcess) : Dict Bytes GpuUsage :=
  if p.cmdline = [] then gpuStats
  else p.getGPUUsage.elim (resetUsage gpuStats) fun res =>
    res.entries.foldl (fun stats e => addUsage stats e.1 e.2) (resetUsage gpuStats)

/-- `gpuStats` as it is reported after the loop over the processes, in the order of their pids. -/
def collectGpuStats (gpuStats : Dict Bytes GpuUsage) (processes : List GpuProcess) :
    Dict Bytes GpuUsage :=
  processes.foldl collectProcess gpuStats

def running (processes : List GpuProcess) : List GpuProcess :=
  processes.filter fun p => p.cmdline ≠ []

theorem usageOf_addUsage (stats : Dict Bytes GpuUsage) (key uuid : Bytes) (u : GpuUsage) :
    usageOf (addUsage stats key u) uuid = usageOf stats uuid + if key = uuid then u else 0 := by
  rw [usageOf, addUsage, Dict.lookup_insert_eq]
  by_cases hkey : uuid = key
  · rw [if_pos hkey, if_pos hkey.symm, hkey, Option.getD_some]
  · rw [if_neg hkey, if_neg (Ne.symm hkey), add_zero, usageOf]

theorem usageOf_foldl {α : Type} (key : α → Bytes) (val : α → GpuUsage) (uuid : Bytes)
    (l : List α) : ∀ stats : Dict Bytes GpuUsage,
    usageOf (l.foldl (fun stats x => addUsage stats (key x) (val x)) stats) uuid =
      usageOf stats uuid + (l.map fun x => if key x = uuid then val x else 0).sum := by
  induction l with
  | nil => simp
  | cons x l ih =>
    intro stats
    rw [List.foldl_cons, ih, usageOf_addUsage, List.map_cons, List.sum_cons, add_assoc]

theorem usageOf_resetUsage (stats : Dict Bytes GpuUsage) (uuid : Bytes) :
    usageOf (resetUsage stats) uuid = 0 := by
  rw [usageOf, resetUsage, Dict.lookup_mapValues]
  cases stats.lookup uuid <;> rfl

theorem sum_entries (uuid : Bytes) : ∀ (l : List (Sigma fun _ : Bytes => GpuUsage)),
    l.NodupKeys → (l.map fun e => if e.1 = uuid then e.2 else 0).sum = (l.dlookup uuid).getD 0
  | [], _ => rfl
  | ⟨k, u⟩ :: l, h => by
    obtain ⟨hkey, hnodup⟩ := List.nodupKeys_cons.mp h
    rw [List.map_cons, List.sum_cons, sum_entries uuid l hnodup]
    by_cases hk : k = uuid
    · subst hk
      rw [List.dlookup_cons_eq, List.dlookup_eq_none.mpr hkey, if_pos rfl]
      exact add_zero u
    · rw [List.dlookup_cons_ne l ⟨k, u⟩ (Ne.symm hk), if_neg hk, zero_add]

theorem usageOf_collectProcess {p : GpuProcess} (h : p.cmdline ≠ [])
    (stats : Dict Bytes GpuUsage) (uuid : Bytes) :
    usageOf (collectProcess stats p) uuid = p.usage uuid := by
  rw [collectProcess, if_neg h, GpuProcess.usage]
  cases p.getGPUUsage with
  | none => exact usageOf_resetUsage stats uuid
  | some res =>
    rw [Option.elim_some, usageOf_foldl, usageOf_resetUsage, zero_add]
    exact sum_entries uuid res.entries res.nodupKeys

theorem usageOf_collectGpuStats (uuid : Bytes) (processes : List GpuProcess) :
    ∀ stats : Dict Bytes GpuUsage, usageOf (collectGpuStats stats processes) uuid =
      (running processes).getLast?.elim (usageOf stats uuid) (·.usage uuid) := by
  induction processes with
  | nil => exact fun _ => rfl
  | cons p ps ih =>
    intro stats
    refine (ih (collectProcess stats p)).trans ?_
    by_cases hp : p.cmdline = []
    · have hskip : running (p :: ps) = running ps := List.filter_cons_of_neg (by simpa using hp)
      rw [hskip, collectProcess, if_pos hp]
    · have hrun : running (p :: ps) = p :: running ps := List.filter_cons_of_pos (by simpa using hp)
      rw [hrun, List.getLast?_cons, usageOf_collectProcess hp]
      cases (running ps).getLast? <;> rfl

/-! ## When the report is the sum -/

theorem usage_eq (p : GpuProcess) (uuid : Bytes) :
    p.usage uuid =
      ((((p.inWindow.map fun s => if s.uuid = uuid then s.gpuPercent else 0).sum : ℕ) : ℚ) / 15,
        (((p.inWindow.map fun s => if s.uuid = uuid then s.memoryPercent else 0).sum : ℕ) : ℚ)
          / 15) := by
  have hsum : ∀ l : List ProcessUsageSample,
      (l.map fun s => if s.uuid = uuid then GpuProcess.share s else 0).sum =
        ((((l.map fun s => if s.uuid = uuid then s.gpuPercent else 0).sum : ℕ) : ℚ) / 15,
          (((l.map fun s => if s.uuid = uuid then s.memoryPercent else 0).sum : ℕ) : ℚ) / 15) := by
    intro l
    induction l with
    | nil => simp [Prod.zero_eq_mk]
    | cons s l ih =>
      rw [List.map_cons, List.sum_cons, ih]
      by_cases hs : s.uuid = uuid
      · simp [hs, GpuProcess.share, add_div]
      · simp [hs]
  rw [GpuProcess.usage, GpuProcess.getGPUUsage, ← hsum]
  split
  · next hnil => rw [hnil]; rfl
  · rw [Option.elim_some, usageOf_foldl]
    exact zero_add _

theorem usage_eq_zero_iff {p : GpuProcess} {uuid : Bytes} :
    p.usage uuid = 0 ↔
      ∀ s ∈ p.inWindow, s.uuid = uuid → s.gpuPercent = 0 ∧ s.memoryPercent = 0 := by
  have hdiv : ∀ n : ℕ, (n : ℚ) / 15 = 0 ↔ n = 0 := fun n => by simp
  rw [usage_eq, Prod.mk_eq_zero, hdiv, hdiv, List.sum_eq_zero_iff, List.sum_eq_zero_iff]
  simp only [List.forall_mem_map, ite_eq_right_iff]
  exact ⟨fun h s hs hu => ⟨h.1 s hs hu, h.2 s hs hu⟩,
    fun h => ⟨fun s hs hu => (h s hs hu).1, fun s hs hu => (h s hs hu).2⟩⟩

theorem usage_nonneg (p : GpuProcess) (uuid : Bytes) : 0 ≤ p.usage uuid := by
  rw [usage_eq]
  exact ⟨by positivity, by positivity⟩

theorem sum_usage_eq_zero_iff {ps : List GpuProcess} {uuid : Bytes} :
    (ps.map (·.usage uuid)).sum = 0 ↔ ∀ p ∈ ps, p.usage uuid = 0 := by
  induction ps with
  | nil => simp
  | cons p ps ih =>
    have hsum : 0 ≤ (ps.map (·.usage uuid)).sum :=
      List.sum_nonneg (by simp [usage_nonneg])
    rw [List.map_cons, List.sum_cons, add_eq_zero_iff_of_nonneg (usage_nonneg p uuid) hsum, ih,
      List.forall_mem_cons]

/-- **`Collect` reports the sum over the processes exactly when only the last process with a
command line has usage in its window; with no such process, when nothing was left in the table.** -/
theorem collected_usage_iff {gpuStats : Dict Bytes GpuUsage} {processes : List GpuProcess} :
    (∀ uuid, usageOf (collectGpuStats gpuStats processes) uuid =
        ((running processes).map (·.usage uuid)).sum) ↔
      (running processes = [] → ∀ uuid, usageOf gpuStats uuid = 0) ∧
        ∀ p ∈ (running processes).dropLast, ∀ s ∈ p.inWindow,
          s.gpuPercent = 0 ∧ s.memoryPercent = 0 := by
  simp only [usageOf_collectGpuStats]
  rcases List.eq_nil_or_concat' (running processes) with hnil | ⟨ps, last, hps⟩
  · simp [hnil]
  · simp only [hps, List.getLast?_concat, Option.elim_some, List.map_append, List.sum_append,
      List.map_cons, List.map_nil, List.sum_singleton, List.dropLast_concat, List.append_eq_nil_iff,
      List.cons_ne_nil, and_false, false_implies, true_and]
    simp only [right_eq_add, sum_usage_eq_zero_iff, usage_eq_zero_iff]
    exact ⟨fun h p hp s hs => h s.uuid p hp s hs rfl, fun h _ p hp s hs _ => h p hp s hs⟩

def busyProcess (percent : Nat) : GpuProcess := ⟨[1], [⟨[0], 1, 5, percent, 0⟩], 6⟩

/-- Two processes use a third of the GPU each, and a third of it is reported. -/
theorem first_process_lost :
    usageOf (collectGpuStats ∅ [busyProcess 5, busyProcess 5]) [0] = (1 / 3, 0) ∧
      ((running [busyProcess 5, busyProcess 5]).map (·.usage [0])).sum = (2 / 3, 0) := by
  decide +kernel

end Containers
