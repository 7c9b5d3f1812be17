import NodeAgent.Infra.Sequences
import NodeAgent.Prom.RemoteWriter

/-!
# The size of the remote writer's spool

A write looks at the size of the whole spool, but it removes one file at most. So the spool is
bounded by the limit and the new payload exactly as long as that one file is enough.

* `spool_bounded_iff` — when the bound holds after every write of a run
-/

namespace Prom

open Infra Prog

variable {a : Agent} {d d' : Disk} {timestamp : Int} {payload : Bytes}

/-- The files that a write leaves: not the one that it may remove, and not one of the same name. -/
def survivors (a : Agent) (t : Tree) (timestamp : Int) : List Path :=
  (kept a t).filter fun p => p ≠ spoolPath a timestamp

/-! ## One write -/

theorem Written.get?_survivor (h : Written a timestamp payload (truncated a d) d') {p : Path}
    (hp : p ∈ survivors a d.tree timestamp) : d'.tree.get? p = d.tree.get? p := by
  obtain ⟨hkept, hne⟩ := List.mem_filter.mp hp
  obtain ⟨m, rfl, hname, _⟩ := mem_spoolFiles.mp (mem_kept.mp hkept)
  obtain ⟨x, hx⟩ := h
  have hm : m ≠ spoolName timestamp := by
    rintro rfl
    simp [spoolPath] at hne
  rw [hx m hname, if_neg hm, get?_truncated hkept]

/-- **The files after a write.** -/
theorem Written.spoolFiles (h : Written a timestamp payload (truncated a d) d') :
    (spoolFiles a d'.tree).Perm (spoolPath a timestamp :: survivors a d.tree timestamp) := by
  have hnodup : (spoolPath a timestamp :: survivors a d.tree timestamp).Nodup := by
    refine List.nodup_cons.mpr ⟨fun hp => ?_, ?_⟩
    · simpa using (List.mem_filter.mp hp).2
    · exact (nodup_spoolFiles a d.tree).sublist (List.filter_sublist.trans kept_sublist)
  refine (List.perm_ext_iff_of_nodup (nodup_spoolFiles a d'.tree) hnodup).mpr fun p => ?_
  rw [List.mem_cons]
  obtain ⟨x, hx⟩ := h
  constructor
  · intro hp
    obtain ⟨m, rfl, hname, hsome⟩ := mem_spoolFiles.mp hp
    rw [hx m hname] at hsome
    by_cases hm : m = spoolName timestamp
    · exact Or.inl (by rw [hm, spoolPath])
    · rw [if_neg hm] at hsome
      refine Or.inr (List.mem_filter.mpr ⟨mem_kept.mpr ?_, by simpa [spoolPath] using hm⟩)
      exact mem_spoolFiles.mpr ⟨m, rfl, hname, hsome⟩
  · rintro (rfl | hp)
    · refine mem_spoolFiles.mpr ⟨_, rfl, isSpoolName_spoolName timestamp, ?_⟩
      rw [spoolPath, hx _ (isSpoolName_spoolName timestamp), if_pos rfl]
      rfl
    · have hsame := Written.get?_survivor ⟨x, hx⟩ hp
      obtain ⟨m, hm, hname, hsome⟩ :=
        mem_spoolFiles.mp (kept_sublist.subset (List.mem_filter.mp hp).1)
      exact mem_spoolFiles.mpr ⟨m, hm, hname, by rwa [hsame]⟩

def spoolSize (a : Agent) (t : Tree) : Nat := totalSize t (spoolFiles a t)

theorem Written.spoolSize (h : Written a timestamp payload (truncated a d) d') :
    spoolSize a d'.tree = payload.length + totalSize d.tree (survivors a d.tree timestamp) := by
  have hnew : fileSize d'.tree (spoolPath a timestamp) = payload.length := by
    obtain ⟨x, hx⟩ := h
    rw [fileSize, spoolPath, hx _ (isSpoolName_spoolName timestamp), if_pos rfl]
    rfl
  have hold : totalSize d'.tree (survivors a d.tree timestamp) =
      totalSize d.tree (survivors a d.tree timestamp) :=
    totalSize_congr fun p hp => h.get?_survivor hp
  rw [Prom.spoolSize, totalSize, (h.spoolFiles.map _).sum_nat, List.map_cons, List.sum_cons, hnew,
    ← totalSize, hold]

/-! ## Runs -/

/-- A call of `writeToSpool`, with what the environment does during the call. -/
structure SpoolWrite where
  timestamp : Int
  payload : Bytes
  rands : List Nat
  env : Nat → Choice

def SpoolWrite.run (a : Agent) (d : Disk) (w : SpoolWrite) : Except Errno Unit × Disk :=
  play fsStep (writeToSpool a w.timestamp w.payload w.rands) w.env d

/-- Each write that succeeds has a property, given the disk before it. -/
def EverySuccess (a : Agent) (P : Disk → SpoolWrite → Prop) : Disk → List SpoolWrite → Prop :=
  EveryStep (fun d w => (w.run a d).2) fun d w => (w.run a d).1 = .ok () → P d w

/-- After the write the spool holds no more than the limit and the new payload. -/
def Bounded (a : Agent) (d : Disk) (w : SpoolWrite) : Prop :=
  (spoolSize a (w.run a d).2.tree : Int) ≤ a.maxSpoolSize + w.payload.length

/-- The files that the write will leave are within the limit. -/
def Fits (a : Agent) (d : Disk) (w : SpoolWrite) : Prop :=
  (totalSize d.tree (survivors a d.tree w.timestamp) : Int) ≤ a.maxSpoolSize

theorem bounded_iff_fits {w : SpoolWrite} (h : (w.run a d).1 = .ok ()) :
    Bounded a d w ↔ Fits a d w := by
  have hwritten := wp_play w.env
    (writeToSpool_wp (R := fun _ _ _ => True) (d := d) w.timestamp w.payload w.rands)
    (fun _ _ _ => trivial) h
  have hsize : spoolSize a (w.run a d).2.tree = _ := hwritten.spoolSize
  rw [Bounded, Fits, hsize]
  omega

/-- **The bound holds after every successful write if and only if before it one file is enough**:
what is left of the spool after the oldest file was removed, if it was, is within the limit. -/
theorem spool_bounded_iff (a : Agent) (d : Disk) (writes : List SpoolWrite) :
    EverySuccess a (Bounded a) d writes ↔ EverySuccess a (Fits a) d writes := by
  refine everyStep_congr (I := fun _ => True) (fun _ _ _ _ => trivial) ?_ writes trivial
  exact fun d w _ => imp_congr_right fun h => bounded_iff_fits h

theorem tinyDir_ne : [ascii "spool"] ≠ [] := by decide

def tinyAgent : Agent := ⟨[ascii "spool"], 2, tinyDir_ne⟩

def tinyDisk : Disk := ⟨⟨[([ascii "spool"], .dir 0)], by decide⟩, []⟩

def tinyWrites : List SpoolWrite :=
  [⟨1, [1], [0], fun _ => .good 0⟩, ⟨2, [2], [0], fun _ => .good 0⟩,
    ⟨3, [3, 3], [0], fun _ => .good 0⟩, ⟨4, [4, 4], [0], fun _ => .good 0⟩]

theorem tinyWrites_unbounded : spoolFiles tinyAgent tinyDisk.tree = [] ∧
    ¬ EverySuccess tinyAgent (Bounded tinyAgent) tinyDisk tinyWrites := by
  refine ⟨by decide +kernel, fun h => ?_⟩
  -- three bytes are left when the last write removes one, and it adds two
  have hlast := h.2.2.2.1 (by decide +kernel)
  exact absurd hlast (by unfold Bounded; decide +kernel)

end Prom
