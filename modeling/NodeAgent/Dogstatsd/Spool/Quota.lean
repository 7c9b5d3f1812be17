import Mathlib.Algebra.Order.BigOperators.Group.List
import Mathlib.Algebra.Order.Group.Nat
import NodeAgent.Dogstatsd.Spool.Atomic
import NodeAgent.Dogstatsd.Spool.Recovery

/-!
# The quota over whole histories

`PutBatch` compares the bytes of the ready files with the quota before it makes its first change.
No other operation adds ready files, and neither does a start, wherever they are stopped and
whichever calls fail.

* `Shrinks.usedBytes_le` — files that leave take their bytes with them
* `usedBytes_le_quota` — **the ready files never outgrow the quota**
-/

namespace Dogstatsd.CustomSpool

open Infra Prog

variable {R : Choice → FsOp → Disk → Prop} {s : CustomSpool} {d d' d0 : Disk} {limit : Int}

/-! ## Files that leave -/

/-- Every ready file of `d'` is one of `d`, with the same content. -/
structure Shrinks (s : CustomSpool) (d d' : Disk) : Prop where
  layout : Layout s d'.tree
  kept : ∀ p c, ready s d'.tree p = some c → ready s d.tree p = some c

theorem Shrinks.same (h : Shrinks s d0 d) (hroot : d'.tree.Rooted)
    (hq : SameQueue s d.tree d'.tree) : Shrinks s d0 d' :=
  ⟨h.layout.congr hroot hq, ready_congr hq ▸ h.kept⟩

theorem Shrinks.dropped {p : Path} (h : Shrinks s d0 d) (hd : Dropped s p d.tree d'.tree) :
    Shrinks s d0 d' := by
  refine ⟨hd.layout h.layout, fun r c hr => h.kept r c ?_⟩
  rw [ready] at hr ⊢
  split at hr
  · next hready =>
    obtain ⟨n, l, rfl, hn⟩ := isReadyPath_under hready
    obtain ⟨x, hx⟩ := Tree.content?_eq_some.mp hr
    rw [if_pos hready]
    exact Tree.content?_eq_some.mpr ⟨x, (hd.get?_some hn hx).2⟩
  · cases hr

theorem Shrinks.usedBytes_le (h : Shrinks s d d') (hl : Layout s d.tree) :
    usedBytes s d'.tree ≤ usedBytes s d.tree := by
  have hready : ∀ p ∈ readyFiles s d'.tree, ready s d.tree p = ready s d'.tree p := by
    intro p hp
    obtain ⟨c, hc⟩ := Option.isSome_iff_exists.mp ((mem_readyFiles h.layout).mp hp)
    rw [hc, h.kept p c hc]
  have hsub : readyFiles s d'.tree ⊆ readyFiles s d.tree := by
    intro p hp
    rw [mem_readyFiles hl, hready p hp]
    exact (mem_readyFiles h.layout).mp hp
  have hsum : ((readyFiles s d'.tree).map (fileBytes d.tree)).sum = usedBytes s d'.tree := by
    refine sum_fileBytes_congr fun p hp => ?_
    have := hready p hp
    have hpath := isReadyPath_of_mem h.layout hp
    rwa [ready, ready, if_pos hpath, if_pos hpath] at this
  obtain ⟨l, hperm, hle⟩ := List.subperm_of_subset nodup_readyFiles hsub
  rw [← hsum, ← (hperm.map _).sum_nat]
  exact (hle.map _).sum_le_sum fun _ _ => Nat.zero_le _

/-- Changes of which none commits a payload. -/
theorem shrinks_of_tracks (h : Tracks s [] d d') : Shrinks s d d' := by
  obtain ⟨hl, log, -, hlog⟩ := h
  refine ⟨hl, fun p c => ?_⟩
  rw [hlog]
  clear hlog
  induction log with
  | nil => exact id
  | cons ch log ih =>
    intro hp
    refine ih ?_
    rw [Queue.replay_cons] at hp
    have hwithout : ∀ (q : Queue) r, q.without r p = some c → q p = some c := by
      intro q r hq
      unfold Queue.without at hq
      split at hq
      · cases hq
      · exact hq
    cases ch with
    | removed r => exact hwithout _ r hp
    | renamed r target =>
      rw [Queue.change] at hp
      by_cases htemp : isTempName (base r) = true
      · rwa [if_pos htemp] at hp
      · rw [if_neg htemp] at hp
        exact hwithout _ r hp

/-! ## One step -/

def Within (s : CustomSpool) (limit : Int) (d : Disk) : Prop :=
  Layout s d.tree ∧ (usedBytes s d.tree : Int) ≤ limit

theorem Within.shrinks (h : Within s limit d) (hs : Shrinks s d d') : Within s limit d' :=
  ⟨hs.layout, (Int.ofNat_le.mpr (hs.usedBytes_le h.1)).trans h.2⟩

/-- **Before a batch has passed the check nothing changes.** -/
theorem putBatch_checked (hroot : d.tree.Rooted) (payloads : List Bytes) (now : Int)
    (rands : List Bytes) :
    let Checked := fun d' => d' = d ∨ Sound s d.tree ∧
      (usedBytes s d.tree : Int) + (payloads.map List.length).sum ≤ s.maxBytes
    wp fsStep R (putBatch s payloads now rands) (fun _ => Checked) Checked d := by
  intro Checked
  unfold putBatch
  split
  · exact .inl rfl
  split
  · exact .inl rfl
  refine wp_seq (wp_and (statsLocked_wp now) (statsLocked_sum hroot now)) (fun _ h => .inl h.1) ?_
  rintro r d1 ⟨rfl, hstats⟩
  cases r with
  | error e => exact .inl rfl
  | ok stats =>
    obtain ⟨hs, _, hbytes⟩ := hstats stats rfl
    simp only
    split
    · exact .inl rfl
    next hfits =>
    have hchecked : ∀ d', Checked d' := fun _ => .inr ⟨hs, by omega⟩
    exact wp_of_step (fun _ _ _ _ => hchecked _) _ (hchecked _)

theorem Within.op (h : Within s limit d) (hlimit : s.maxBytes ≤ limit) (op : SpoolOp) :
    wp fsStep R (op.prog s) (fun _ => Within s limit) (Within s limit) d := by
  cases op with
  | putBatch payloads now rands =>
    have hpending : ∀ {d'}, Pending s d d' → Within s limit d' := fun hp =>
      have ht : Tracks s [] d _ := tracks_of_pending h.1 hp
      h.shrinks (shrinks_of_tracks ht)
    -- a committed batch has passed the check, or there was no change at all
    have hcommitted : ∀ {d' temp b}, Committed s payloads temp b d d' → (d' = d ∨ Sound s d.tree ∧
        (usedBytes s d.tree : Int) + (payloads.map List.length).sum ≤ s.maxBytes) →
        Within s limit d' := by
      rintro d' temp b hc (rfl | ⟨hs, hfits⟩)
      · exact h
      · refine ⟨hc.layout h.1, ?_⟩
        rw [hc.usedBytes_eq hs]
        exact_mod_cast hfits.trans hlimit
    refine wp_seq (wp_and (putBatch_wp h.1.rooted payloads now rands)
      (putBatch_checked h.1.rooted payloads now rands)) ?_ ?_
    · rintro t ⟨hp | ⟨temp, hc⟩, hchecked⟩
      · exact hpending hp
      · exact hcommitted hc hchecked
    · rintro r d' ⟨hput, hchecked⟩
      cases r with
      | error e => exact hpending hput
      | ok files =>
        obtain ⟨temp, hc, _⟩ := hput
        exact hcommitted hc hchecked
  | oldest | remove | quarantine | stats | maintain =>
    exact wp_mono (fun _ _ ht => h.shrinks (shrinks_of_tracks ht))
      (fun _ ht => h.shrinks (shrinks_of_tracks ht)) (op_tracks _ h.1)

/-- **A start only lets files go**, those of the batches that it takes for corrupt. -/
theorem openChecked_shrinks (hl : Layout s d.tree) :
    wp fsStep R (openChecked s) (fun _ => Shrinks s d) (Shrinks s d) d := by
  refine wp_seq (mkdirAll_wp (I := Shrinks s d) (by simp [quarantineDir]) ?_ ⟨hl, fun _ _ h => h⟩)
    (fun _ h => h) ?_
  · intro e r m hr hno hpar h
    refine h.same (h.layout.rooted.insert hpar (by simp [hno])) fun n l hn => ?_
    rw [Disk.put_tree, Tree.get?_insert, if_neg]
    rintro rfl
    rw [quarantineDir, List.prefix_append_right_inj, List.cons_prefix_cons] at hr
    exact isQueueName_ne_quarantine hn hr.1.symm
  rintro r d1 ⟨h1, _⟩
  cases r with
  | error e => exact h1
  | ok u =>
    have hrecover : wp fsStep R (recoverStartup s) (fun _ => Shrinks s d) (Shrinks s d) d1 := by
      refine wp_readDir h1 (fun e => h1) fun x hx => ?_
      refine wp_mono (fun _ _ h => h.1) (fun _ h => h) (recoverLoop_wp _ (Shrinks s d) ?_ ?_ d1 h1)
      · intro e temp r htemp hr hrem h
        refine h.same (h.layout.rooted.erase hrem) ?_
        refine SameQueue.of_outside (fun _ hb => isQueueName_ne_temp hb htemp) fun q hq => ?_
        rw [Disk.removed_tree, Tree.get?_erase, if_neg]
        rintro rfl
        exact hq hr
      · exact fun e b _ _ hmove h => h.dropped (move_dropped h.layout.rooted hmove rfl)
    refine wp_seq hrecover (fun _ h => h) fun r d2 h2 => ?_
    cases r <;> exact h2

/-! ## Histories -/

/-- A start of the spool, or an operation on it. -/
inductive SpoolStep where
  | start
  | call (op : SpoolOp)

def SpoolStep.prog (s : CustomSpool) : SpoolStep → FsProg Unit
  | .start => do
    let _ ← openCustomSpoolWithPolicy s.dir s.maxBytes s.maxAge s.maxQuarantineBytes
    .ret ()
  | .call op => do
    let _ ← op.prog s
    .ret ()

/-- The disk after a list of steps. A step is stopped where its choices are used up. -/
def diskAfter (s : CustomSpool) (d : Disk) (steps : List (SpoolStep × List Choice)) : Disk :=
  steps.foldl (fun d step => (exec fsStep (step.1.prog s) step.2 d).state) d

theorem Within.step (h : Within s limit d) (hlimit : s.maxBytes ≤ limit) (step : SpoolStep)
    (cs : List Choice) : Within s limit (exec fsStep (step.prog s) cs d).state := by
  have hwp : wp fsStep (fun _ _ _ => True) (step.prog s) (fun _ => Within s limit)
      (Within s limit) d := by
    cases step with
    | call op => exact wp_seq (h.op hlimit op) (fun _ h => h) fun _ _ h => h
    | start =>
      unfold SpoolStep.prog
      rw [openCustomSpoolWithPolicy_eq]
      exact wp_seq (openChecked_shrinks h.1) (fun _ hs => h.shrinks hs) fun _ _ hs => h.shrinks hs
  exact wp_exec_state hwp (along_true _ _ _) (fun _ _ h => h) fun _ h => h

/-- **The ready files never outgrow the quota**, over every sequence of starts and operations,
whichever calls fail and wherever each of them is stopped. A spool that is above the quota to begin
with does not grow. -/
theorem usedBytes_le_quota (hl : Layout s d0.tree) (steps : List (SpoolStep × List Choice)) :
    (usedBytes s (diskAfter s d0 steps).tree : Int) ≤
      max (usedBytes s d0.tree : Int) s.maxBytes := by
  suffices hrun : ∀ d, Within s (max (usedBytes s d0.tree : Int) s.maxBytes) d →
      Within s (max (usedBytes s d0.tree : Int) s.maxBytes) (diskAfter s d steps) from
    (hrun d0 ⟨hl, le_max_left _ _⟩).2
  induction steps with
  | nil => exact fun _ h => h
  | cons step steps ih => exact fun d h => ih _ (h.step (le_max_right _ _) step.1 step.2)

/-- The first put is stopped right after its rename, and the second one is too large. -/
theorem usedBytes_le_quota_small :
    let steps : List (SpoolStep × List Choice) := [(.start, calm 10),
      (.call (.putBatch [[1]] 5 [[49]]), calm 10), (.start, calm 20),
      (.call (.putBatch [List.replicate 1000 2] 6 [[50]]), calm 20)]
    let d := diskAfter smallSpool ⟨Tree.empty, []⟩ steps
    usedBytes smallSpool d.tree = 1 ∧
      (usedBytes smallSpool d.tree : Int) ≤ max (usedBytes smallSpool Tree.empty : Int) 1000 :=
  ⟨by decide +kernel, usedBytes_le_quota
    ⟨rooted_empty, fun _ hn => by cases hn⟩ _⟩

end Dogstatsd.CustomSpool
