import NodeAgent.Dogstatsd.Spool.Startup

/-!
# Runs of the spool

How the queue changes when something leaves it (`Dropped`), and sequences of operations on one
spool. An operation of a run returns; any of its calls may fail.

* `Runs` — a sequence of calls of operations
-/

namespace Dogstatsd.CustomSpool

open Infra Prog

variable {s : CustomSpool} {t t' : Tree} {p file r : Path} {b m : Name}

/-! ## Leaving the queue -/

/-- What is at or under `p` is gone, and the rest of the queue is as before. -/
structure Dropped (s : CustomSpool) (p : Path) (t t' : Tree) : Prop where
  rooted : t'.Rooted
  isDir : t'.get? s.dir = t.get? s.dir
  queue : ∀ n l, isQueueName n = true →
    t'.get? (s.dir ++ n :: l) = if p <+: s.dir ++ n :: l then none else t.get? (s.dir ++ n :: l)

theorem erase_dropped {n : Name} {l : Path} (hroot : t.Rooted) (h : t.Removable p)
    (hp : p = s.dir ++ n :: l) : Dropped s p t (t.erase p) := by
  refine ⟨hroot.erase h, ?_, fun n' l' _ => ?_⟩
  · rw [Tree.get?_erase, if_neg]
    intro he
    exact dir_not_under n l (by rw [← hp, ← he])
  · rw [Tree.get?_erase]
    by_cases hpre : p <+: s.dir ++ n' :: l'
    · rw [if_pos hpre]
      split
      · rfl
      · next hne =>
        obtain ⟨k, hk⟩ := hpre
        rw [← hk] at hne ⊢
        exact hroot.below (by simp [hp]) h (by simpa using hne)
    · rw [if_neg hpre, if_neg]
      exact fun he => hpre (he ▸ List.prefix_refl _)

theorem move_dropped {n : Name} {l q : Path} (hroot : t.Rooted)
    (h : t.Renamable p (s.quarantineDir ++ q)) (hp : p = s.dir ++ n :: l) :
    Dropped s p t (t.move p (s.quarantineDir ++ q)) := by
  refine ⟨hroot.move h, ?_, fun n' l' hn' => ?_⟩
  · rw [Tree.get?_move h.apart.1 h.apart.2, if_neg, if_neg]
    · rw [hp]; exact dir_not_under n l
    · rw [quarantineDir, List.append_assoc]; exact dir_not_under _ _
  · exact get?_move_quarantine h.apart (isQueueName_ne_quarantine hn') l'

theorem Dropped.get?_some {k : Node} {n : Name} {l : Path} (h : Dropped s p t t')
    (hn : isQueueName n = true) (hk : t'.get? (s.dir ++ n :: l) = some k) :
    ¬ p <+: s.dir ++ n :: l ∧ t.get? (s.dir ++ n :: l) = some k := by
  rw [h.queue n l hn] at hk
  split at hk
  · cases hk
  · next hpre => exact ⟨hpre, hk⟩

theorem Dropped.layout (h : Dropped s p t t') (hl : Layout s t) : Layout s t' :=
  ⟨h.rooted, fun hb hn => hl.chunks hb (h.get?_some (isQueueName_of_batch hb) hn).2⟩

theorem isReadyPath_eq_of_under (hf : isReadyPath s file = true) (hr : isReadyPath s r = true)
    (h : file <+: r) : r = file := by
  rcases isReadyPath_iff.mp hf with ⟨m, rfl, hm⟩ | ⟨b, m, rfl, hb, hm⟩ <;>
    rcases isReadyPath_iff.mp hr with ⟨m', rfl, hm'⟩ | ⟨b', m', rfl, hb', hm'⟩
  · exact (h.eq_of_length (by simp)).symm
  · rw [List.prefix_append_right_inj, List.cons_prefix_cons] at h
    rw [h.1] at hm
    rw [isLegacyName_not_batch hm] at hb'
    cases hb'
  · have := h.length_le
    simp at this
  · exact (h.eq_of_length (by simp)).symm

theorem Dropped.ready_eq (h : Dropped s file t t') (hf : isReadyPath s file = true) :
    ready s t' r = if r = file then none else ready s t r := by
  by_cases hr : isReadyPath s r = true
  · obtain ⟨n, l, hrn, hn⟩ := isReadyPath_under hr
    have hq := h.queue n l hn
    rw [← hrn] at hq
    rw [ready, ready, if_pos hr, if_pos hr, Tree.content?, hq]
    by_cases hrf : r = file
    · rw [if_pos hrf, if_pos (hrf ▸ List.prefix_refl _)]
    · rw [if_neg hrf, if_neg (fun hc => hrf (isReadyPath_eq_of_under hf hr hc)), Tree.content?]
  · rw [ready, ready, if_neg hr, if_neg hr, ite_self]

theorem Dropped.ready_of_empty (h : Dropped s (s.dir ++ [b]) t t') (hb : isBatchName b = true)
    (hempty : ∀ m, t.get? (s.dir ++ [b, m]) = none) : ready s t' r = ready s t r := by
  by_cases hr : isReadyPath s r = true
  · obtain ⟨n, l, hrn, hn⟩ := isReadyPath_under hr
    have hq := h.queue n l hn
    rw [← hrn] at hq
    rw [ready, ready, if_pos hr, if_pos hr]
    refine Tree.content?_congr ?_
    by_cases hpre : s.dir ++ [b] <+: r
    · rw [hq, if_pos hpre]
      -- a ready path under the directory of a batch is one of its chunks
      rcases isReadyPath_iff.mp hr with ⟨m, rfl, hm⟩ | ⟨b', m, rfl, hb', hm⟩
      · rw [List.prefix_append_right_inj, List.cons_prefix_cons] at hpre
        rw [← hpre.1] at hm
        rw [isLegacyName_not_batch hm] at hb
        cases hb
      · rw [List.prefix_append_right_inj, List.cons_prefix_cons] at hpre
        rw [← hpre.1, hempty]
    · rw [hq, if_neg hpre]
  · rw [ready, ready, if_neg hr, if_neg hr]

variable {d d' : Disk}

theorem isReadyPath_dropLast (h : isReadyPath s file = true) (hne : file.dropLast ≠ s.dir) :
    ∃ b m, file = s.dir ++ [b, m] ∧ file.dropLast = s.dir ++ [b] ∧ isBatchName b = true := by
  rcases isReadyPath_iff.mp h with ⟨m, rfl, _⟩ | ⟨b, m, rfl, hb, _⟩
  · exact absurd List.dropLast_concat hne
  · refine ⟨b, m, rfl, ?_, hb⟩
    rw [show s.dir ++ [b, m] = s.dir ++ [b] ++ [m] from by simp, List.dropLast_concat]

theorem Swept.ready_eq (h : Swept s file d d') (hd : d.tree.Rooted)
    (hfile : isReadyPath s file = true) : ready s d'.tree r = ready s d.tree r := by
  rcases h with rfl | ⟨hne, hrem, rfl⟩
  · rfl
  · obtain ⟨b, m, _, hlast, hb⟩ := isReadyPath_dropLast hfile hne
    rw [hlast] at hrem ⊢
    refine (erase_dropped hd hrem rfl).ready_of_empty hb fun m => ?_
    have := hd.below (by simp) hrem (l := [m]) (by simp)
    simpa using this

theorem Swept.get?_eq (h : Swept s file d d') (hfile : isReadyPath s file = true)
    (hr : ∀ b, isBatchName b = true → r ≠ s.dir ++ [b]) : d'.tree.get? r = d.tree.get? r := by
  rcases h with rfl | ⟨hne, _, rfl⟩
  · rfl
  · obtain ⟨b, m, _, hlast, hb⟩ := isReadyPath_dropLast hfile hne
    rw [hlast, Disk.removed_tree, Tree.get?_erase, if_neg (hr b hb)]

/-! ## Entering the queue -/

def batchContent (batchDir : Path) (payloads : List Bytes) (p : Path) : Option Bytes :=
  ((createdFiles batchDir payloads).zip payloads).lookup p

theorem mem_createdFiles_zip {batchDir : Path} {payloads : List Bytes} {c : Bytes} :
    (p, c) ∈ (createdFiles batchDir payloads).zip payloads ↔
      ∃ i, payloads[i]? = some c ∧ p = batchDir ++ [chunkName i] := by
  simp only [createdFiles, List.mem_iff_getElem?, List.getElem?_zip_eq_some, List.getElem?_map,
    Option.map_eq_some_iff]
  constructor
  · rintro ⟨i, ⟨j, hj, rfl⟩, hc⟩
    obtain ⟨hlt, hj⟩ := List.getElem?_eq_some_iff.mp hj
    rw [List.getElem_range] at hj
    exact ⟨i, hc, by rw [← hj]⟩
  · rintro ⟨i, hi, rfl⟩
    have hlt := (List.getElem?_eq_some_iff.mp hi).1
    exact ⟨i, ⟨i, by simp [hlt], rfl⟩, hi⟩

variable {payloads : List Bytes} {temp : Name}

theorem sameQueue_of_safe (htemp : isTempName temp = true)
    (h : Disk.Safe (s.dir ++ [temp]) d d') : SameQueue s d.tree d'.tree :=
  SameQueue.of_outside (fun _ hb => isQueueName_ne_temp hb htemp) h.outside

theorem Committed.get?_other (h : Committed s payloads temp b d d') {n : Name}
    (hn : isQueueName n = true) (hne : b ≠ n) (l : Path) :
    d'.tree.get? (s.dir ++ n :: l) = d.tree.get? (s.dir ++ n :: l) :=
  h.others _ (not_prefix_of_ne (isQueueName_ne_temp hn h.isTemp) l) (not_prefix_of_ne hne l)

theorem Committed.get?_batch (h : Committed s payloads temp b d d') {n : Node}
    (hn : d'.tree.get? (s.dir ++ [b, m]) = some n) :
    ∃ i c x, payloads[i]? = some c ∧ m = chunkName i ∧ n = .file c x := by
  rw [show s.dir ++ [b, m] = s.dir ++ [b] ++ [m] from by simp] at hn
  obtain ⟨i, hi, rfl⟩ := h.chunks.only m n hn
  obtain ⟨x, hx⟩ := h.chunks.chunk i _ (List.getElem?_eq_getElem hi)
  rw [hn, Option.some.injEq] at hx
  exact ⟨i, _, x, List.getElem?_eq_getElem hi, rfl, hx⟩

theorem Committed.layout (h : Committed s payloads temp b d d') (hl : Layout s d.tree) :
    Layout s d'.tree := by
  refine ⟨h.rooted, fun {b' m n} hb' hn => ?_⟩
  by_cases hbb : b = b'
  · subst hbb
    obtain ⟨i, c, x, _, rfl, rfl⟩ := h.get?_batch hn
    exact ⟨isChunkName_chunkName i, rfl⟩
  · rw [h.get?_other (isQueueName_of_batch hb') hbb] at hn
    exact hl.chunks hb' hn

/-- **A committed batch adds its chunks to the ready files, and nothing else.** -/
theorem Committed.ready_eq (h : Committed s payloads temp b d d') (hl : Layout s d.tree) :
    ready s d'.tree r = (batchContent (s.dir ++ [b]) payloads r).or (ready s d.tree r) := by
  cases hc : batchContent (s.dir ++ [b]) payloads r with
  | some c =>
    have hmem : (r, c) ∈ (createdFiles (s.dir ++ [b]) payloads).zip payloads := by
      obtain ⟨l1, l2, he, _⟩ := List.lookup_eq_some_iff.mp hc
      rw [he]
      simp
    obtain ⟨i, hi, rfl⟩ := mem_createdFiles_zip.mp hmem
    obtain ⟨x, hx⟩ := h.chunks.chunk i c hi
    have hready : isReadyPath s (s.dir ++ [b] ++ [chunkName i]) = true := by
      rw [List.append_assoc]
      exact isReadyPath_chunk h.isBatch (isChunkName_chunkName i)
    rw [ready, if_pos hready, Tree.content?_eq_some.mpr ⟨x, hx⟩]
    rfl
  | none =>
    rw [Option.none_or]
    by_cases hr : isReadyPath s r = true
    · rw [ready, ready, if_pos hr, if_pos hr]
      obtain ⟨n, l, rfl, hn⟩ := isReadyPath_under hr
      by_cases hbn : b = n
      · subst hbn
        -- nothing was under this name before, and no chunk is at this path now
        have hold : d.tree.get? (s.dir ++ b :: l) = none := by
          cases l with
          | nil => exact h.fresh
          | cons y ys =>
            have := hl.rooted.get?_none (p := s.dir ++ [b]) (by simp) (by simp [h.fresh])
              (y :: ys) (by simp)
            simpa using this
        have hnew : d'.tree.content? (s.dir ++ b :: l) = none := by
          rw [Option.eq_none_iff_forall_ne_some]
          intro c hcc
          obtain ⟨x, hx⟩ := Tree.content?_eq_some.mp hcc
          rcases isReadyPath_iff.mp hr with ⟨m, he, hm⟩ | ⟨b', m, he, hb', hm⟩
          · obtain ⟨rfl, rfl⟩ : b = m ∧ l = [] := by simpa using he
            have := h.isBatch
            rw [isLegacyName_not_batch hm] at this
            cases this
          · obtain ⟨rfl, rfl⟩ : b = b' ∧ l = [m] := by simpa using he
            obtain ⟨i, c', y, hi, rfl, hy⟩ := h.get?_batch hx
            have hmem : (s.dir ++ [b] ++ [chunkName i], c') ∈
                (createdFiles (s.dir ++ [b]) payloads).zip payloads :=
              mem_createdFiles_zip.mpr ⟨i, hi, rfl⟩
            rw [batchContent, List.lookup_eq_none_iff] at hc
            have := hc _ hmem
            simp at this
        rw [hnew, Tree.content?, hold]
      · exact Tree.content?_congr (h.get?_other hn hbn l)
    · rw [ready, ready, if_neg hr, if_neg hr]

inductive SpoolOp where
  | putBatch (payloads : List Bytes) (now : Int) (rands : List Bytes)
  | oldest
  | remove (file : Path)
  | quarantine (file : Path) (reason : Bytes)
  | stats (now : Int)
  | maintain (now : Int)

def errorOf {α : Type} : Except SpoolError α → Option SpoolError
  | .ok _ => none
  | .error e => some e

/-- The operation as a program that returns its error. -/
def SpoolOp.prog (s : CustomSpool) : SpoolOp → FsProg (Option SpoolError)
  | .putBatch payloads now rands => do
    let r ← CustomSpool.putBatch s payloads now rands
    .ret (errorOf r)
  | .oldest => do
    let r ← CustomSpool.oldest s
    .ret (errorOf r)
  | .remove file => do
    let r ← CustomSpool.remove s file
    .ret (errorOf r)
  | .quarantine file reason => do
    let r ← CustomSpool.quarantine s file reason
    .ret (errorOf r)
  | .stats now => do
    let r ← statsLocked s now
    .ret (errorOf r)
  | .maintain now => do
    let r ← CustomSpool.maintain s now
    .ret r.2

/-- A call of an operation: the disk before it and the choices of the environment. -/
structure SpoolCall where
  op : SpoolOp
  choices : List Choice
  before : Disk

def SpoolCall.outcome (s : CustomSpool) (call : SpoolCall) :
    Outcome (Option SpoolError) Disk Choice :=
  exec fsStep (call.op.prog s) call.choices call.before

/-- A run from `d` to `d'` with the calls it made, latest first. Every call returns, with an error
or not. -/
inductive Runs (s : CustomSpool) (d : Disk) : List SpoolCall → Disk → Prop
  | start : Runs s d [] d
  | step {calls : List SpoolCall} {d1 : Disk} (op : SpoolOp) (cs : List Choice)
      (err : Option SpoolError) (earlier : Runs s d calls d1)
      (returned : (exec fsStep (op.prog s) cs d1).val = some err) :
      Runs s d (⟨op, cs, d1⟩ :: calls) (exec fsStep (op.prog s) cs d1).state

/-- **What every call keeps holds after every run.** -/
theorem Runs.invariant {I : Disk → Prop} {calls : List SpoolCall} (h : Runs s d calls d')
    (hd : I d) (hstep : ∀ call ∈ calls, ∀ err, I call.before →
      (call.outcome s).val = some err → I (call.outcome s).state) : I d' := by
  induction h with
  | start => exact hd
  | step op cs err _ hr ih =>
    refine hstep ⟨op, cs, _⟩ List.mem_cons_self err (ih fun c hc => hstep c ?_) hr
    exact List.mem_cons_of_mem _ hc

theorem Runs.rooted {calls : List SpoolCall} (h : Runs s d calls d') (hd : d.tree.Rooted) :
    d'.tree.Rooted := by
  refine h.invariant (I := fun d => d.tree.Rooted) hd ?_
  exact fun call _ _ hbefore _ => exec_rooted _ _ hbefore

/-! ## A small spool -/

def smallSpool : CustomSpool :=
  ⟨[ascii "spool"], 1000, 10, 100, by decide, by decide, by decide, by decide⟩

/-- The first payload of a batch that is put at this time. -/
def smallFile (putTime : Int) : Path :=
  smallSpool.dir ++ [batchName putTime (tempName [49]), chunkName 0]

/-- `n` calls at time 0 that do not fail. -/
def calm (n : Nat) : List Choice := List.replicate n (Choice.good 0)

theorem calm_fails {n : Nat} : ∀ c ∈ calm n, c.fails = false := by
  intro c hc
  rw [List.eq_of_mem_replicate hc]
  rfl

def smallOpened : Disk := (exec fsStep (openChecked smallSpool) (calm 10) ⟨Tree.empty, []⟩).state

/-- One batch is committed. -/
def oneBatch : Disk :=
  (exec fsStep ((SpoolOp.putBatch [[1]] 5 [[49]]).prog smallSpool) (calm 20) smallOpened).state

theorem rooted_empty : Tree.empty.Rooted := by
  intro p m n _ h
  cases h

theorem rooted_smallOpened : smallOpened.tree.Rooted := exec_rooted _ _ rooted_empty

end Dogstatsd.CustomSpool
