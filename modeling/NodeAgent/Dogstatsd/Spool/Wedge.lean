import NodeAgent.Dogstatsd.Spool.Operations

/-!
# When listing fails for good

`filesLocked` treats an empty batch directory as an error, and only the operation that removes the
last chunk of a batch tries to remove the directory. It ignores the errors of that clean-up, so
one failing call is enough to stop the spool until the next start.

* `listing_recovers` — the spool recovers once no call fails, if the clean-ups of a run succeed
-/

namespace Dogstatsd.CustomSpool

open Infra Prog

variable {R : Choice → FsOp → Disk → Prop} {s : CustomSpool} {d d' : Disk} {t t' : Tree}
  {file : Path} {b : Name}

/-! ## Listing a sound spool -/

theorem batchChunks_of_all (batchDir : Path) : ∀ {chunks : List DirEntry},
    (∀ c ∈ chunks, c.isDir = false ∧ isChunkName c.name = true) →
      ∃ files, batchChunks batchDir chunks = .ok files
  | [], _ => ⟨[], rfl⟩
  | c :: cs, h => by
    obtain ⟨files, hf⟩ := batchChunks_of_all batchDir
      (fun c' hc' => h c' (List.mem_cons_of_mem c hc'))
    obtain ⟨h1, h2⟩ := h c List.mem_cons_self
    exact ⟨_, by rw [batchChunks, h1, h2, hf]; rfl⟩

def NoFault (c : Choice) (_ : FsOp) (_ : Disk) : Prop := c.fails = false

theorem filesLoop_ok (hs : Sound s d.tree) : ∀ (es : List DirEntry) (acc : List Path),
    (∀ e ∈ es, e ∈ d.tree.dirEntries s.dir) →
    wp fsStep NoFault (filesLoop s es acc) (fun r _ => ∃ files, r = .ok files) (fun _ => True) d
  | [], acc, _ => ⟨_, rfl⟩
  | e :: es, acc, hes => by
    have ih := fun acc => filesLoop_ok hs es acc (fun e' he' => hes e' (List.mem_cons_of_mem e he'))
    unfold filesLoop
    split
    · exact ih _
    split
    · next hb =>
      obtain ⟨hdir, hname⟩ := Bool.and_eq_true_iff.mp hb
      obtain ⟨n, hn, hnd⟩ := Tree.mem_dirEntries.mp (hes e List.mem_cons_self)
      obtain ⟨x, rfl⟩ : ∃ x, n = .dir x := by
        cases n with
        | file c y => rw [hdir] at hnd; cases hnd
        | dir x => exact ⟨x, rfl⟩
      refine wp_os trivial fun c hc => ?_
      rw [fsStep_readDir_ok hc hn]
      split
      · next he => cases he
      · next he =>
        have hempty : d.tree.dirEntries (s.dir ++ [e.name]) = [] := Except.ok.inj he
        exact absurd (Tree.dirEntries_eq_nil.mp hempty) (hs.noEmpty e.name x hname hn)
      · next chunks _ he =>
        cases he
        have hall : ∀ chunk ∈ d.tree.dirEntries (s.dir ++ [e.name]),
            chunk.isDir = false ∧ isChunkName chunk.name = true := by
          intro chunk hchunk
          obtain ⟨k, hk, hkd⟩ := Tree.mem_dirEntries.mp hchunk
          obtain ⟨h1, h2⟩ := hs.chunks hname (by simpa using hk)
          exact ⟨hkd ▸ h2, h1⟩
        obtain ⟨files, hf⟩ := batchChunks_of_all (s.dir ++ [e.name]) hall
        rw [hf]
        exact ih _
    · exact ih _

/-- **On a sound spool listing succeeds when no call fails.** -/
theorem filesLocked_ok (hs : Sound s d.tree) :
    wp fsStep NoFault (filesLocked s) (fun r _ => ∃ files, r = .ok files) (fun _ => True) d := by
  obtain ⟨x, hx⟩ := hs.isDir
  refine wp_os trivial fun c hc => ?_
  rw [fsStep_readDir_ok hc hx]
  exact filesLoop_ok hs _ _ (fun _ h => h)

theorem filesLocked_of_sound (hs : Sound s d.tree) (now : Int) :
    run fsStep (Choice.good now) (filesLocked s) d = (.ok (readyFiles s d.tree), d) := by
  have hgood : ∀ op e, NoFault (Choice.good now) op e := fun _ _ => rfl
  obtain ⟨hstate, hfiles⟩ := wp_run hgood (filesLocked_wp (s := s) (d := d))
  obtain ⟨files, hr⟩ := wp_run hgood (filesLocked_ok hs)
  rw [(hfiles files hr).1] at hr
  exact Prod.ext hr hstate

/-! ## The clean-up of an emptied batch -/

/-- The calls that clean up an empty batch directory do not fail. Every other call may. -/
def CleanupWorks (s : CustomSpool) (c : Choice) (op : FsOp) (d : Disk) : Prop :=
  ∀ b x, isBatchName b = true → d.tree.get? (s.dir ++ [b]) = some (.dir x) →
    d.tree.children (s.dir ++ [b]) = [] →
    op = .readDir (s.dir ++ [b]) ∨ op = .remove (s.dir ++ [b]) → c.fails = false

theorem cleanupWorks_of_noFault {c : Choice} {op : FsOp} (h : NoFault c op d) :
    CleanupWorks s c op d := fun _ _ _ _ _ _ => h

theorem Dropped.children_other (h : Dropped s file t t') {n : Name} (hn : isBatchName n = true)
    (hout : ¬ s.dir ++ [n] <+: file) (hpre : ¬ file <+: s.dir ++ [n]) :
    t'.children (s.dir ++ [n]) = [] ↔ t.children (s.dir ++ [n]) = [] := by
  refine children_congr fun m => ?_
  have := h.queue n [m] (isQueueName_of_batch hn)
  rw [if_neg] at this
  · simpa using this
  · intro hc
    rcases List.prefix_or_prefix_of_prefix hc
      (show s.dir ++ [n] <+: s.dir ++ [n, m] from ⟨[m], by simp⟩) with h' | h'
    · exact hpre h'
    · exact hout h'

theorem Dropped.noEmpty_of_ne (h : Dropped s file t t') (hne : NoEmptyBatch s t) {n : Name}
    {x : Int} (hn : isBatchName n = true) (hout : ¬ s.dir ++ [n] <+: file)
    (hx : t'.get? (s.dir ++ [n]) = some (.dir x)) : t'.children (s.dir ++ [n]) ≠ [] := by
  obtain ⟨hpre, hold⟩ := h.get?_some (isQueueName_of_batch hn) hx
  rw [Ne, h.children_other hn hout hpre]
  exact hne n x hn hold

theorem Dropped.exists_dir (h : Dropped s file t t') (hs : ∃ x, t.get? s.dir = some (.dir x)) :
    ∃ x, t'.get? s.dir = some (.dir x) := by
  obtain ⟨x, hx⟩ := hs
  exact ⟨x, h.isDir.trans hx⟩

theorem Dropped.batchDir {b m : Name} {n : Node} (h : Dropped s (s.dir ++ [b, m]) t t')
    (hs : Sound s t) (hb : isBatchName b = true) (hn : t.get? (s.dir ++ [b, m]) = some n) :
    ∃ y, t'.get? (s.dir ++ [b]) = some (.dir y) := by
  obtain ⟨y, hy⟩ := hs.batchDir hn
  have hnot : ¬ s.dir ++ [b, m] <+: s.dir ++ [b] := by
    intro hc
    have := hc.length_le
    simp at this
  exact ⟨y, by rw [h.queue b [] (isQueueName_of_batch hb), if_neg hnot, hy]⟩

theorem sound_of_emptied {b : Name} {y : Int} (hlay : Layout s d.tree)
    (hdir : ∃ x, d.tree.get? s.dir = some (.dir x))
    (hy : d.tree.get? (s.dir ++ [b]) = some (.dir y))
    (hempty : d.tree.children (s.dir ++ [b]) = [])
    (hother : ∀ b' x, isBatchName b' = true → b' ≠ b →
      d.tree.get? (s.dir ++ [b']) = some (.dir x) → d.tree.children (s.dir ++ [b']) ≠ []) :
    Sound s (d.removed (s.dir ++ [b])).tree := by
  have hdrop := erase_dropped hlay.rooted ⟨_, hy, fun _ => hempty⟩
    (show s.dir ++ [b] = s.dir ++ b :: [] from rfl)
  refine ⟨hdrop.layout hlay, hdrop.exists_dir hdir, fun b' x hb' hx => ?_⟩
  obtain ⟨hpre, hold⟩ := hdrop.get?_some (isQueueName_of_batch hb') hx
  have hne : b' ≠ b := by
    rintro rfl
    exact hpre (List.prefix_refl _)
  rw [Ne, Disk.removed_tree, hdrop.children_other hb' (not_prefix_of_ne hne []) hpre]
  exact hother b' x hb' hne hold

/-- **When the clean-up works, the directory of the file is gone or holds a chunk.** -/
theorem dropEmptyBatch_sound (hs : Sound s t) (hfile : isReadyPath s file = true) {n : Node}
    (hn : t.get? file = some n) (h : Dropped s file t d.tree) :
    wp fsStep (CleanupWorks s) (dropEmptyBatch s file) (fun _ d' => Sound s d'.tree)
      (fun _ => True) d := by
  have hdir := h.exists_dir hs.isDir
  have hlay := h.layout hs.toLayout
  unfold dropEmptyBatch
  rcases isReadyPath_iff.mp hfile with ⟨m, rfl, hm⟩ | ⟨b, m, rfl, hb, hm⟩
  · -- a file that lies in no batch
    rw [List.dropLast_concat, if_pos rfl]
    refine ⟨hlay, hdir, fun b x hb hx => h.noEmpty_of_ne hs.noEmpty hb ?_ hx⟩
    intro hc
    rw [List.prefix_append_right_inj, List.cons_prefix_cons] at hc
    rw [hc.1, isLegacyName_not_batch hm] at hb
    cases hb
  · have hlast : (s.dir ++ [b, m]).dropLast = s.dir ++ [b] := by
      rw [show s.dir ++ [b, m] = s.dir ++ [b] ++ [m] from by simp, List.dropLast_concat]
    rw [hlast, if_neg (by simp)]
    have hother : ∀ b' x, isBatchName b' = true → b' ≠ b →
        d.tree.get? (s.dir ++ [b']) = some (.dir x) → d.tree.children (s.dir ++ [b']) ≠ [] := by
      intro b' x hb' hne hx
      exact h.noEmpty_of_ne hs.noEmpty hb' (not_prefix_of_ne hne [m]) hx
    obtain ⟨y, hy⟩ := h.batchDir hs hb hn
    by_cases hempty : d.tree.children (s.dir ++ [b]) = []
    · refine wp_os trivial fun c hc => ?_
      have hok := hc b y hb hy hempty (Or.inl rfl)
      rw [fsStep_readDir_ok hok hy, Tree.dirEntries_eq_nil.mpr hempty]
      refine wp_os trivial fun c hc => ?_
      have hok := hc b y hb hy hempty (Or.inr rfl)
      rw [fsStep_remove_ok hok hy hempty]
      exact sound_of_emptied hlay hdir hy hempty hother
    · have hsound : Sound s d.tree := by
        refine ⟨hlay, hdir, fun b' x hb' hx => ?_⟩
        by_cases hne : b' = b
        · subst hne; exact hempty
        · exact hother b' x hb' hne hx
      refine wp_readDir trivial (fun e => hsound) fun x _ => ?_
      split
      · next he =>
        exact absurd (Tree.dirEntries_eq_nil.mp (Except.ok.inj he)) hempty
      · exact hsound

/-! ## Every operation keeps the spool sound -/

theorem sound_congr (hs : Sound s t) (hroot : t'.Rooted) (hdir : t'.get? s.dir = t.get? s.dir)
    (hq : SameQueue s t t') : Sound s t' := by
  obtain ⟨x, hx⟩ := hs.isDir
  exact ⟨hs.toLayout.congr hroot hq, ⟨x, hdir.trans hx⟩, hs.noEmpty.congr hq⟩

theorem sound_of_pending (hs : Sound s d.tree) (h : Pending s d d') : Sound s d'.tree := by
  obtain ⟨temp, htemp, hsafe⟩ := h
  exact sound_congr hs hsafe.rooted (hsafe.outside _ (dir_not_under temp []))
    (sameQueue_of_safe htemp hsafe)

theorem sound_of_committed {payloads : List Bytes} {temp : Name} (hs : Sound s d.tree)
    (h : Committed s payloads temp b d d') : Sound s d'.tree := by
  refine ⟨h.layout hs.toLayout, ?_, fun b' x hb' hx => ?_⟩
  · obtain ⟨x, hx⟩ := hs.isDir
    exact ⟨x, (h.others _ (dir_not_under temp []) (dir_not_under b [])).trans hx⟩
  · by_cases hbb : b = b'
    · subst hbb
      obtain ⟨c, rest, rfl⟩ := List.exists_cons_of_ne_nil h.nonempty
      obtain ⟨y, hy⟩ := h.chunks.chunk 0 c rfl
      intro hempty
      rw [Tree.children_eq_nil_iff.mp hempty] at hy
      cases hy
    · have hq := isQueueName_of_batch hb'
      rw [Ne, children_congr (fun m => by simpa using h.get?_other hq hbb [m])]
      exact hs.noEmpty b' x hb' ((h.get?_other hq hbb []).symm.trans hx)

theorem sound_of_quarantine_removal (hs : Sound s d.tree) {r : Path} {m : Name}
    (hr : s.quarantineDir ++ [m] <+: r) (hrem : d.tree.Removable r) :
    Sound s (d.removed r).tree := by
  have hout : ∀ q, ¬ s.quarantineDir <+: q → (d.removed r).tree.get? q = d.tree.get? q := by
    intro q hq
    rw [Disk.removed_tree, Tree.get?_erase, if_neg]
    rintro rfl
    exact hq ((List.prefix_append _ _).trans hr)
  refine sound_congr hs (hs.rooted.erase hrem) (hout _ (dir_not_under _ [])) ?_
  exact SameQueue.of_outside (fun _ hb => isQueueName_ne_quarantine hb) hout

theorem remove_sound (hs : Sound s d.tree) (file : Path) :
    wp fsStep (CleanupWorks s) (remove s file) (fun _ d' => Sound s d'.tree)
      (fun _ => True) d := by
  unfold remove
  split
  · exact hs
  next path hpath =>
  obtain ⟨rfl, hready⟩ := validReadyPath_ok hpath
  refine wp_remove trivial (fun e => hs) fun hrem => ?_
  obtain ⟨n, l, hp, _⟩ := isReadyPath_under hready
  have ⟨k, hk, _⟩ := hrem
  refine wp_seq (dropEmptyBatch_sound hs hready hk (erase_dropped hs.rooted hrem hp))
    (fun _ h => h) ?_
  intro _ d1 h1
  exact h1

theorem quarantine_sound (hs : Sound s d.tree) (file : Path) (reason : Bytes) :
    wp fsStep (CleanupWorks s) (quarantine s file reason) (fun _ d' => Sound s d'.tree)
      (fun _ => True) d := by
  unfold quarantine
  split
  · exact hs
  next path hpath =>
  obtain ⟨rfl, hready⟩ := validReadyPath_ok hpath
  refine wp_rename trivial (fun e => hs) fun hren => ?_
  obtain ⟨n, l, hp, _⟩ := isReadyPath_under hready
  obtain ⟨k, hk, _⟩ := hren.source
  refine wp_seq (dropEmptyBatch_sound hs hready hk (move_dropped hs.rooted hren hp))
    (fun _ h => h) ?_
  intro _ d1 h1
  exact h1

/-- **One operation**: whatever else fails, it leaves the spool sound when its clean-up works. -/
theorem sound_of_op (op : SpoolOp) (hs : Sound s d.tree) :
    wp fsStep (CleanupWorks s) (op.prog s) (fun _ d' => Sound s d'.tree) (fun _ => True) d := by
  cases op with
  | putBatch payloads now rands =>
    refine wp_seq (putBatch_wp hs.rooted payloads now rands) (fun _ _ => trivial) ?_
    intro r d' h
    cases r with
    | error e => exact sound_of_pending hs h
    | ok files =>
      obtain ⟨temp, hc, _⟩ := h
      exact sound_of_committed hs hc
  | oldest =>
    refine wp_seq oldest_wp (fun _ _ => trivial) ?_
    rintro r d' ⟨rfl, _⟩
    exact hs
  | stats now =>
    refine wp_seq (statsLocked_wp now) (fun _ _ => trivial) ?_
    rintro r d' rfl
    exact hs
  | remove file => exact wp_seq (remove_sound hs file) (fun _ h => h) fun r d' h => h
  | quarantine file reason =>
    exact wp_seq (quarantine_sound hs file reason) (fun _ h => h) fun r d' h => h
  | maintain now =>
    have hkeep : wp fsStep (CleanupWorks s) (maintain s now) (fun _ d' => Sound s d'.tree)
        (fun _ => True) d := by
      refine maintain_wp now (fun _ _ => trivial) ?_ ?_ hs
      · intro d' file n hmem h' hn _ hrem
        have hready := isReadyPath_of_mem hs.toLayout hmem
        obtain ⟨m, l, hp, _⟩ := isReadyPath_under hready
        exact dropEmptyBatch_sound h' hready hn (erase_dropped h'.rooted hrem hp)
      · intro d r m hr hrem h
        exact sound_of_quarantine_removal h hr hrem
    exact wp_seq hkeep (fun _ h => h) fun r d' h => h

/-- **The spool recovers from failing calls.** In every run that starts with an open and whose
clean-up calls of empty batches do not fail, listing succeeds again once no call fails. -/
theorem listing_recovers {cs : List Choice} {d0 d : Disk} {calls : List SpoolCall}
    (hroot : d0.tree.Rooted)
    (hopen : (exec fsStep (openCustomSpoolWithPolicy s.dir s.maxBytes s.maxAge
      s.maxQuarantineBytes) cs d0).val = some (.ok s))
    (hrun : Runs s (exec fsStep (openCustomSpoolWithPolicy s.dir s.maxBytes s.maxAge
      s.maxQuarantineBytes) cs d0).state calls d)
    (hcond : ∀ call ∈ calls,
      Along fsStep (CleanupWorks s) (call.op.prog s) call.choices call.before) :
    NoEmptyBatch s d.tree ∧
      ∀ now, run fsStep (Choice.good now) (filesLocked s) d = (.ok (readyFiles s d.tree), d) := by
  rw [openCustomSpoolWithPolicy_eq] at hopen hrun
  have hstart := ((wp_exec_some (openChecked_sound hroot) (along_true _ _ _) hopen).2 s rfl).2.1
  have hsound : Sound s d.tree := by
    refine hrun.invariant (I := fun d => Sound s d.tree) hstart ?_
    intro call hmem err hbefore hval
    exact wp_exec_some (sound_of_op call.op hbefore) (hcond call hmem) hval
  exact ⟨hsound.noEmpty, filesLocked_of_sound hsound⟩

/-- A listing that fails, then a batch that is added and removed. -/
theorem listing_recovers_small :
    let d1 := (exec fsStep (SpoolOp.oldest.prog smallSpool) [Choice.bad] smallOpened).state
    let d2 := (exec fsStep ((SpoolOp.putBatch [[1]] 5 [[49]]).prog smallSpool) (calm 20) d1).state
    let d3 := (exec fsStep ((SpoolOp.remove (smallFile 5)).prog smallSpool) (calm 3) d2).state
    NoEmptyBatch smallSpool d3.tree ∧ ∀ now,
      run fsStep (Choice.good now) (filesLocked smallSpool) d3 =
        (.ok (readyFiles smallSpool d3.tree), d3) := by
  have hopen : (exec fsStep (openCustomSpoolWithPolicy smallSpool.dir smallSpool.maxBytes
      smallSpool.maxAge smallSpool.maxQuarantineBytes) (calm 10) ⟨Tree.empty, []⟩).val =
        some (.ok smallSpool) := by decide +kernel
  refine listing_recovers rooted_empty hopen (.step (SpoolOp.remove (smallFile 5)) (calm 3) none
    (.step (SpoolOp.putBatch [[1]] 5 [[49]]) (calm 20) none
      (.step .oldest [Choice.bad] (some (.os .io)) .start ?_) ?_) ?_) ?_
  · decide +kernel
  · decide +kernel
  · decide +kernel
  intro call hmem
  simp only [List.mem_cons, List.not_mem_nil, or_false] at hmem
  rcases hmem with rfl | rfl | rfl
  · exact along_of_choices (fun c _ _ hc _ _ _ _ _ _ => hc) _ _ _ calm_fails
  · exact along_of_choices (fun c _ _ hc _ _ _ _ _ _ => hc) _ _ _ calm_fails
  · refine ⟨?_, trivial⟩
    rintro b x _ _ _ (h | h) <;> simp at h

/-- **One failing `ReadDir` is enough.** The batch is added, its only chunk is removed while the
listing of its directory fails, and from then on `filesLocked` refuses the spool. -/
theorem failed_cleanup_stops_listing :
    let add := SpoolOp.putBatch [[1]] 5 [[49]]
    let take := SpoolOp.remove (smallFile 5)
    let d1 := (exec fsStep (add.prog smallSpool) (calm 20) smallOpened).state
    let d2 := (exec fsStep (take.prog smallSpool) [Choice.good 0, Choice.bad] d1).state
    (exec fsStep (openCustomSpoolWithPolicy smallSpool.dir smallSpool.maxBytes smallSpool.maxAge
      smallSpool.maxQuarantineBytes) (calm 10) ⟨Tree.empty, []⟩).val = some (.ok smallSpool) ∧
    Runs smallSpool smallOpened
      [⟨take, [Choice.good 0, Choice.bad], d1⟩, ⟨add, calm 20, smallOpened⟩] d2 ∧
    (run fsStep (Choice.good 0) (filesLocked smallSpool) d2).1 =
      .error (.committedBatchEmpty (smallSpool.dir ++ [batchName 5 (tempName [49])])) := by
  refine ⟨?_, .step _ _ none (.step _ _ none .start ?_) ?_, ?_⟩ <;> decide +kernel

end Dogstatsd.CustomSpool
