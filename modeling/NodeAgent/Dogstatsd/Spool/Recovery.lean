import NodeAgent.Dogstatsd.Spool.Wedge

/-!
# Crash recovery

The queue that a spool stands for: a batch enters it when its directory is renamed, and a payload
leaves it when its file is removed or renamed away. The journal of the disk says which of these took
place.

* `op_tracks` — at every point of every operation the ready files are the queue
* `recovery_restores_queue` — **a start finds exactly the queue**, if it lists the whole batches
-/

namespace Dogstatsd.CustomSpool

open Infra Prog

variable {R : Choice → FsOp → Disk → Prop} {s s' : CustomSpool} {d d' d0 : Disk} {file p : Path}
  {b : Name} {payloads : List Bytes}

/-! ## The queue -/

/-- The payloads that wait to be sent, by path. -/
abbrev Queue := Path → Option Bytes

namespace Queue

def without (q : Queue) (p : Path) : Queue := fun r => if r = p then none else q r

def commit (q : Queue) (batchDir : Path) (payloads : List Bytes) : Queue :=
  fun r => (batchContent batchDir payloads r).or (q r)

/-- What a change means for the queue. Only `PutBatch` renames a temporary directory. -/
def change (payloads : List Bytes) (q : Queue) : Change → Queue
  | .removed p => q.without p
  | .renamed p target => if isTempName (base p) then q.commit target payloads else q.without p

def replay (payloads : List Bytes) (q : Queue) (log : List Change) : Queue :=
  log.foldr (fun ch q => q.change payloads ch) q

theorem without_of_none {q : Queue} (h : q p = none) : q.without p = q := by
  funext r
  unfold without
  split
  · next he => rw [he, h]
  · rfl

theorem replay_cons (q : Queue) (ch : Change) (log : List Change) :
    q.replay payloads (ch :: log) = (q.replay payloads log).change payloads ch := rfl

theorem replay_append (q : Queue) (l l' : List Change) :
    q.replay payloads (l ++ l') = (q.replay payloads l').replay payloads l :=
  List.foldr_append

theorem replay_removals {q : Queue} {log : List Change}
    (h : ∀ ch ∈ log, ∃ r, q r = none ∧ ch = .removed r) : q.replay payloads log = q := by
  induction log with
  | nil => rfl
  | cons ch log ih =>
    obtain ⟨r, hr, rfl⟩ := h ch List.mem_cons_self
    have hrest := ih fun ch' hch' => h ch' (List.mem_cons_of_mem _ hch')
    rw [replay_cons, hrest]
    exact without_of_none hr

end Queue

/-! ## Every operation keeps the ready files and the queue together -/

/-- The ready files of `d'` are those of `d` after the changes in between. -/
structure Tracks (s : CustomSpool) (payloads : List Bytes) (d d' : Disk) : Prop where
  layout : Layout s d'.tree
  log : ∃ log, d'.journal = log ++ d.journal ∧
    ready s d'.tree = Queue.replay payloads (ready s d.tree) log

theorem Tracks.refl (h : Layout s d.tree) : Tracks s payloads d d := ⟨h, [], rfl, rfl⟩

theorem Tracks.step (h : Tracks s payloads d0 d) (log : List Change) (hl : Layout s d'.tree)
    (hlog : d'.journal = log ++ d.journal)
    (hready : ready s d'.tree = Queue.replay payloads (ready s d.tree) log) :
    Tracks s payloads d0 d' := by
  obtain ⟨l, hl', hr⟩ := h.log
  refine ⟨hl, log ++ l, by rw [hlog, hl', List.append_assoc], ?_⟩
  rw [hready, hr, Queue.replay_append]

theorem tracks_of_pending (hl : Layout s d.tree) (h : Pending s d d') :
    Tracks s payloads d d' := by
  obtain ⟨temp, htemp, hsafe⟩ := h
  have hq := sameQueue_of_safe htemp hsafe
  obtain ⟨log, hlog, hall⟩ := hsafe.journal
  refine ⟨hl.congr hsafe.rooted hq, log, hlog, ?_⟩
  rw [ready_congr hq, Queue.replay_removals]
  intro ch hch
  obtain ⟨r, hr, rfl⟩ := hall ch hch
  refine ⟨r, ready_none ?_ _, rfl⟩
  exact isReadyPath_outside (fun _ hb => isQueueName_ne_temp hb htemp) hr

theorem tracks_of_committed {temp : Name} (hl : Layout s d.tree)
    (h : Committed s payloads temp b d d') : Tracks s payloads d d' := by
  obtain ⟨l, hlog, hall⟩ := h.journal
  refine ⟨h.layout hl, .renamed (s.dir ++ [temp]) (s.dir ++ [b]) :: l, hlog, ?_⟩
  have hl' : Queue.replay payloads (ready s d.tree) l = ready s d.tree := by
    refine Queue.replay_removals fun ch hch => ?_
    obtain ⟨r, hr, rfl⟩ := hall ch hch
    refine ⟨r, ready_none ?_ _, rfl⟩
    exact isReadyPath_outside (fun _ hb => isQueueName_ne_temp hb h.isTemp) hr
  have hbase : base (s.dir ++ [temp]) = temp := by simp [base]
  rw [Queue.replay_cons, hl', Queue.change, hbase, if_pos h.isTemp]
  funext r
  exact h.ready_eq hl

theorem Tracks.swept (h : Tracks s payloads d0 d) (hfile : isReadyPath s file = true)
    (hs : Swept s file d d') : Tracks s payloads d0 d' := by
  have hready := fun r => hs.ready_eq (r := r) h.layout.rooted hfile
  rcases hs with rfl | ⟨hne, hrem, rfl⟩
  · exact h
  · obtain ⟨b, m, _, hlast, hb⟩ := isReadyPath_dropLast hfile hne
    rw [hlast] at hrem hready ⊢
    refine h.step [.removed (s.dir ++ [b])] ?_ rfl ?_
    · exact (erase_dropped h.layout.rooted hrem rfl).layout h.layout
    · show _ = Queue.without (ready s d.tree) (s.dir ++ [b])
      rw [Queue.without_of_none (ready_none (isReadyPath_batchDir hb) _)]
      exact funext hready

theorem Tracks.dropped (h : Tracks s payloads d0 d) (hfile : isReadyPath s file = true)
    (hdrop : Dropped s file d.tree d'.tree) {ch : Change} (hlog : d'.journal = ch :: d.journal)
    (hch : ∀ q : Queue, q.change payloads ch = q.without file) : Tracks s payloads d0 d' := by
  refine h.step [ch] (hdrop.layout h.layout) hlog ?_
  show _ = Queue.change payloads (ready s d.tree) ch
  rw [hch]
  funext r
  exact hdrop.ready_eq hfile

theorem base_not_temp (hfile : isReadyPath s file = true) : isTempName (base file) = false := by
  rw [Bool.eq_false_iff]
  intro ht
  have hhead := isTempName_head ht
  rcases isReadyPath_iff.mp hfile with ⟨m, rfl, hm⟩ | ⟨b, m, rfl, _, hm⟩
  · have hb : base (s.dir ++ [m]) = m := by simp [base]
    rw [hb, isLegacyName_head hm] at hhead
    simp at hhead
  · have hb : base (s.dir ++ [b, m]) = m := by simp [base]
    rw [hb, isChunkName_head hm] at hhead
    simp at hhead

theorem tracks_of_taken (hl : Layout s d.tree) (h : Taken s file d d') :
    Tracks s payloads d d' := by
  obtain ⟨hready, hrem, hsweep⟩ := h
  obtain ⟨n, l, hp, _⟩ := isReadyPath_under hready
  have h1 : Tracks s payloads d (d.removed file) :=
    (Tracks.refl hl).dropped hready (erase_dropped hl.rooted hrem hp) rfl (fun _ => rfl)
  exact h1.swept hready hsweep

theorem tracks_of_shelved {reason : Bytes} (hl : Layout s d.tree)
    (h : Shelved s file reason d d') : Tracks s payloads d d' := by
  obtain ⟨hready, hren, hsweep⟩ := h
  obtain ⟨n, l, hp, _⟩ := isReadyPath_under hready
  have h1 : Tracks s payloads d (d.renamed file (destination s file reason)) := by
    refine (Tracks.refl hl).dropped hready (move_dropped hl.rooted hren hp) rfl fun q => ?_
    rw [Queue.change, if_neg (by simp [base_not_temp hready])]
  exact h1.swept hready hsweep

theorem Tracks.quarantine_removal (h : Tracks s payloads d0 d) {r : Path} {m : Name}
    (hr : s.quarantineDir ++ [m] <+: r) (hrem : d.tree.Removable r) :
    Tracks s payloads d0 (d.removed r) := by
  have hq : SameQueue s d.tree (d.removed r).tree := by
    refine SameQueue.of_outside (fun _ hb => isQueueName_ne_quarantine hb) fun q hq => ?_
    rw [Disk.removed_tree, Tree.get?_erase, if_neg]
    rintro rfl
    exact hq ((List.prefix_append _ _).trans hr)
  refine h.step [.removed r] (h.layout.congr (h.layout.rooted.erase hrem) hq) rfl ?_
  show _ = Queue.without (ready s d.tree) r
  rw [ready_congr hq, Queue.without_of_none (ready_none ?_ _)]
  refine isReadyPath_outside (fun _ hb => isQueueName_ne_quarantine hb) ?_
  exact (List.prefix_append _ _).trans hr

def SpoolOp.batch : SpoolOp → List Bytes
  | .putBatch payloads _ _ => payloads
  | _ => []

/-- **At every point of an operation**, wherever it is stopped and whichever calls fail, the ready
files are the queue. -/
theorem op_tracks (op : SpoolOp) (hl : Layout s d.tree) :
    wp fsStep R (op.prog s) (fun _ => Tracks s op.batch d) (Tracks s op.batch d) d := by
  have hrefl : ∀ ps, Tracks s ps d d := fun ps => Tracks.refl hl
  cases op with
  | putBatch payloads now rands =>
    refine wp_seq (putBatch_wp hl.rooted payloads now rands) ?_ ?_
    · rintro t (h | ⟨temp, h⟩)
      · exact tracks_of_pending hl h
      · exact tracks_of_committed hl h
    · intro r d' h
      cases r with
      | error e => exact tracks_of_pending hl h
      | ok files =>
        obtain ⟨temp, hc, _⟩ := h
        exact tracks_of_committed hl hc
  | oldest =>
    refine wp_seq oldest_wp (by rintro t rfl; exact hrefl _) ?_
    rintro r d' ⟨rfl, _⟩
    exact hrefl _
  | stats now =>
    refine wp_seq (statsLocked_wp now) (by rintro t rfl; exact hrefl _) ?_
    rintro r d' rfl
    exact hrefl _
  | remove file =>
    refine wp_seq (remove_wp file) ?_ ?_
    · rintro t (rfl | h)
      · exact hrefl _
      · exact tracks_of_taken hl h
    · intro r d' h
      cases r with
      | error e => obtain rfl : d' = d := h; exact hrefl _
      | ok u => exact tracks_of_taken hl h
  | quarantine file reason =>
    refine wp_seq (quarantine_wp file reason) ?_ ?_
    · rintro t (rfl | h)
      · exact hrefl _
      · exact tracks_of_shelved hl h
    · intro r d' h
      cases r with
      | error e => obtain rfl : d' = d := h; exact hrefl _
      | ok dest => exact tracks_of_shelved hl h.2
  | maintain now =>
    have hkeep : wp fsStep R (maintain s now) (fun _ => Tracks s [] d) (Tracks s [] d) d := by
      refine maintain_wp now (fun _ h => h) ?_ (fun e r m hr hrem h => h.quarantine_removal hr hrem)
        (hrefl [])
      intro e file n hmem h _ _ hrem
      have hready := isReadyPath_of_mem hl hmem
      obtain ⟨m, l, hp, _⟩ := isReadyPath_under hready
      have h1 : Tracks s [] d (e.removed file) :=
        h.dropped hready (erase_dropped h.layout.rooted hrem hp) rfl (fun _ => rfl)
      exact wp_mono (fun _ _ hs => h1.swept hready hs) (fun _ hs => h1.swept hready hs)
        dropEmptyBatch_wp
    exact wp_seq hkeep (fun _ h => h) fun r d' h => h

/-! ## A start keeps the queue -/

/-- The layout is kept and the ready files are the same. -/
def KeepsReady (s : CustomSpool) (d d' : Disk) : Prop :=
  Layout s d'.tree ∧ ready s d'.tree = ready s d.tree

theorem KeepsReady.congr (h : KeepsReady s d0 d) (hroot : d'.tree.Rooted)
    (hq : SameQueue s d.tree d'.tree) : KeepsReady s d0 d' :=
  ⟨h.1.congr hroot hq, by rw [ready_congr hq, h.2]⟩

theorem empty_of_not_whole (hl : Layout s d.tree) (hb : isBatchName b = true)
    (h : ¬ Whole s d.tree b) (m : Name) : d.tree.get? (s.dir ++ [b, m]) = none := by
  rw [Option.eq_none_iff_forall_ne_some]
  intro n hn
  refine h ⟨hl.batchDir hn, fun hempty => ?_, fun m n hn => hl.chunks hb hn⟩
  have := Tree.children_eq_nil_iff.mp hempty m
  rw [List.append_assoc, List.singleton_append, hn] at this
  cases this

/-- A call that lists a whole batch does not fail. -/
def ListsWhole (s : CustomSpool) (c : Choice) (op : FsOp) (d : Disk) : Prop :=
  ∀ b, Whole s d.tree b → op = .readDir (s.dir ++ [b]) → c.fails = false

/-- **A recovery in which no listing of a whole batch fails keeps the ready files**, wherever it is
stopped and whichever other calls fail. -/
theorem recoverStartup_keeps (hl : Layout s d.tree) :
    wp fsStep (ListsWhole s) (recoverStartup s) (fun _ => KeepsReady s d) (KeepsReady s d) d := by
  have hrefl : KeepsReady s d d := ⟨hl, rfl⟩
  refine wp_readDir hrefl (fun e => hrefl) fun x hx => ?_
  refine wp_mono (fun _ _ h => h.1) (fun _ h => h)
    (recoverLoop_wp _ (KeepsReady s d) ?_ ?_ d hrefl)
  · intro e temp r htemp hr hrem h
    refine h.congr (h.1.rooted.erase hrem) ?_
    refine SameQueue.of_outside (fun _ hb => isQueueName_ne_temp hb htemp) fun q hq => ?_
    rw [Disk.removed_tree, Tree.get?_erase, if_neg]
    rintro rfl
    exact hq hr
  · intro e b hb hwhy hmove h
    have hwhole : ¬ Whole s e.tree b := by
      rcases hwhy with hwhole | ⟨c, hc, hlists⟩
      · exact hwhole
      · intro hw
        rw [hlists b hw rfl] at hc
        cases hc
    have hdrop := move_dropped h.1.rooted hmove rfl
    refine ⟨hdrop.layout h.1, ?_⟩
    rw [← h.2]
    funext r
    exact hdrop.ready_of_empty hb (empty_of_not_whole h.1 hb hwhole)

theorem openChecked_keeps (hl : Layout s d.tree) :
    wp fsStep (ListsWhole s) (openChecked s) (fun _ => KeepsReady s d) (KeepsReady s d) d := by
  refine wp_seq (mkdirAll_wp (I := KeepsReady s d) (by simp [quarantineDir]) ?_ ⟨hl, rfl⟩)
    (fun _ h => h) ?_
  · intro e r m hr hno hpar h
    refine h.congr (h.1.rooted.insert hpar (by simp [hno])) fun n l hn => ?_
    rw [Disk.put_tree, Tree.get?_insert, if_neg]
    rintro rfl
    rw [quarantineDir, List.prefix_append_right_inj, List.cons_prefix_cons] at hr
    exact isQueueName_ne_quarantine hn hr.1.symm
  rintro r d1 ⟨h1, _⟩
  cases r with
  | error e => exact h1
  | ok u =>
    have hstep : ∀ e, KeepsReady s d1 e → KeepsReady s d e :=
      fun e he => ⟨he.1, he.2.trans h1.2⟩
    refine wp_seq (recoverStartup_keeps h1.1) hstep ?_
    intro r d2 h2
    cases r with
    | error e => exact hstep _ h2
    | ok u => exact hstep _ h2

/-! ## A second recovery does nothing -/

theorem recoverLoop_idle (hs : Sound s d.tree) (ht : NoTemp s d.tree) : ∀ (es : List DirEntry),
    (∀ e ∈ es, e ∈ d.tree.dirEntries s.dir) →
    wp fsStep NoFault (recoverLoop s es) (fun r d' => r = .ok () ∧ d' = d) (fun _ => True) d
  | [], _ => ⟨rfl, rfl⟩
  | e :: es, hes => by
    have ih := recoverLoop_idle hs ht es (fun e' he' => hes e' (List.mem_cons_of_mem e he'))
    obtain ⟨n, hn, hnd⟩ := Tree.mem_dirEntries.mp (hes e List.mem_cons_self)
    have hdir : e.isDir = true → ∃ x, d.tree.get? (s.dir ++ [e.name]) = some (.dir x) := by
      intro he
      cases n with
      | file c y => rw [he] at hnd; cases hnd
      | dir x => exact ⟨x, hn⟩
    unfold recoverLoop
    split
    · next htemp =>
      obtain ⟨h1, h2⟩ := Bool.and_eq_true_iff.mp htemp
      obtain ⟨x, hx⟩ := hdir h1
      exact absurd hx (ht e.name x h2)
    split
    · next hbatch =>
      obtain ⟨h1, h2⟩ := Bool.and_eq_true_iff.mp hbatch
      obtain ⟨x, hx⟩ := hdir h1
      have hwhole : Whole s d.tree e.name :=
        ⟨⟨x, hx⟩, hs.noEmpty e.name x h2 hx, fun m k hk => hs.chunks h2 hk⟩
      refine wp_os trivial fun c hc => ?_
      rw [fsStep_readDir_ok hc hx]
      simp only
      rw [if_pos ((whole_iff_valid hx).mp hwhole)]
      exact ih
    · exact ih

theorem recoverStartup_idle (hs : Sound s d.tree) (ht : NoTemp s d.tree) (now : Int) :
    run fsStep (Choice.good now) (recoverStartup s) d = (.ok (), d) := by
  have hspec : wp fsStep NoFault (recoverStartup s) (fun r d' => r = .ok () ∧ d' = d)
      (fun _ => True) d := by
    obtain ⟨x, hx⟩ := hs.isDir
    refine wp_os trivial fun c hc => ?_
    rw [fsStep_readDir_ok hc hx]
    exact recoverLoop_idle hs ht _ (fun _ h => h)
  obtain ⟨h1, h2⟩ := wp_run (c := Choice.good now) (fun _ _ => rfl) hspec
  exact Prod.ext h1 h2

/-! ## Histories -/

/-- No listing of a whole batch fails in a start against these choices. -/
def StartLists (s : CustomSpool) (cs : List Choice) (d : Disk) : Prop :=
  Along fsStep (ListsWhole s) (openCustomSpoolWithPolicy s.dir s.maxBytes s.maxAge
    s.maxQuarantineBytes) cs d

theorem startLists_of_calm {cs : List Choice} (h : ∀ c ∈ cs, c.fails = false) :
    StartLists s cs d :=
  along_of_choices (fun _ _ _ hc _ _ _ => hc) _ _ _ h

/-- How the disk and the queue of a spool directory came about. A start is stopped at some call or
runs to its end. Any call of a start or of an operation may fail, but for the listing of a whole
batch in a start. -/
inductive History (dir : Path) : Disk → Queue → Option CustomSpool → Prop
  | fresh {d : Disk} (rooted : d.tree.Rooted) (nothing : ∀ l, d.tree.get? (dir ++ l) = none) :
      History dir d (fun _ => none) none
  | opened {d : Disk} {q : Queue} {s : CustomSpool} (before : History dir d q none)
      (hdir : s.dir = dir) (cs : List Choice) (lists : StartLists s cs d)
      (ok : (exec fsStep (openCustomSpoolWithPolicy s.dir s.maxBytes s.maxAge
        s.maxQuarantineBytes) cs d).val = some (.ok s)) :
      History dir (exec fsStep (openCustomSpoolWithPolicy s.dir s.maxBytes s.maxAge
        s.maxQuarantineBytes) cs d).state q (some s)
  | openStopped {d : Disk} {q : Queue} {s : CustomSpool} (before : History dir d q none)
      (hdir : s.dir = dir) (cs : List Choice) (lists : StartLists s cs d) :
      History dir (exec fsStep (openCustomSpoolWithPolicy s.dir s.maxBytes s.maxAge
        s.maxQuarantineBytes) cs d).state q none
  | returned {d : Disk} {q : Queue} {s : CustomSpool} (before : History dir d q (some s))
      (op : SpoolOp) (cs : List Choice) (err : Option SpoolError) (log : List Change)
      (ok : (exec fsStep (op.prog s) cs d).val = some err)
      (changes : (exec fsStep (op.prog s) cs d).state.journal = log ++ d.journal) :
      History dir (exec fsStep (op.prog s) cs d).state (q.replay op.batch log) (some s)
  | crashed {d : Disk} {q : Queue} {s : CustomSpool} (before : History dir d q (some s))
      (op : SpoolOp) (cs : List Choice) (log : List Change)
      (stopped : (exec fsStep (op.prog s) cs d).val = none)
      (changes : (exec fsStep (op.prog s) cs d).state.journal = log ++ d.journal) :
      History dir (exec fsStep (op.prog s) cs d).state (q.replay op.batch log) none
  | stopped {d : Disk} {q : Queue} {s : CustomSpool} (before : History dir d q (some s)) :
      History dir d q none

/-- The ready files are the queue, for every spool on the directory. -/
def Agrees (dir : Path) (d : Disk) (q : Queue) : Prop :=
  ∀ s : CustomSpool, s.dir = dir → Layout s d.tree ∧ ready s d.tree = q

theorem isReadyPath_dir (h : s.dir = s'.dir) (p : Path) : isReadyPath s p = isReadyPath s' p := by
  rw [isReadyPath, isReadyPath, h]

theorem agrees_of_one {q : Queue} (hl : Layout s d.tree) (hq : ready s d.tree = q) :
    Agrees s.dir d q := by
  intro s' h
  refine ⟨⟨hl.rooted, fun hb hn => hl.chunks hb (h ▸ hn)⟩, ?_⟩
  rw [← hq]
  funext p
  rw [ready, ready, isReadyPath_dir h]

theorem agrees_of_op {q : Queue} {cs : List Choice} (op : SpoolOp) (h : Agrees s.dir d q)
    {log : List Change}
    (hlog : (exec fsStep (op.prog s) cs d).state.journal = log ++ d.journal) :
    Agrees s.dir (exec fsStep (op.prog s) cs d).state (q.replay op.batch log) := by
  obtain ⟨hl, hq⟩ := h s rfl
  have htrack : Tracks s op.batch d (exec fsStep (op.prog s) cs d).state :=
    wp_exec_state (op_tracks op hl) (along_true _ _ _) (fun _ _ h => h) (fun _ h => h)
  obtain ⟨log', hlog', hready⟩ := htrack.log
  rw [hlog, List.append_cancel_right_eq] at hlog'
  refine agrees_of_one htrack.layout ?_
  rw [hready, hlog', hq]

theorem agrees_of_open {q : Queue} {cs : List Choice} (h : Agrees s.dir d q)
    (hlists : StartLists s cs d) :
    Agrees s.dir (exec fsStep (openCustomSpoolWithPolicy s.dir s.maxBytes s.maxAge
      s.maxQuarantineBytes) cs d).state q := by
  obtain ⟨hl, hq⟩ := h s rfl
  rw [StartLists, openCustomSpoolWithPolicy_eq] at hlists
  rw [openCustomSpoolWithPolicy_eq]
  have hkeep : KeepsReady s d (exec fsStep (openChecked s) cs d).state :=
    wp_exec_state (openChecked_keeps hl) hlists (fun _ _ h => h) (fun _ h => h)
  exact agrees_of_one hkeep.1 (hkeep.2.trans hq)

theorem History.agrees {dir : Path} {q : Queue} {up : Option CustomSpool}
    (h : History dir d q up) : Agrees dir d q ∧ ∀ s, up = some s → s.dir = dir := by
  induction h with
  | @fresh d rooted nothing =>
    refine ⟨fun s hs => ⟨⟨rooted, fun {b m n} _ hn => ?_⟩, ?_⟩, by simp⟩
    · rw [hs, nothing] at hn
      cases hn
    · funext p
      rw [ready]
      split
      · next hp =>
        obtain ⟨n, l, rfl, _⟩ := isReadyPath_under hp
        rw [hs, Tree.content?, nothing]
      · rfl
  | opened before hdir cs lists ok ih =>
    subst hdir
    refine ⟨agrees_of_open ih.1 lists, fun s hs => ?_⟩
    rw [← Option.some.inj hs]
  | openStopped before hdir cs lists ih =>
    subst hdir
    exact ⟨agrees_of_open ih.1 lists, by simp⟩
  | returned before op cs err log ok changes ih =>
    obtain rfl := ih.2 _ rfl
    exact ⟨agrees_of_op op ih.1 changes, fun s hs => by rw [← Option.some.inj hs]⟩
  | crashed before op cs log stopped changes ih =>
    obtain rfl := ih.2 _ rfl
    exact ⟨agrees_of_op op ih.1 changes, by simp⟩
  | stopped before ih => exact ⟨ih.1, by simp⟩

/-- **A start in which no listing of a whole batch fails finds exactly the queue**, after any
history of such starts and of operations whose calls may fail. No temporary directory is left, and
recovering once more changes nothing. -/
theorem recovery_restores_queue {dir : Path} {q : Queue} {cs : List Choice}
    (h : History dir d q none) (hdir : s.dir = dir) (hlists : StartLists s cs d)
    (hopen : (exec fsStep (openCustomSpoolWithPolicy s.dir s.maxBytes s.maxAge
      s.maxQuarantineBytes) cs d).val = some (.ok s)) :
    let d' := (exec fsStep (openCustomSpoolWithPolicy s.dir s.maxBytes s.maxAge
      s.maxQuarantineBytes) cs d).state
    (∀ now, run fsStep (Choice.good now) (filesLocked s) d' = (.ok (readyFiles s d'.tree), d')) ∧
    (∀ p, p ∈ readyFiles s d'.tree ↔ (q p).isSome = true) ∧
    (∀ p c, q p = some c → d'.tree.content? p = some c) ∧
    NoTemp s d'.tree ∧
    ∀ now, run fsStep (Choice.good now) (recoverStartup s) d' = (.ok (), d') := by
  subst hdir
  obtain ⟨hl, hq⟩ := agrees_of_open h.agrees.1 hlists s rfl
  have hroot := (h.agrees.1 s rfl).1.rooted
  rw [openCustomSpoolWithPolicy_eq] at hopen hl hq ⊢
  obtain ⟨_, hs⟩ := wp_exec_some (openChecked_sound hroot) (along_true _ _ _) hopen
  obtain ⟨_, hsound, htemp⟩ := hs s rfl
  refine ⟨filesLocked_of_sound hsound, fun p => ?_, fun p c hc => ?_, htemp,
    recoverStartup_idle hsound htemp⟩
  · rw [mem_readyFiles hl, hq]
  · rw [← hq, ready] at hc
    split at hc
    · exact hc
    · cases hc

/-! ### A small spool -/

theorem history_opened : History smallSpool.dir smallOpened (fun _ => none) (some smallSpool) :=
  .opened (.fresh rooted_empty fun _ => rfl) rfl (calm 10) (startLists_of_calm calm_fails)
    (by decide +kernel)

def oneBatchLog : List Change :=
  [.renamed (smallSpool.dir ++ [tempName [49]])
    (smallSpool.dir ++ [batchName 5 (tempName [49])])]

theorem history_oneBatch : History smallSpool.dir oneBatch
    (Queue.replay [[1]] (fun _ => none) oneBatchLog) (some smallSpool) :=
  .returned history_opened (.putBatch [[1]] 5 [[49]]) (calm 20) none oneBatchLog (by decide +kernel)
    (by decide +kernel)

/-- The agent is stopped after the only chunk of a batch was removed, before the directory was. -/
theorem recovery_restores_queue_small :
    let d2 := (exec fsStep ((SpoolOp.remove (smallFile 5)).prog smallSpool) (calm 1) oneBatch).state
    let d3 := (exec fsStep (openCustomSpoolWithPolicy smallSpool.dir smallSpool.maxBytes
      smallSpool.maxAge smallSpool.maxQuarantineBytes) (calm 20) d2).state
    d2.tree.children (smallSpool.dir ++ [batchName 5 (tempName [49])]) = [] ∧
    (∀ now, run fsStep (Choice.good now) (filesLocked smallSpool) d3 =
      (.ok (readyFiles smallSpool d3.tree), d3)) := by
  have hcrash := History.crashed history_oneBatch (.remove (smallFile 5)) (calm 1)
    [.removed (smallFile 5)] (by decide +kernel) (by decide +kernel)
  have hstart := recovery_restores_queue hcrash rfl (startLists_of_calm (calm_fails (n := 20)))
    (by decide +kernel)
  exact ⟨by decide +kernel, hstart.1⟩

/-- **A start in which the listing of a committed batch fails once succeeds and quarantines the
batch.** -/
theorem unlisted_batch_quarantined :
    let q := Queue.replay [[1]] (fun _ => none) oneBatchLog
    let start := exec fsStep (openCustomSpoolWithPolicy smallSpool.dir smallSpool.maxBytes
      smallSpool.maxAge smallSpool.maxQuarantineBytes) (calm 2 ++ [Choice.bad] ++ calm 20) oneBatch
    History smallSpool.dir oneBatch q none ∧ q (smallFile 5) = some [1] ∧
    start.val = some (.ok smallSpool) ∧ readyFiles smallSpool start.state.tree = [] ∧
    start.state.tree.content? (corruptPath smallSpool (batchName 5 (tempName [49])) ++
      [chunkName 0]) = some [1] :=
  ⟨.stopped history_oneBatch, by decide +kernel, by decide +kernel, by decide +kernel,
    by decide +kernel⟩

end Dogstatsd.CustomSpool
