import NodeAgent.Infra.Sorting
import NodeAgent.Dogstatsd.Spool.Wedge

/-!
# What the spool reports

The answers of `filesLocked` and `statsLocked`.

* `readyFiles_eq_of_sorted` — the list of ready files is determined by its elements
* `statsLocked_sum` — what `Stats` reports
-/

namespace Dogstatsd.CustomSpool

open Infra Prog

variable {R : Choice → FsOp → Disk → Prop} {s : CustomSpool} {d d' : Disk} {t t' : Tree}

/-- The answer of `filesLocked` when no call fails. -/
def listing (s : CustomSpool) (d : Disk) : Except SpoolError (List Path) :=
  (run fsStep (Choice.good 0) (filesLocked s) d).1

theorem listing_of_sound (hs : Sound s d.tree) : listing s d = .ok (readyFiles s d.tree) := by
  rw [listing, filesLocked_of_sound hs]

/-! ## A listing that succeeds -/

/-- **A listing that succeeds proves the spool to be sound.** -/
theorem Listed.sound (h : Listed s t) (hroot : t.Rooted) : Sound s t where
  rooted := hroot
  chunks {b m n} hb hn := by
    obtain ⟨x, hx⟩ := hroot (s.dir ++ [b]) m n (by simp) (by simpa using hn)
    exact (h.batches b x hb hx).chunks hn
  isDir := h.isDir
  noEmpty := fun b x hb hx => (h.batches b x hb hx).nonempty

/-! ## A listing only reads -/

section

variable {A : FsOp → Prop}

theorem filesLoop_uses (hA : ∀ p, A (.readDir p)) :
    ∀ (entries : List DirEntry) (files : List Path), (filesLoop s entries files).Uses A
  | [], _ => trivial
  | entry :: rest, files => by
    unfold filesLoop
    split
    · exact filesLoop_uses hA rest _
    split
    · refine uses_step (hA _) fun r => ?_
      split
      · trivial
      · trivial
      split
      · trivial
      · exact filesLoop_uses hA rest _
    · exact filesLoop_uses hA rest _

theorem filesLocked_uses (hA : ∀ p, A (.readDir p)) : (filesLocked s).Uses A := by
  refine uses_step (hA _) fun r => ?_
  cases r with
  | error e => trivial
  | ok entries => exact filesLoop_uses hA entries []

end

/-! ## Entries that a listing skips -/

theorem filesLoop_filter (c : Choice) (es : List DirEntry) : ∀ (acc : List Path) (d : Disk),
    run fsStep c (filesLoop s es acc) d =
      run fsStep c (filesLoop s (es.filter fun e => isQueueName e.name) acc) d := by
  induction es with
  | nil => exact fun _ _ => rfl
  | cons e es ih =>
    intro acc d
    cases hq : isQueueName e.name with
    | false =>
      rw [isQueueName, Bool.or_eq_false_iff] at hq
      rw [List.filter_cons_of_neg (by simp [isQueueName, hq]), filesLoop]
      simp only [hq, Bool.and_false, Bool.false_eq_true, if_false]
      exact ih acc d
    | true =>
      rw [List.filter_cons_of_pos (by exact hq), filesLoop, filesLoop]
      split
      · exact ih _ d
      split
      · rw [run_readDir, run_readDir]
        split
        · rfl
        · rfl
        · split
          · rfl
          · exact ih _ _
      · exact ih _ d

theorem filesLoop_congr (c : Choice) (hq : SameQueue s d.tree d'.tree) (es : List DirEntry) :
    ∀ acc : List Path, (run fsStep c (filesLoop s es acc) d').1 =
      (run fsStep c (filesLoop s es acc) d).1 := by
  induction es with
  | nil => exact fun _ => rfl
  | cons e es ih =>
    intro acc
    unfold filesLoop
    split
    · exact ih _
    split
    · next hb =>
      have hname := isQueueName_of_batch (Bool.and_eq_true_iff.mp hb).2
      have hreply := fsStep_readDir_congr c (hq e.name [] hname)
        (fun m => by simpa using hq e.name [m] hname)
      rw [run_readDir, run_readDir, hreply]
      split
      · rfl
      · rfl
      · split
        · rfl
        · exact ih _
    · exact ih _

/-- **The answer depends only on what lies under the names of the queue.** -/
theorem listing_congr (hdir : d'.tree.get? s.dir = d.tree.get? s.dir)
    (hq : SameQueue s d.tree d'.tree) : listing s d' = listing s d := by
  have hentries : (d'.tree.dirEntries s.dir).filter (fun e => isQueueName e.name) =
      (d.tree.dirEntries s.dir).filter (fun e => isQueueName e.name) :=
    Tree.dirEntries_filter_congr isQueueName fun m hm => hq m [] hm
  have hloop : (run fsStep (Choice.good 0) (filesLoop s (d'.tree.dirEntries s.dir) []) d').1 =
      (run fsStep (Choice.good 0) (filesLoop s (d.tree.dirEntries s.dir) []) d).1 := by
    rw [filesLoop_filter, hentries, filesLoop_congr _ hq, ← filesLoop_filter]
  rw [listing, listing, filesLocked, run_readDir, run_readDir,
    fsStep_of_not_fails (show (Choice.good 0).fails = false from rfl),
    fsStep_of_not_fails (show (Choice.good 0).fails = false from rfl)]
  simp only [effect, hdir]
  cases h : d.tree.get? s.dir with
  | none => rfl
  | some n =>
    cases n with
    | file _ _ => rfl
    | dir x => exact hloop

/-! ## The list of ready files -/

theorem mem_entryFiles_under {e : DirEntry} {p : Path} (h : p ∈ entryFiles s t e) :
    ∃ l, p = s.dir ++ e.name :: l := by
  rcases mem_entryFiles.mp h with ⟨_, _, rfl⟩ | ⟨_, _, m, _, _, rfl⟩
  · exact ⟨[], rfl⟩
  · exact ⟨[m], rfl⟩

theorem nodup_entryFiles (e : DirEntry) : (entryFiles s t e).Nodup := by
  unfold entryFiles
  split
  · exact List.nodup_singleton _
  split
  · have hnames := Tree.nodup_dirEntries (t := t) (p := s.dir ++ [e.name])
    have hpaths := hnames.map (f := fun m => s.dir ++ [e.name, m]) fun a b h => by simpa using h
    rw [List.map_map] at hpaths
    exact hpaths
  · exact List.nodup_nil

theorem nodup_readyFiles : (readyFiles s t).Nodup := by
  rw [readyFiles, sortFiles, (List.perm_insertionSort _ _).nodup_iff, List.nodup_flatMap]
  refine ⟨fun e _ => nodup_entryFiles e, ?_⟩
  have hnames := Tree.nodup_dirEntries (t := t) (p := s.dir)
  rw [List.Nodup, List.pairwise_map] at hnames
  refine hnames.imp fun {e e'} hne p hp hp' => ?_
  obtain ⟨l, hl⟩ := mem_entryFiles_under hp
  obtain ⟨l', hl'⟩ := mem_entryFiles_under hp'
  rw [hl, List.append_cancel_left_eq, List.cons.injEq] at hl'
  exact hne hl'.1

theorem readyFiles_eq_of_sorted (hl : Layout s t) {files : List Path}
    (hsorted : files.Pairwise (fun p q => pathString p < pathString q))
    (hmem : ∀ p, p ∈ files ↔ (ready s t p).isSome = true) : readyFiles s t = files := by
  have hnodup := nodup_readyFiles (s := s) (t := t)
  have hperm := List.perm_insertionSort (fun a b => pathString a ≤ pathString b)
    ((t.dirEntries s.dir).flatMap (entryFiles s t))
  refine insertionSort_eq_of_sorted pathString (hperm.nodup_iff.mp hnodup) hsorted fun p => ?_
  rw [hmem, ← mem_readyFiles hl]
  exact hperm.mem_iff

theorem file_of_mem_readyFiles (hl : Layout s t) {p : Path} (h : p ∈ readyFiles s t) :
    ∃ c x, t.get? p = some (.file c x) := by
  have hready := (mem_readyFiles hl).mp h
  rw [ready, if_pos (isReadyPath_of_mem hl h)] at hready
  obtain ⟨c, hc⟩ := Option.isSome_iff_exists.mp hready
  obtain ⟨x, hx⟩ := Tree.content?_eq_some.mp hc
  exact ⟨c, x, hx⟩

/-! ## Statistics -/

def fileBytes (t : Tree) (p : Path) : Nat := ((t.content? p).getD []).length

def usedBytes (s : CustomSpool) (t : Tree) : Nat := ((readyFiles s t).map (fileBytes t)).sum

theorem statsLoop_sum (files : List Path) : ∀ (bytes : Int) (oldest : Option Int),
    (∀ p ∈ files, ∃ c x, d.tree.get? p = some (.file c x)) →
    wp fsStep R (statsLoop files bytes oldest)
      (fun r _ => ∀ sums, r = .ok sums →
        sums.1 = bytes + ((files.map (fileBytes d.tree)).sum : Nat)) (fun _ => True) d := by
  induction files with
  | nil =>
    intro bytes oldest _ sums h
    simp only [Except.ok.injEq] at h
    simp [← h]
  | cons file rest ih =>
    intro bytes oldest hfiles
    refine wp_stat trivial (fun e => by simp) fun n hn => ?_
    obtain ⟨c, x, hc⟩ := hfiles file List.mem_cons_self
    rw [hc, Option.some.injEq] at hn
    refine wp_mono (fun r _ h sums hr => ?_) (fun _ h => h)
      (ih _ _ fun p hp => hfiles p (List.mem_cons_of_mem file hp))
    have hsize : fileBytes d.tree file = c.length := by
      rw [fileBytes, Tree.content?_eq_some.mpr ⟨x, hc⟩]
      rfl
    rw [h sums hr, List.map_cons, List.sum_cons, hsize, ← hn]
    simp only [Node.size]
    omega

theorem statsLocked_sum (hroot : d.tree.Rooted) (now : Int) :
    wp fsStep R (statsLocked s now)
      (fun r _ => ∀ stats, r = .ok stats → Sound s d.tree ∧
        stats.files = (readyFiles s d.tree).length ∧ stats.bytes = usedBytes s d.tree)
      (fun _ => True) d := by
  refine wp_seq filesLocked_wp (fun _ _ => trivial) ?_
  rintro r d' ⟨rfl, h⟩
  cases r with
  | error e => simp
  | ok files =>
    obtain ⟨rfl, hlisted⟩ := h files rfl
    have hs := hlisted.sound hroot
    refine wp_seq (statsLoop_sum _ 0 none fun p hp => file_of_mem_readyFiles hs.toLayout hp)
      (fun _ h => h) ?_
    intro r _ hsums
    cases r with
    | error e => simp
    | ok sums =>
      intro stats hstats
      simp only [Except.ok.injEq] at hstats
      rw [← hstats]
      refine ⟨hs, rfl, ?_⟩
      have := hsums sums rfl
      rw [this, usedBytes]
      simp

theorem statsLoop_ok (files : List Path) : ∀ (bytes : Int) (oldest : Option Int),
    (∀ p ∈ files, ∃ c x, d.tree.get? p = some (.file c x)) →
    wp fsStep NoFault (statsLoop files bytes oldest) (fun r _ => ∃ sums, r = .ok sums)
      (fun _ => True) d := by
  induction files with
  | nil => exact fun _ _ _ => ⟨_, rfl⟩
  | cons file rest ih =>
    intro bytes oldest hfiles
    obtain ⟨c, x, hc⟩ := hfiles file List.mem_cons_self
    refine wp_os trivial fun choice hgood => ?_
    rw [fsStep_stat_ok hgood hc]
    exact ih _ _ fun p hp => hfiles p (List.mem_cons_of_mem file hp)

theorem statsLocked_ok (hs : Sound s d.tree) (now : Int) :
    wp fsStep NoFault (statsLocked s now) (fun r _ => ∃ stats, r = .ok stats)
      (fun _ => True) d := by
  refine wp_seq (wp_and filesLocked_wp (filesLocked_ok hs)) (fun _ _ => trivial) ?_
  rintro r d' ⟨⟨rfl, h⟩, files, rfl⟩
  obtain ⟨rfl, _⟩ := h files rfl
  refine wp_seq (statsLoop_ok _ 0 none fun p hp => file_of_mem_readyFiles hs.toLayout hp)
    (fun _ h => h) ?_
  rintro _ _ ⟨sums, rfl⟩
  exact ⟨_, rfl⟩

end Dogstatsd.CustomSpool
