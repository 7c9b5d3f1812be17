import NodeAgent.Dogstatsd.Spool.Success

/-!
# The spool is a queue (`dogstatsd/spool.go`)

The order of the payloads is the order of the names of their files: a batch is named by its time, a
chunk by its number, both with zeros in front. So as long as the clock does not go back, sorting
the paths gives the order in which the payloads were put.

* `Represents` — the files stand for a list of payloads
* `spool_is_fifo` — every run of a spool that was empty is one of a queue
-/

namespace Dogstatsd.CustomSpool

open Infra Prog

variable {s : CustomSpool} {d d' : Disk} {payloads waiting : List Bytes} {t : Tree}

variable {now : Int} {files : List Path}

/-! ## The order of the names -/

theorem batchName_lt {time time' : Int} (h0 : 0 ≤ time) (hlt : time < time')
    (hmax : time' < 10 ^ 20) (temp temp' : Name) (x y : Bytes) :
    batchName time temp ++ x < batchName time' temp' ++ y := by
  have hlen : (zeroPadded 20 time).length = (zeroPadded 20 time').length := by
    rw [length_zeroPadded h0 (by omega) (by decide), length_zeroPadded (by omega) hmax (by decide)]
  have htimes := append_lt_append hlen (zeroPadded_lt h0 hlt hmax (by decide))
  simp only [batchName, List.append_assoc]
  exact List.append_left_lt (htimes _ _)

theorem batchName_ne {time time' : Int} (h0 : 0 ≤ time) (hlt : time < time')
    (hmax : time' < 10 ^ 20) (temp temp' : Name) : batchName time temp ≠ batchName time' temp' := by
  intro he
  have := batchName_lt h0 hlt hmax temp temp' [] []
  rw [he] at this
  exact List.lt_irrefl _ this

/-- **The files of an earlier batch come first.** -/
theorem batch_lt {time time' : Int} (h0 : 0 ≤ time) (hlt : time < time') (hmax : time' < 10 ^ 20)
    (p : Path) (temp temp' m m' : Name) :
    pathString (p ++ [batchName time temp, m]) < pathString (p ++ [batchName time' temp', m']) := by
  obtain ⟨x, hx⟩ := exists_pathString_append p
  rw [hx, hx]
  exact List.append_left_lt (batchName_lt h0 hlt hmax temp temp' _ _)

/-- **The chunks of a batch come in the order of their numbers.** -/
theorem chunk_lt {i j : Nat} (hij : i < j) (hj : j < 10 ^ 6) (p : Path) (b : Name) :
    pathString (p ++ [b, chunkName i]) < pathString (p ++ [b, chunkName j]) := by
  obtain ⟨x, hx⟩ := exists_pathString_append p
  have hj' : (j : Int) < 10 ^ 6 := by exact_mod_cast hj
  have hlen : (zeroPadded 6 i).length = (zeroPadded 6 j).length := by
    rw [length_zeroPadded (by omega) (by omega) (by decide),
      length_zeroPadded (by omega) hj' (by decide)]
  have hnums := append_lt_append hlen
    (zeroPadded_lt (by omega) (by omega : (i : Int) < j) hj' (by decide))
  rw [hx, hx]
  refine List.append_left_lt (List.append_left_lt (List.cons_lt_cons_iff.mpr (Or.inr ⟨rfl, ?_⟩)))
  simp only [chunkName, List.append_assoc]
  exact List.append_left_lt (hnums _ _)

theorem createdFiles_sorted (hlen : payloads.length ≤ 10 ^ 6) (p : Path) (b : Name) :
    (createdFiles (p ++ [b]) payloads).Pairwise (fun p q => pathString p < pathString q) := by
  rw [createdFiles, List.pairwise_map]
  refine List.pairwise_lt_range.imp_of_mem fun {i j} _ hj hij => ?_
  have hj' : j < 10 ^ 6 := Nat.lt_of_lt_of_le (List.mem_range.mp hj) hlen
  simpa using chunk_lt hij hj' p b

/-! ## The list that the files stand for -/

/-- The files of the spool stand for the payloads `waiting`. All batches were put at the time
`clock` or before, and nothing stands in the way of new names. -/
structure Represents (s : CustomSpool) (clock : Int) (t : Tree) (waiting : List Bytes) : Prop
    extends Sound s t where
  shelf : ∃ x, t.get? s.quarantineDir = some (.dir x)
  failed : ∀ m x, hasSuffix m (ascii ".failed") = true →
    t.get? (s.quarantineDir ++ [m]) ≠ some (.dir x)
  entries : ∀ n k, t.get? (s.dir ++ [n]) = some k → n = ascii "quarantine" ∨
    ∃ time temp, 0 ≤ time ∧ time ≤ clock ∧ n = batchName time temp
  sorted : (readyFiles s t).Pairwise (fun p q => pathString p < pathString q)
  contents : (readyFiles s t).map t.content? = waiting.map some

/-- The spool directory holds nothing but the quarantine. -/
structure Empty (s : CustomSpool) (t : Tree) : Prop where
  rooted : t.Rooted
  isDir : ∃ x, t.get? s.dir = some (.dir x)
  shelf : ∃ x, t.get? s.quarantineDir = some (.dir x)
  only : ∀ n k, t.get? (s.dir ++ [n]) = some k → n = ascii "quarantine"
  failed : ∀ m x, hasSuffix m (ascii ".failed") = true →
    t.get? (s.quarantineDir ++ [m]) ≠ some (.dir x)

theorem Empty.represents (h : Empty s t) : Represents s (-1) t [] := by
  have hbatch : ∀ b k, isBatchName b = true → t.get? (s.dir ++ [b]) ≠ some k := by
    intro b k hb hk
    exact isQueueName_ne_quarantine (isQueueName_of_batch hb) (h.only b k hk).symm
  have hsound : Sound s t := by
    refine ⟨⟨h.rooted, fun {b m n} hb hn => ?_⟩, h.isDir,
      fun b x hb hx => absurd hx (hbatch b _ hb)⟩
    obtain ⟨x, hx⟩ := h.rooted (s.dir ++ [b]) m n (by simp) (by simpa using hn)
    exact absurd hx (hbatch b _ hb)
  have hnone : readyFiles s t = [] := by
    refine readyFiles_eq_of_sorted hsound.toLayout List.Pairwise.nil fun p => ?_
    refine iff_of_false (by simp) fun hp => ?_
    have hmem := (mem_readyFiles hsound.toLayout).mpr hp
    obtain ⟨c, x, hc⟩ := file_of_mem_readyFiles hsound.toLayout hmem
    rcases isReadyPath_iff.mp (isReadyPath_of_mem hsound.toLayout hmem) with
      ⟨m, rfl, hm⟩ | ⟨b, m, rfl, hb, _⟩
    · rw [h.only m _ hc] at hm
      exact absurd hm (by decide)
    · obtain ⟨y, hy⟩ := hsound.toLayout.batchDir hc
      exact hbatch b _ hb hy
  exact ⟨hsound, h.shelf, h.failed, fun n k hk => Or.inl (h.only n k hk), by simp [hnone],
    by simp [hnone]⟩

variable {clock : Int}

theorem Represents.later (h : Represents s clock t waiting) (hle : clock ≤ now) :
    Represents s now t waiting := by
  refine ⟨h.toSound, h.shelf, h.failed, fun n k hk => ?_, h.sorted, h.contents⟩
  rcases h.entries n k hk with he | ⟨time, temp, h0, hlt, he⟩
  · exact Or.inl he
  · exact Or.inr ⟨time, temp, h0, by omega, he⟩

theorem Represents.file (h : Represents s clock t waiting) {p : Path} (hp : p ∈ readyFiles s t) :
    ∃ time temp m, 0 ≤ time ∧ time ≤ clock ∧ p = s.dir ++ [batchName time temp, m] := by
  obtain ⟨c, x, hc⟩ := file_of_mem_readyFiles h.toLayout hp
  rcases isReadyPath_iff.mp (isReadyPath_of_mem h.toLayout hp) with
    ⟨m, rfl, hm⟩ | ⟨b, m, rfl, hb, _⟩
  · rcases h.entries m _ hc with rfl | ⟨time, temp, _, _, rfl⟩
    · exact absurd hm (by decide)
    · have := isBatchName_batchName time temp
      rw [isLegacyName_not_batch hm] at this
      cases this
  · obtain ⟨y, hy⟩ := h.toLayout.batchDir hc
    rcases h.entries b _ hy with rfl | ⟨time, temp, h0, hle, rfl⟩
    · exact absurd hb (by decide)
    · exact ⟨time, temp, m, h0, hle, rfl⟩

/-! ## Putting -/

theorem isTempName_ne_batch {temp n : Name} (htemp : isTempName temp = true)
    (hn : isBatchName n = true) : temp ≠ n :=
  isQueueName_ne_temp (isQueueName_of_batch hn) htemp

theorem Represents.temp_free (h : Represents s clock t waiting) (rand : Bytes) :
    t.get? (s.dir ++ [tempName rand]) = none := by
  rw [Option.eq_none_iff_forall_ne_some]
  intro k hk
  have htemp := isTempName_tempName rand
  rcases h.entries _ k hk with he | ⟨time, temp, _, _, he⟩
  · exact isTempName_ne_quarantine htemp he.symm
  · exact isTempName_ne_batch htemp (isBatchName_batchName time temp) he

theorem Represents.batch_free (h : Represents s clock t waiting) (hlt : clock < now)
    (hmax : now < 10 ^ 20) (temp : Name) : t.get? (s.dir ++ [batchName now temp]) = none := by
  rw [Option.eq_none_iff_forall_ne_some]
  intro k hk
  rcases h.entries _ k hk with he | ⟨time, temp', h0, hle, he⟩
  · exact isQueueName_ne_quarantine (isQueueName_of_batch (isBatchName_batchName now temp)) he.symm
  · exact batchName_ne h0 (by omega) hmax temp' temp he.symm

/-- **A batch that was put comes last.** -/
theorem Represents.put (h : Represents s clock d.tree waiting) {temp : Name} (hlt : clock < now)
    (h0 : 0 ≤ now) (hmax : now < 10 ^ 20) (hlen : payloads.length ≤ 10 ^ 6)
    (hc : Committed s payloads temp (batchName now temp) d d')
    (hgone : d'.tree.get? (s.dir ++ [temp]) = none) :
    Represents s now d'.tree (waiting ++ payloads) := by
  have hs := h.toSound
  have hsorted : (readyFiles s d.tree ++
      createdFiles (s.dir ++ [batchName now temp]) payloads).Pairwise
        (fun p q => pathString p < pathString q) := by
    refine List.pairwise_append.mpr ⟨h.sorted, createdFiles_sorted hlen s.dir _, ?_⟩
    intro p hp q hq
    obtain ⟨time, temp', m, htime, hle, rfl⟩ := h.file hp
    obtain ⟨i, _, rfl⟩ := mem_createdFiles.mp hq
    have := batch_lt htime (by omega) hmax s.dir temp' temp m (chunkName i)
    simpa using this
  have hlist : readyFiles s d'.tree =
      readyFiles s d.tree ++ createdFiles (s.dir ++ [batchName now temp]) payloads := by
    refine readyFiles_eq_of_sorted (hc.layout hs.toLayout) hsorted fun p => ?_
    rw [← mem_readyFiles (hc.layout hs.toLayout), (hc.listed hs).1.mem_iff]
  -- what lies under the quarantine is as before
  have hshelf : ∀ l, d'.tree.get? (s.quarantineDir ++ l) = d.tree.get? (s.quarantineDir ++ l) := by
    intro l
    rw [quarantineDir_append]
    refine hc.others _ (not_prefix_of_ne ?_ l) (not_prefix_of_ne ?_ l)
    · exact (isTempName_ne_quarantine hc.isTemp).symm
    · exact (isQueueName_ne_quarantine (isQueueName_of_batch hc.isBatch)).symm
  refine ⟨sound_of_committed hs hc, ?_, fun m x hm hx => ?_, fun n k hk => ?_, ?_, ?_⟩
  · obtain ⟨x, hx⟩ := h.shelf
    exact ⟨x, by simpa [hx] using hshelf []⟩
  · rw [hshelf] at hx
    exact h.failed m x hm hx
  · by_cases hn : n = batchName now temp
    · exact Or.inr ⟨now, temp, h0, le_refl now, hn⟩
    by_cases ht : n = temp
    · rw [ht, hgone] at hk
      cases hk
    rw [hc.others _ (not_prefix_of_ne (Ne.symm ht) []) (not_prefix_of_ne (Ne.symm hn) [])] at hk
    rcases h.entries n k hk with he | ⟨time, temp', htime, hle, he⟩
    · exact Or.inl he
    · exact Or.inr ⟨time, temp', htime, by omega, he⟩
  · rwa [hlist]
  · rw [hlist, List.map_append, List.map_append, hc.contents, ← h.contents]
    exact congrArg (· ++ _) (List.map_congr_left fun p hp => hc.content_old hs hp)

/-! ## Taking -/

/-- **Taking the first file out leaves the others.** -/
theorem Represents.pop {file : Path} (h : Represents s clock d.tree waiting)
    (hfiles : readyFiles s d.tree = file :: files) (hs : Sound s d'.tree)
    (hready : ∀ p, ready s d'.tree p = if p = file then none else ready s d.tree p)
    (hentries : ∀ n k, n ≠ ascii "quarantine" → d'.tree.get? (s.dir ++ [n]) = some k →
      d.tree.get? (s.dir ++ [n]) = some k)
    (hshelf : ∃ x, d'.tree.get? s.quarantineDir = some (.dir x))
    (hfailed : ∀ m x, hasSuffix m (ascii ".failed") = true →
      d'.tree.get? (s.quarantineDir ++ [m]) ≠ some (.dir x)) :
    Represents s clock d'.tree waiting.tail := by
  have hnodup := nodup_readyFiles (s := s) (t := d.tree)
  have hsorted := h.sorted
  rw [hfiles] at hnodup hsorted
  have hother : ∀ p ∈ files, p ≠ file := by
    rintro p hp rfl
    exact (List.nodup_cons.mp hnodup).1 hp
  have hlist : readyFiles s d'.tree = files := by
    refine readyFiles_eq_of_sorted hs.toLayout hsorted.tail fun p => ?_
    by_cases hp : p = file
    · rw [hready, if_pos hp]
      exact iff_of_false (fun hmem => hother p hmem hp) (by simp)
    · rw [hready, if_neg hp, ← mem_readyFiles h.toLayout, hfiles, List.mem_cons]
      exact (or_iff_right hp).symm
  refine ⟨hs, hshelf, hfailed, fun n k hk => ?_, by rw [hlist]; exact hsorted.tail, ?_⟩
  · by_cases hn : n = ascii "quarantine"
    · exact Or.inl hn
    · exact h.entries n k (hentries n k hn hk)
  · have hcontents := h.contents
    rw [hfiles, List.map_cons] at hcontents
    have htail : files.map d.tree.content? = waiting.tail.map some := by
      rw [List.map_tail, ← hcontents, List.tail_cons]
    rw [hlist, ← htail]
    refine List.map_congr_left fun p hp => ?_
    have hpath : isReadyPath s p = true :=
      isReadyPath_of_mem h.toLayout (by rw [hfiles]; exact List.mem_cons_of_mem file hp)
    have := hready p
    rwa [if_neg (hother p hp), ready, ready, if_pos hpath, if_pos hpath] at this

theorem Swept.get?_some {file p : Path} {k : Node} (h : Swept s file d d')
    (hk : d'.tree.get? p = some k) : d.tree.get? p = some k := by
  rcases h with rfl | ⟨_, _, rfl⟩
  · exact hk
  · rw [Disk.removed_tree, Tree.get?_erase] at hk
    split at hk
    · cases hk
    · exact hk

theorem Represents.taken {file : Path} (h : Represents s clock d.tree waiting)
    (hfiles : readyFiles s d.tree = file :: files) (hs : Sound s d'.tree) (ht : Taken s file d d') :
    Represents s clock d'.tree waiting.tail := by
  obtain ⟨hpath, hrem, hsweep⟩ := ht
  obtain ⟨n, l, hp, _⟩ := isReadyPath_under hpath
  have hdrop := erase_dropped h.rooted hrem hp
  have hshelf : ∀ l, d'.tree.get? (s.quarantineDir ++ l) = d.tree.get? (s.quarantineDir ++ l) := by
    intro l
    rw [hsweep.get?_eq hpath fun b hb => quarantine_ne_batch hb l, Disk.removed_tree,
      Tree.get?_erase, if_neg]
    rintro rfl
    exact ready_ne_quarantine hpath l (List.prefix_refl _)
  refine h.pop hfiles hs (fun p => ?_) (fun m k _ hk => ?_) ?_ fun m x hm hx => ?_
  · rw [hsweep.ready_eq hdrop.rooted hpath]
    exact hdrop.ready_eq hpath
  · have := hsweep.get?_some hk
    rw [Disk.removed_tree, Tree.get?_erase] at this
    split at this
    · cases this
    · exact this
  · obtain ⟨x, hx⟩ := h.shelf
    exact ⟨x, by simpa [hx] using hshelf []⟩
  · rw [hshelf] at hx
    exact h.failed m x hm hx

theorem Represents.shelved {file : Path} {reason : Bytes} (h : Represents s clock d.tree waiting)
    (hfiles : readyFiles s d.tree = file :: files) (hs : Sound s d'.tree)
    (ht : Shelved s file reason d d') : Represents s clock d'.tree waiting.tail := by
  have hpath := ht.1
  refine h.pop hfiles hs (ht.leaves h.rooted) (fun m k hm hk => ?_) ?_ fun m x hm hx => ?_
  · have := ht.2.2.get?_some hk
    rw [Disk.renamed_tree, destination, get?_move_quarantine ht.2.1.apart (Ne.symm hm) []] at this
    split at this
    · cases this
    · exact this
  · obtain ⟨x, hx⟩ := h.shelf
    refine ⟨x, ?_⟩
    rw [ht.2.2.get?_eq hpath fun b hb => by simpa using quarantine_ne_batch (s := s) hb [],
      Disk.renamed_tree, Tree.get?_move ht.2.1.apart.1 ht.2.1.apart.2, if_neg, if_neg, hx]
    · simpa using ready_ne_quarantine hpath []
    · intro hc
      have := hc.length_le
      rw [destination, List.length_append, List.length_singleton] at this
      omega
  · rw [ht.get?_quarantine] at hx
    split at hx
    · obtain ⟨c, y, hc⟩ := file_of_mem_readyFiles h.toLayout
        (show file ∈ readyFiles s d.tree by rw [hfiles]; exact List.mem_cons_self)
      rw [List.append_nil, hc] at hx
      cases hx
    · exact h.failed m x hm hx

/-- Take the oldest payload: `Oldest`, the content of the file that it names, and then `Remove` or
`Quarantine`. -/
def takeOldest (s : CustomSpool) (reason : Option Bytes) :
    FsProg (Except SpoolError (Option Bytes)) := do
  let file ← oldest s
  match file with
  | .error e => .ret (.error e)
  | .ok none => .ret (.ok none)
  | .ok (some file) => do
    let payload ← Os.readFile file
    match payload with
    | .error e => .ret (.error (.os e))
    | .ok payload =>
      match reason with
      | none => do
        let r ← remove s file
        match r with
        | .error e => .ret (.error e)
        | .ok _ => .ret (.ok (some payload))
      | some reason => do
        let r ← quarantine s file reason
        match r with
        | .error e => .ret (.error e)
        | .ok _ => .ret (.ok (some payload))

theorem Represents.head (h : Represents s clock t waiting) {file : Path}
    (hfiles : readyFiles s t = file :: files) :
    ∃ payload x, waiting.head? = some payload ∧ t.get? file = some (.file payload x) := by
  have hcontents := h.contents
  rw [hfiles] at hcontents
  cases waiting with
  | nil => cases hcontents
  | cons payload rest =>
    obtain ⟨x, hx⟩ := Tree.content?_eq_some.mp (List.cons.inj hcontents).1
    exact ⟨payload, x, rfl, hx⟩

theorem Represents.nil_iff (h : Represents s clock t waiting) :
    readyFiles s t = [] ↔ waiting = [] := by
  rw [← List.map_eq_nil_iff (f := t.content?), h.contents, List.map_eq_nil_iff]

/-- **When no call fails, the first payload is taken.** -/
theorem takeOldest_ok (h : Represents s clock d.tree waiting) (reason : Option Bytes) :
    wp fsStep NoFault (takeOldest s reason)
      (fun r d' => r = .ok waiting.head? ∧ Represents s clock d'.tree waiting.tail)
      (fun _ => True) d := by
  refine wp_seq (oldest_ok h.toSound) (fun _ _ => trivial) ?_
  rintro r d1 ⟨rfl, rfl⟩
  cases hfiles : readyFiles s d1.tree with
  | nil =>
    obtain rfl := h.nil_iff.mp hfiles
    exact ⟨rfl, h⟩
  | cons file files =>
    obtain ⟨payload, x, hhead, hfile⟩ := h.head hfiles
    have hmem : file ∈ readyFiles s d1.tree := by rw [hfiles]; exact List.mem_cons_self
    rw [hhead]
    refine wp_os trivial fun c hc => ?_
    rw [fsStep_of_not_fails hc]
    simp only [effect, hfile]
    cases reason with
    | none =>
      refine wp_seq (remove_ok h.toSound hmem) (fun _ h => h) ?_
      rintro r d2 ⟨rfl, htaken, hs⟩
      exact ⟨rfl, h.taken hfiles hs htaken⟩
    | some reason =>
      have hplace : ∀ y, d1.tree.get? (destination s file reason) ≠ some (.dir y) :=
        fun y => h.failed _ y (hasSuffix_append _ _)
      refine wp_seq (quarantine_ok h.toSound hmem reason h.shelf hplace) (fun _ h => h) ?_
      rintro r d2 ⟨rfl, hshelved, hs⟩
      exact ⟨rfl, h.shelved hfiles hs hshelved⟩

/-! ## What the spool reports -/

theorem Represents.usedBytes (h : Represents s clock t waiting) :
    usedBytes s t = (waiting.map List.length).sum := by
  have := congrArg (List.map fun c : Option Bytes => (c.getD []).length) h.contents
  rw [List.map_map, List.map_map] at this
  exact congrArg List.sum this

theorem Represents.length (h : Represents s clock t waiting) :
    (readyFiles s t).length = waiting.length := by
  have := congrArg List.length h.contents
  simpa using this

/-- When no call fails, `Oldest` names the file of the first payload, and `Stats` counts the
payloads and their bytes. -/
def Reports (s : CustomSpool) (d : Disk) (waiting : List Bytes) : Prop :=
  ∀ env : Nat → Choice, (∀ i, (env i).fails = false) →
    (∃ file, (play fsStep (oldest s) env d).1 = .ok file ∧
      file.bind d.tree.content? = waiting.head? ∧ (file = none ↔ waiting = [])) ∧
    ∀ now, ∃ stats, (play fsStep (statsLocked s now) env d).1 = .ok stats ∧
      stats.files = waiting.length ∧ stats.bytes = (waiting.map List.length).sum

theorem Represents.reports (h : Represents s clock d.tree waiting) : Reports s d waiting := by
  intro env henv
  refine ⟨⟨_, (wp_play env (oldest_ok h.toSound) fun i _ _ => henv i).1, ?_⟩, fun now => ?_⟩
  · cases hfiles : readyFiles s d.tree with
    | nil =>
      obtain rfl := h.nil_iff.mp hfiles
      exact ⟨rfl, by simp⟩
    | cons file files =>
      obtain ⟨payload, x, hhead, hfile⟩ := h.head hfiles
      refine ⟨?_, iff_of_false (by simp) ?_⟩
      · rw [hhead]
        exact Tree.content?_eq_some.mpr ⟨x, hfile⟩
      · rintro rfl
        cases hhead
  · obtain ⟨hsum, stats, hstats⟩ := wp_play env
      (wp_and (statsLocked_sum h.rooted now) (statsLocked_ok h.toSound now)) fun i _ _ => henv i
    obtain ⟨_, hcount, hbytes⟩ := hsum stats hstats
    exact ⟨stats, hstats, hcount.trans h.length, by rw [hbytes, h.usedBytes]⟩

/-! ## Runs -/

/-- A call of `PutBatch`, or taking the oldest payload out, with the environment of its calls. -/
inductive QueueStep where
  | put (payloads : List Bytes) (now : Int) (rands : List Bytes) (env : Nat → Choice)
  | take (reason : Option Bytes) (env : Nat → Choice)

/-- The disk, the time of the last `PutBatch`, the payloads that were put and those that were taken.
-/
structure QueueRun where
  disk : Disk
  clock : Int
  put : List Bytes
  taken : List Bytes

def QueueRun.start (d : Disk) : QueueRun := ⟨d, -1, [], []⟩

/-- The payloads that were put and not taken, if they are taken in their order. -/
def QueueRun.remaining (q : QueueRun) : List Bytes := q.put.drop q.taken.length

def QueueRun.next (s : CustomSpool) (q : QueueRun) : QueueStep → QueueRun
  | .put payloads now rands env =>
    let out := play fsStep (putBatch s payloads now rands) env q.disk
    let added := match out.1 with
      | .ok _ => payloads
      | .error _ => []
    { q with disk := out.2, clock := now, put := q.put ++ added }
  | .take reason env =>
    let out := play fsStep (takeOldest s reason) env q.disk
    let gone := match out.1 with
      | .ok payload => payload.toList
      | .error _ => []
    { q with disk := out.2, taken := q.taken ++ gone }

/-- No call fails, a batch has between one and a million payloads that are not empty, and the clock,
an `int64`, goes forward. -/
def QueueRun.Allowed (q : QueueRun) : QueueStep → Prop
  | .put payloads now rands env =>
    payloads ≠ [] ∧ payloads.length ≤ 10 ^ 6 ∧ [] ∉ payloads ∧ q.clock < now ∧ now < 2 ^ 63 ∧
      rands ≠ [] ∧ ∀ i, (env i).fails = false
  | .take _ env => ∀ i, (env i).fails = false

/-- A batch is put if it fits, and refused if it does not. The first payload is taken, if there is
one. -/
def QueueRun.Served (s : CustomSpool) (q : QueueRun) : QueueStep → Prop
  | .put payloads now rands env =>
    if (((q.remaining ++ payloads).map List.length).sum : Int) ≤ s.maxBytes then
      ∃ files, (play fsStep (putBatch s payloads now rands) env q.disk).1 = .ok files
    else (play fsStep (putBatch s payloads now rands) env q.disk).1 = .error .full
  | .take reason env => (play fsStep (takeOldest s reason) env q.disk).1 = .ok q.remaining.head?

/-- What was taken are the first of the payloads that were put, and the files stand for the
others. -/
structure QueueRun.InOrder (s : CustomSpool) (q : QueueRun) : Prop where
  clock : -1 ≤ q.clock
  order : q.taken <+: q.put
  represents : Represents s q.clock q.disk.tree q.remaining

variable {q : QueueRun}

theorem QueueRun.remaining_put (h : q.taken <+: q.put) (payloads : List Bytes) :
    (q.put ++ payloads).drop q.taken.length = q.remaining ++ payloads :=
  List.drop_append_of_le_length h.length_le

theorem QueueRun.InOrder.put {rands : List Bytes} {env : Nat → Choice} (h : q.InOrder s)
    (hstep : q.Allowed (.put payloads now rands env)) :
    q.Served s (.put payloads now rands env) ∧
      (q.next s (.put payloads now rands env)).InOrder s := by
  obtain ⟨hne, hlen, hnil, hclock, hint, hrands, henv⟩ := hstep
  obtain ⟨rand, rands, rfl⟩ := List.exists_cons_of_ne_nil hrands
  have hr := h.represents
  have h0 : 0 ≤ now := by have := h.clock; omega
  have hmax : now < 10 ^ 20 := by omega
  have hput := wp_play env (putBatch_ok hr.toSound hne hnil (hr.temp_free rand)
    (hr.batch_free hclock hmax (tempName rand)) rands) fun i _ _ => henv i
  have hsum : (((q.remaining ++ payloads).map List.length).sum : Int) =
      (usedBytes s q.disk.tree : Int) + (payloads.map List.length).sum := by
    rw [hr.usedBytes, List.map_append, List.sum_append]
    exact_mod_cast rfl
  unfold QueueRun.Served QueueRun.next
  simp only [hsum]
  by_cases hfits : (usedBytes s q.disk.tree : Int) + (payloads.map List.length).sum ≤ s.maxBytes
  · rw [if_pos hfits] at hput ⊢
    obtain ⟨hres, hcommit, hgone⟩ := hput
    refine ⟨⟨_, hres⟩, by simp only; omega, h.order.trans (List.prefix_append _ _), ?_⟩
    rw [QueueRun.remaining, hres, QueueRun.remaining_put h.order]
    exact hr.put hclock h0 hmax hlen hcommit hgone
  · rw [if_neg hfits] at hput ⊢
    obtain ⟨hres, hsame⟩ := hput
    refine ⟨hres, by simp only; omega, h.order.trans (List.prefix_append _ _), ?_⟩
    rw [QueueRun.remaining, hres, hsame, QueueRun.remaining_put h.order]
    exact (List.append_nil q.remaining).symm ▸ hr.later hclock.le

theorem QueueRun.InOrder.take {reason : Option Bytes} {env : Nat → Choice} (h : q.InOrder s)
    (henv : ∀ i, (env i).fails = false) :
    q.Served s (.take reason env) ∧ (q.next s (.take reason env)).InOrder s := by
  obtain ⟨hres, hrep⟩ := wp_play env (takeOldest_ok h.represents reason) fun i _ _ => henv i
  refine ⟨hres, ?_⟩
  obtain ⟨left, hleft⟩ := h.order
  have hrest : q.remaining = left := by rw [QueueRun.remaining, ← hleft, List.drop_left]
  have htaken : q.taken ++ left.head?.toList ++ left.tail = q.put := by
    rw [← hleft]
    cases left <;> simp
  unfold QueueRun.next
  rw [hrest] at hres hrep
  refine ⟨h.clock, ?_, ?_⟩
  · simp only [hres]
    exact ⟨left.tail, htaken⟩
  · rw [QueueRun.remaining]
    simp only [hres]
    rw [← htaken, List.drop_left]
    exact hrep

/-- **One step**: it is served, and the files still stand for what was not taken. -/
theorem QueueRun.InOrder.step (h : q.InOrder s) {step : QueueStep} (hstep : q.Allowed step) :
    q.Served s step ∧ (q.next s step).InOrder s := by
  cases step with
  | put payloads now rands env => exact h.put hstep
  | take reason env => exact h.take hstep

/-- **The spool is a queue.** In every run of a spool that was empty, with a clock that goes
forward and without failing calls, payloads are taken in the order in which they were put, and
`Oldest` and `Stats` report the others. -/
theorem spool_is_fifo (s : CustomSpool) {d : Disk} (hempty : Empty s d.tree)
    (steps : List QueueStep)
    (hsteps : EveryStep (QueueRun.next s) QueueRun.Allowed (QueueRun.start d) steps) :
    EveryState (QueueRun.next s) (fun q => q.put = q.taken ++ q.remaining ∧
        Reports s q.disk q.remaining) (QueueRun.start d) steps ∧
      EveryStep (QueueRun.next s) (QueueRun.Served s) (QueueRun.start d) steps := by
  have hstart : (QueueRun.start d).InOrder s := ⟨le_refl _, List.prefix_refl _, hempty.represents⟩
  have hkeep := fun (q : QueueRun) step (h : q.InOrder s) (hstep : q.Allowed step) =>
    (h.step hstep).2
  constructor
  · refine everyState_of_everyStep hkeep (fun q h => ⟨?_, h.represents.reports⟩) steps hstart hsteps
    obtain ⟨left, hleft⟩ := h.order
    rw [QueueRun.remaining, ← hleft, List.drop_left]
  · exact everyStep_imp hkeep (fun q step h hstep => (h.step hstep).1) steps hstart hsteps

theorem empty_smallOpened : Empty smallSpool smallOpened.tree := by
  have hdir : (smallOpened.tree.children smallSpool.dir).map Prod.fst = [ascii "quarantine"] := by
    decide +kernel
  have hshelf : smallOpened.tree.children smallSpool.quarantineDir = [] := by decide +kernel
  refine ⟨rooted_smallOpened, ⟨0, by decide +kernel⟩, ⟨0, by decide +kernel⟩, fun n k hk => ?_, ?_⟩
  · have := List.mem_map_of_mem (f := Prod.fst) (Tree.mem_children.mpr hk)
    rw [hdir] at this
    exact List.mem_singleton.mp this
  · intro m x _ hx
    rw [Tree.children_eq_nil_iff.mp hshelf m] at hx
    cases hx

/-- Two batches, of which two payloads are taken: one is removed and one is quarantined. -/
def smallSteps : List QueueStep :=
  let env : Nat → Choice := fun _ => Choice.good 0
  [.put [[1], [2]] 5 [[49]] env, .take none env, .put [[3]] 7 [[49]] env,
    .take (some (ascii "bad")) env]

theorem spool_is_fifo_small :
    (smallSteps.foldl (QueueRun.next smallSpool) (QueueRun.start smallOpened)).taken = [[1], [2]] ∧
    EveryState (QueueRun.next smallSpool) (fun q => q.put = q.taken ++ q.remaining ∧
      Reports smallSpool q.disk q.remaining) (QueueRun.start smallOpened) smallSteps ∧
    EveryStep (QueueRun.next smallSpool) (QueueRun.Served smallSpool)
      (QueueRun.start smallOpened) smallSteps := by
  refine ⟨by decide +kernel, spool_is_fifo smallSpool empty_smallOpened smallSteps ?_⟩
  refine ⟨⟨by decide, by decide, by decide, by decide, by decide, by decide, fun _ => rfl⟩,
    fun _ => rfl, ⟨by decide, by decide, by decide, ?_, by decide, by decide, fun _ => rfl⟩,
    fun _ => rfl, trivial⟩
  show (5 : Int) < 7
  decide

end Dogstatsd.CustomSpool
