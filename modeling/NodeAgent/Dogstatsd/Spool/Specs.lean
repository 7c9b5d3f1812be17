import NodeAgent.Dogstatsd.Spool.Ready
import NodeAgent.Infra.Sequences

/-!
# What the operations of the spool do

One rule for each program of `Dogstatsd/Spool.lean`, in terms of the disk before and after. The
rules hold for every environment `R`, so any call may fail; the crash condition says what is on
the disk when the program is stopped between two calls.

* `filesLocked_wp` — listing changes nothing and returns the ready files
* `remove_wp`, `quarantine_wp`, `maintain_wp` — how files leave
-/

namespace Dogstatsd.CustomSpool

open Infra Prog

variable {R : Choice → FsOp → Disk → Prop} {s : CustomSpool} {d d' : Disk}

/-! ## Listing -/

theorem batchChunks_ok {batchDir : Path} : ∀ {chunks : List DirEntry} {files : List Path},
    batchChunks batchDir chunks = .ok files →
      files = chunks.map (fun chunk => batchDir ++ [chunk.name])
  | [], files, h => by
    simp only [batchChunks, Except.ok.injEq] at h
    simp [← h]
  | chunk :: rest, files, h => by
    simp only [batchChunks] at h
    split at h
    · cases h
    · split at h
      · next fs hfs =>
        simp only [Except.ok.injEq] at h
        rw [← h, batchChunks_ok hfs]
        rfl
      · cases h

theorem batchChunks_all {batchDir : Path} : ∀ {chunks : List DirEntry} {files : List Path},
    batchChunks batchDir chunks = .ok files →
      ∀ c ∈ chunks, isChunkName c.name = true ∧ c.isDir = false
  | [], _, _, _, hc => by cases hc
  | chunk :: rest, files, h, c, hc => by
    simp only [batchChunks] at h
    split at h
    · cases h
    next hchunk =>
    split at h
    · next hrest =>
      rcases List.mem_cons.mp hc with rfl | hc
      · simp only [Bool.or_eq_true, Bool.not_eq_true', not_or, Bool.not_eq_true,
          Bool.not_eq_false] at hchunk
        exact ⟨hchunk.2, hchunk.1⟩
      · exact batchChunks_all hrest c hc
    · cases h

/-- A batch directory that a listing accepts: it holds chunks, and nothing else. -/
structure BatchOk (s : CustomSpool) (t : Tree) (b : Name) : Prop where
  nonempty : t.children (s.dir ++ [b]) ≠ []
  chunks : ∀ {m n}, t.get? (s.dir ++ [b, m]) = some n → isChunkName m = true ∧ n.isDir = false

theorem filesLoop_wp (es : List DirEntry) (acc : List Path) :
    wp fsStep R (filesLoop s es acc)
      (fun r d' => d' = d ∧ ∀ files, r = .ok files →
        files = sortFiles (acc ++ es.flatMap (entryFiles s d.tree)) ∧
        ∀ e ∈ es, e.isDir = true → isBatchName e.name = true → BatchOk s d.tree e.name)
      (· = d) d := by
  induction es generalizing acc with
  | nil =>
    refine ⟨rfl, fun files h => ?_⟩
    simp only [Except.ok.injEq] at h
    simp [← h]
  | cons e es ih =>
    -- the rest of the loop, once `e` is known not to be a bad batch
    have hrest : ∀ acc', (e.isDir = true → isBatchName e.name = true → BatchOk s d.tree e.name) →
        acc' = acc ++ entryFiles s d.tree e →
        wp fsStep R (filesLoop s es acc') (fun r d' => d' = d ∧ ∀ files, r = .ok files →
          files = sortFiles (acc ++ (e :: es).flatMap (entryFiles s d.tree)) ∧
          ∀ e' ∈ e :: es, e'.isDir = true → isBatchName e'.name = true →
            BatchOk s d.tree e'.name) (· = d) d := by
      rintro acc' he rfl
      refine wp_mono ?_ (fun _ h => h) (ih _)
      rintro r d' ⟨hd, hr⟩
      refine ⟨hd, fun files hf => ?_⟩
      obtain ⟨h1, h2⟩ := hr files hf
      refine ⟨by rw [h1, List.flatMap_cons, List.append_assoc], fun e' he' => ?_⟩
      rcases List.mem_cons.mp he' with rfl | he'
      · exact he
      · exact h2 e' he'
    unfold filesLoop
    split
    · next h =>
      have hdir : e.isDir = false := by simpa using (Bool.and_eq_true_iff.mp h).1
      exact hrest _ (by simp [hdir]) (by rw [entryFiles, if_pos h])
    next h =>
    split
    · next hb =>
      refine wp_readDir rfl (fun x => ⟨rfl, by simp⟩) fun x _ => ?_
      split
      · exact ⟨rfl, by simp⟩
      · exact ⟨rfl, by simp⟩
      · next chunks hne he =>
        cases he
        split
        · exact ⟨rfl, by simp⟩
        · next batch hbatch =>
          refine hrest _ (fun _ _ => ⟨fun hempty => ?_, fun {m n} hn => ?_⟩) ?_
          · exact hne (Tree.dirEntries_eq_nil.mpr hempty)
          · have hmem : (⟨m, n.isDir⟩ : DirEntry) ∈ d.tree.dirEntries (s.dir ++ [e.name]) :=
              Tree.mem_dirEntries.mpr ⟨n, by simpa using hn, rfl⟩
            exact batchChunks_all hbatch _ hmem
          · rw [batchChunks_ok hbatch, entryFiles, if_neg h, if_pos hb]
            simp
    · next hb =>
      refine hrest _ (fun h1 h2 => absurd (by rw [h1, h2]; rfl) hb) ?_
      rw [entryFiles, if_neg h, if_neg hb, List.append_nil]

structure Listed (s : CustomSpool) (t : Tree) : Prop where
  isDir : ∃ x, t.get? s.dir = some (.dir x)
  batches : ∀ b x, isBatchName b = true → t.get? (s.dir ++ [b]) = some (.dir x) → BatchOk s t b

/-- **Listing changes nothing. A list it returns is that of the ready files, and then every batch
directory holds chunks, and nothing else.** -/
theorem filesLocked_wp : wp fsStep R (filesLocked s)
    (fun r d' => d' = d ∧ ∀ files, r = .ok files →
      files = readyFiles s d.tree ∧ Listed s d.tree) (· = d) d := by
  refine wp_readDir rfl (fun e => ⟨rfl, by simp⟩) fun x hx => ?_
  refine wp_mono ?_ (fun _ h => h) (filesLoop_wp _ _)
  rintro r d' ⟨hd, hr⟩
  refine ⟨hd, fun files hf => ?_⟩
  obtain ⟨h1, h2⟩ := hr files hf
  exact ⟨h1, ⟨x, hx⟩,
    fun b y hb hy => h2 ⟨b, true⟩ (Tree.mem_dirEntries.mpr ⟨_, hy, rfl⟩) rfl hb⟩

theorem statsLoop_wp (files : List Path) (bytes : Int) (oldest : Option Int) :
    wp fsStep R (statsLoop files bytes oldest) (fun _ d' => d' = d) (· = d) d := by
  induction files generalizing bytes oldest with
  | nil => rfl
  | cons file rest ih =>
    refine wp_os rfl fun c _ => ?_
    rcases fsStep_stat c d file with ⟨x, hx⟩ | ⟨n, _, hx⟩ <;> rw [hx]
    · rfl
    · exact ih _ _

theorem statsLocked_wp (now : Int) :
    wp fsStep R (statsLocked s now) (fun _ d' => d' = d) (· = d) d := by
  refine wp_seq filesLocked_wp (fun _ h => h) ?_
  rintro r d' ⟨rfl, _⟩
  cases r with
  | error e => rfl
  | ok files =>
    refine wp_seq (statsLoop_wp files 0 none) (fun _ h => h) ?_
    rintro r d' rfl
    cases r with
    | error e => rfl
    | ok sums => rfl

theorem oldest_wp : wp fsStep R (oldest s)
    (fun r d' => d' = d ∧ ∀ file, r = .ok (some file) → file ∈ readyFiles s d.tree) (· = d) d := by
  refine wp_seq filesLocked_wp (fun _ h => h) ?_
  rintro r d' ⟨rfl, h⟩
  cases r with
  | error e => exact ⟨rfl, by simp⟩
  | ok files =>
    refine ⟨rfl, fun file hf => ?_⟩
    simp only [Except.ok.injEq] at hf
    rw [← (h files rfl).1]
    exact List.mem_of_mem_head? hf

/-! ## Writing a batch -/

theorem mkdirTemp_wp (rands : List Bytes) :
    wp fsStep R (mkdirTemp s.dir rands)
      (fun r d' => (∃ e, r = .error e ∧ d' = d) ∨
        ∃ rand x, r = .ok (tempName rand) ∧ d.tree.get? (s.dir ++ [tempName rand]) = none ∧
          d.tree.hasParent (s.dir ++ [tempName rand]) = true ∧
          d' = d.put (s.dir ++ [tempName rand]) (.dir x)) (· = d) d := by
  induction rands with
  | nil => exact Or.inl ⟨_, rfl, rfl⟩
  | cons rand rands ih =>
    refine wp_os rfl fun c _ => ?_
    rcases fsStep_mkdir c d (s.dir ++ [tempName rand]) with ⟨e, he⟩ | ⟨hno, hpar, he⟩ <;> rw [he]
    · cases e with
      | exist => exact ih
      | io | noEnt | notDir | notEmpty | inval => exact Or.inl ⟨_, rfl, rfl⟩
    · exact Or.inr ⟨rand, _, rfl, hno, hpar, rfl⟩

/-- The directory `dir` holds the chunks `cs`, and nothing else. -/
structure HoldsChunks (dir : Path) (cs : List Bytes) (t : Tree) : Prop where
  chunk : ∀ i c, cs[i]? = some c → ∃ x, t.get? (dir ++ [chunkName i]) = some (.file c x)
  only : ∀ m n, t.get? (dir ++ [m]) = some n → ∃ i, i < cs.length ∧ m = chunkName i

theorem cleanupTemp_uses {dir f : Path} (h : dir <+: f) :
    (cleanupTemp f).Uses (FsOp.Stays dir) :=
  ⟨trivial, fun _ => ⟨h, fun _ => trivial⟩⟩

theorem cleanupTemp_wp {dir f : Path} {Q : Except Errno Unit → Disk → Prop} (hf : dir <+: f)
    (e : Errno) (h : Disk.Safe dir d d') (hQ : ∀ d1, Disk.Safe dir d d1 → Q (.error e) d1) :
    wp fsStep R (cleanupTemp f >>= fun _ => .ret (.error e)) Q (Disk.Safe dir d) d' := by
  refine wp_seq (wp_of_stays (cleanupTemp_uses hf) h) (fun _ h => h) ?_
  intro _ d1 h1
  exact hQ d1 h1

theorem writeChunk_wp {dir f : Path} (hf : dir <+: f) (payload : Bytes)
    (h : Disk.Safe dir d d') :
    wp fsStep R (writeChunk f payload)
      (fun r e => Disk.Safe dir d e ∧ (r = .ok () → d'.tree.get? f = none ∧
        ∃ x, ∀ q, e.tree.get? q = if q = f then some (.file payload x) else d'.tree.get? q))
      (Disk.Safe dir d) d' := by
  refine wp_os h fun c _ => ?_
  have h1 := fsStep_safe c (show FsOp.Stays dir (.create f) from hf) h
  rcases fsStep_create c d' f with ⟨e, he⟩ | ⟨hno, _, he⟩ <;> rw [he] at h1 ⊢
  · exact ⟨h, by simp⟩
  refine wp_os h1 fun c2 _ => ?_
  have h2 := fsStep_safe c2 (show FsOp.Stays dir (.write f payload) from hf) h1
  rcases fsStep_write c2 (d'.put f (.file [] c.clock)) f payload with
    ⟨e, he⟩ | ⟨e, x, m, y, _, he⟩ | ⟨x, m, _, he⟩ <;> rw [he] at h2 ⊢
  · exact cleanupTemp_wp hf e h2 fun _ h => ⟨h, by simp⟩
  · exact cleanupTemp_wp hf e h2 fun _ h => ⟨h, by simp⟩
  refine wp_os h2 fun c3 _ => ?_
  rw [fsStep_handle c3 _ (Or.inr (Or.inl ⟨f, rfl⟩))]
  split
  · exact cleanupTemp_wp hf _ h2 fun _ h => ⟨h, by simp⟩
  refine wp_os h2 fun c4 _ => ?_
  rw [fsStep_handle c4 _ (Or.inr (Or.inr ⟨f, rfl⟩))]
  split
  · exact cleanupTemp_wp hf _ h2 fun _ h => ⟨h, by simp⟩
  refine ⟨h2, fun _ => ⟨hno, c2.clock, fun q => ?_⟩⟩
  simp only [Disk.put_tree, Tree.get?_insert]
  split <;> rfl

theorem HoldsChunks.isDir {dir : Path} {cs : List Bytes} {t : Tree} (hc : HoldsChunks dir cs t)
    (hroot : t.Rooted) (hdir : dir ≠ []) (hne : cs ≠ []) : ∃ x, t.get? dir = some (.dir x) := by
  obtain ⟨c, rest, rfl⟩ := List.exists_cons_of_ne_nil hne
  obtain ⟨x, hx⟩ := hc.chunk 0 c rfl
  exact hroot _ _ _ hdir hx

theorem HoldsChunks.concat {dir : Path} {cs : List Bytes} {t t' : Tree} {payload : Bytes} {x : Int}
    (hc : HoldsChunks dir cs t) (hno : t.get? (dir ++ [chunkName cs.length]) = none)
    (hx : ∀ q, t'.get? q =
      if q = dir ++ [chunkName cs.length] then some (.file payload x) else t.get? q) :
    HoldsChunks dir (cs ++ [payload]) t' := by
  constructor
  · intro i c hi
    rw [hx]
    rcases of_getElem?_concat hi with hi | ⟨rfl, rfl⟩
    · obtain ⟨y, hy⟩ := hc.chunk i c hi
      -- the new file was not there before, so it is not one of the earlier chunks
      rw [if_neg (fun he => by rw [he, hno] at hy; simp at hy)]
      exact ⟨y, hy⟩
    · rw [if_pos rfl]
      exact ⟨x, rfl⟩
  · intro m n hn
    rw [hx] at hn
    split at hn
    · next he =>
      refine ⟨cs.length, by simp, ?_⟩
      simpa using he
    · obtain ⟨i, hi, rfl⟩ := hc.only m n hn
      exact ⟨i, by simp; omega, rfl⟩

theorem writeChunks_wp {dir : Path} : ∀ (rest done : List Bytes) (d' : Disk),
    Disk.Safe dir d d' → HoldsChunks dir done d'.tree →
    wp fsStep R (writeChunks dir done.length rest)
      (fun r e => Disk.Safe dir d e ∧ (r = .ok () → HoldsChunks dir (done ++ rest) e.tree))
      (Disk.Safe dir d) d' := by
  intro rest
  induction rest with
  | nil => intro done d' h hc; exact ⟨h, fun _ => by simpa using hc⟩
  | cons payload rest ih =>
    intro done d' h hc
    refine wp_seq (writeChunk_wp (List.prefix_append _ _) payload h) (fun _ h => h) ?_
    rintro r e ⟨hs, hr⟩
    cases r with
    | error x => exact ⟨hs, by simp⟩
    | ok u =>
      obtain ⟨hno, x, hx⟩ := hr rfl
      have hnext := hc.concat hno hx
      have := ih (done ++ [payload]) e hs hnext
      simpa using this

theorem syncBatch_wp {dir : Path} :
    wp fsStep R (syncBatch dir) (fun _ e => e = d) (· = d) d := by
  refine wp_os rfl fun c _ => ?_
  rw [fsStep_handle c _ (Or.inl ⟨dir, rfl⟩)]
  split
  · rfl
  refine wp_os rfl fun c _ => ?_
  rw [fsStep_handle c _ (Or.inr (Or.inl ⟨dir, rfl⟩))]
  refine wp_os rfl fun c _ => ?_
  rw [fsStep_handle c _ (Or.inr (Or.inr ⟨dir, rfl⟩))]
  split <;> rfl

theorem syncDir_wp {dir : Path} :
    wp fsStep R (syncDir dir) (fun _ e => e = d) (· = d) d := by
  refine wp_os rfl fun c _ => ?_
  rw [fsStep_handle c _ (Or.inl ⟨dir, rfl⟩)]
  split
  · rfl
  refine wp_os rfl fun c _ => ?_
  rw [fsStep_handle c _ (Or.inr (Or.inl ⟨dir, rfl⟩))]
  refine wp_os rfl fun c _ => ?_
  rw [fsStep_handle c _ (Or.inr (Or.inr ⟨dir, rfl⟩))]
  rfl

/-- Nothing changed but for a temporary directory. -/
def Pending (s : CustomSpool) (d d' : Disk) : Prop :=
  ∃ temp, isTempName temp = true ∧ Disk.Safe (s.dir ++ [temp]) d d'

/-- The batch `b` with the chunks `payloads` was added, and nothing else changed but for a
temporary directory. -/
structure Committed (s : CustomSpool) (payloads : List Bytes) (temp b : Name) (d d' : Disk) :
    Prop where
  nonempty : payloads ≠ []
  isTemp : isTempName temp = true
  isBatch : isBatchName b = true
  fresh : d.tree.get? (s.dir ++ [b]) = none
  rooted : d'.tree.Rooted
  others : ∀ r, ¬ s.dir ++ [temp] <+: r → ¬ s.dir ++ [b] <+: r → d'.tree.get? r = d.tree.get? r
  chunks : HoldsChunks (s.dir ++ [b]) payloads d'.tree
  journal : ∃ l, d'.journal = .renamed (s.dir ++ [temp]) (s.dir ++ [b]) :: (l ++ d.journal) ∧
    ∀ ch ∈ l, ∃ r, s.dir ++ [temp] <+: r ∧ ch = .removed r

theorem Pending.refl (hd : d.tree.Rooted) : Pending s d d :=
  ⟨tempName [], isTempName_tempName [], Disk.Within.refl _ d, hd⟩

theorem committed_of_rename {payloads : List Bytes} {temp b : Name} {d1 : Disk}
    (hpay : payloads ≠ []) (htemp : isTempName temp = true) (hb : isBatchName b = true)
    (hs : Disk.Safe (s.dir ++ [temp]) d d1) (hc : HoldsChunks (s.dir ++ [temp]) payloads d1.tree)
    (hfree : d1.tree.get? (s.dir ++ [b]) = none)
    (hroot : (d1.renamed (s.dir ++ [temp]) (s.dir ++ [b])).tree.Rooted) :
    Committed s payloads temp b d (d1.renamed (s.dir ++ [temp]) (s.dir ++ [b])) := by
  have hne : temp ≠ b := isQueueName_ne_temp (isQueueName_of_batch hb) htemp
  have hpq : ¬ s.dir ++ [temp] <+: s.dir ++ [b] := not_prefix_of_ne hne []
  have hqp : ¬ s.dir ++ [b] <+: s.dir ++ [temp] := not_prefix_of_ne (Ne.symm hne) []
  have hmoved : ∀ m, (d1.renamed (s.dir ++ [temp]) (s.dir ++ [b])).tree.get? (s.dir ++ [b] ++ [m])
      = d1.tree.get? (s.dir ++ [temp] ++ [m]) := by
    intro m
    rw [Disk.renamed_tree, Tree.get?_move hpq hqp, if_pos (List.prefix_append _ _),
      List.drop_left]
  refine ⟨hpay, htemp, hb, ?_, hroot, ?_, ⟨?_, ?_⟩, ?_⟩
  · rw [← hs.outside _ hpq, hfree]
  · intro r hr1 hr2
    rw [Disk.renamed_tree, Tree.get?_move hpq hqp, if_neg hr2, if_neg hr1, hs.outside r hr1]
  · intro i c hi
    rw [hmoved]
    exact hc.chunk i c hi
  · intro m n hn
    rw [hmoved] at hn
    exact hc.only m n hn
  · obtain ⟨l, hl, hall⟩ := hs.journal
    exact ⟨l, by rw [Disk.renamed_journal, hl], hall⟩

theorem commitBatch_wp {payloads : List Bytes} {temp b : Name} (hne : payloads ≠ [])
    (htemp : isTempName temp = true) (hb : isBatchName b = true)
    (hs : Disk.Safe (s.dir ++ [temp]) d d') (hc : HoldsChunks (s.dir ++ [temp]) [] d'.tree) :
    wp fsStep R (commitBatch (s.dir ++ [temp]) (s.dir ++ [b]) payloads)
      (fun r e => match r with
        | .ok _ => Committed s payloads temp b d e
        | .error _ => Disk.Safe (s.dir ++ [temp]) d e)
      (Disk.Safe (s.dir ++ [temp]) d) d' := by
  refine wp_seq (writeChunks_wp payloads [] d' hs hc) (fun _ h => h) ?_
  rintro r d1 ⟨h1, hr⟩
  cases r with
  | error e => exact h1
  | ok u =>
    have hchunks := hr rfl
    rw [List.nil_append] at hchunks
    refine wp_seq syncBatch_wp (fun _ h => h ▸ h1) ?_
    rintro r d2 rfl
    cases r with
    | error e => exact h1
    | ok u =>
      refine ⟨h1, fun c _ => ?_⟩
      have hroot := fsStep_rooted c (.rename (s.dir ++ [temp]) (s.dir ++ [b])) h1.rooted
      rcases fsStep_rename c d2 (s.dir ++ [temp]) (s.dir ++ [b]) with
        ⟨e, he⟩ | ⟨n, hn, hfile, _, _, _, he⟩ <;> rw [he] at hroot ⊢
      · exact h1
      · refine committed_of_rename hne htemp hb h1 hchunks ?_ hroot
        obtain ⟨y, hy⟩ := hchunks.isDir h1.rooted (by simp) hne
        rw [Option.eq_none_iff_forall_ne_some]
        intro m hm
        have := (hfile m hm).2
        rw [hn, Option.some.injEq] at hy
        rw [hy] at this
        cases this

theorem temp_made {temp : Name} (hroot : d.tree.Rooted) (hno : d.tree.get? (s.dir ++ [temp]) = none)
    (hpar : d.tree.hasParent (s.dir ++ [temp]) = true) (x : Int) :
    Disk.Safe (s.dir ++ [temp]) d (d.put (s.dir ++ [temp]) (.dir x)) ∧
      HoldsChunks (s.dir ++ [temp]) [] (d.put (s.dir ++ [temp]) (.dir x)).tree := by
  refine ⟨⟨(Disk.Within.refl _ d).put (List.prefix_refl _) _, hroot.insert hpar (by simp [hno])⟩,
    by simp, fun m n hn => ?_⟩
  rw [Disk.put_tree, Tree.get?_insert, if_neg (by simp),
    hroot.get?_none (by simp) (by simp [hno]) [m] (by simp)] at hn
  cases hn

/-- **A batch is added as a whole or not at all.** -/
theorem putBatch_wp (hroot : d.tree.Rooted) (payloads : List Bytes) (now : Int)
    (rands : List Bytes) :
    wp fsStep R (putBatch s payloads now rands)
      (fun r d' => match r with
        | .ok files => ∃ temp, Committed s payloads temp (batchName now temp) d d' ∧
            files = createdFiles (s.dir ++ [batchName now temp]) payloads
        | .error _ => Pending s d d')
      (fun d' => Pending s d d' ∨ ∃ temp, Committed s payloads temp (batchName now temp) d d')
      d := by
  unfold putBatch
  split
  · exact Pending.refl hroot
  next hne =>
  split
  · exact Pending.refl hroot
  have hsame : ∀ e, e = d → Pending s d e ∨
      ∃ temp, Committed s payloads temp (batchName now temp) d e := by
    rintro e rfl
    exact Or.inl (Pending.refl hroot)
  refine wp_seq (statsLocked_wp now) hsame ?_
  rintro r d' rfl
  cases r with
  | error e => exact Pending.refl hroot
  | ok stats =>
    simp only
    split
    · exact Pending.refl hroot
    refine wp_seq (mkdirTemp_wp rands) hsame ?_
    rintro r d1 (⟨e, rfl, rfl⟩ | ⟨rand, x, rfl, hno, hpar, rfl⟩)
    · exact Pending.refl hroot
    have htemp := isTempName_tempName rand
    obtain ⟨hs, hempty⟩ := temp_made hroot hno hpar x
    refine wp_seq (commitBatch_wp hne htemp (isBatchName_batchName now (tempName rand)) hs hempty)
      (fun _ h => Or.inl ⟨_, htemp, h⟩) ?_
    intro r d2 h2
    cases r with
    | error e =>
      refine wp_seq (removeAll_safe h2) (fun _ h => Or.inl ⟨_, htemp, h⟩) ?_
      intro _ d3 h3
      exact ⟨_, htemp, h3⟩
    | ok u =>
      refine wp_seq syncDir_wp (fun _ h => Or.inr ⟨_, h ▸ h2⟩) ?_
      rintro _ d3 rfl
      exact ⟨_, h2, rfl⟩

/-! ## Taking a payload out -/

/-- The directory of `file` was removed if it was empty, or left. -/
def Swept (s : CustomSpool) (file : Path) (d d' : Disk) : Prop :=
  d' = d ∨ (file.dropLast ≠ s.dir ∧ d.tree.Removable file.dropLast ∧
    d' = d.removed file.dropLast)

theorem Swept.rooted {file : Path} (h : Swept s file d d') (hd : d.tree.Rooted) :
    d'.tree.Rooted := by
  rcases h with rfl | ⟨_, hrem, rfl⟩
  · exact hd
  · exact hd.erase hrem

theorem dropEmptyBatch_wp {file : Path} :
    wp fsStep R (dropEmptyBatch s file) (fun _ => Swept s file d) (Swept s file d) d := by
  unfold dropEmptyBatch
  split
  · exact Or.inl rfl
  next hne =>
  refine wp_readDir (Or.inl rfl) (fun e => Or.inl rfl) fun x hx => ?_
  split
  · exact wp_remove (Or.inl rfl) (fun e => Or.inl rfl) fun hrem => Or.inr ⟨hne, hrem, rfl⟩
  · exact Or.inl rfl

/-- The file was removed, and then its directory if it was empty. -/
def Taken (s : CustomSpool) (file : Path) (d d' : Disk) : Prop :=
  isReadyPath s file = true ∧ d.tree.Removable file ∧ Swept s file (d.removed file) d'

theorem validReadyPath_ok {file path : Path} (h : validReadyPath s file = .ok path) :
    path = file ∧ isReadyPath s file = true := by
  unfold validReadyPath at h
  split at h
  · next hp =>
    simp only [Except.ok.injEq] at h
    exact ⟨h.symm, hp⟩
  · cases h

theorem remove_wp (file : Path) :
    wp fsStep R (remove s file)
      (fun r d' => match r with
        | .ok _ => Taken s file d d'
        | .error _ => d' = d)
      (fun d' => d' = d ∨ Taken s file d d') d := by
  unfold remove
  split
  · rfl
  next path hpath =>
  obtain ⟨rfl, hready⟩ := validReadyPath_ok hpath
  refine wp_remove (Or.inl rfl) (fun e => rfl) fun hrem => ?_
  refine wp_seq dropEmptyBatch_wp (fun _ h => Or.inr ⟨hready, hrem, h⟩) ?_
  intro _ d1 h1
  exact ⟨hready, hrem, h1⟩

/-- The file was moved to the quarantine, and then its directory removed if it was empty. -/
def Shelved (s : CustomSpool) (file : Path) (reason : Bytes) (d d' : Disk) : Prop :=
  isReadyPath s file = true ∧ d.tree.Renamable file (destination s file reason) ∧
    Swept s file (d.renamed file (destination s file reason)) d'

theorem quarantine_wp (file : Path) (reason : Bytes) :
    wp fsStep R (quarantine s file reason)
      (fun r d' => match r with
        | .ok dest => dest = destination s file reason ∧ Shelved s file reason d d'
        | .error _ => d' = d)
      (fun d' => d' = d ∨ Shelved s file reason d d') d := by
  unfold quarantine
  split
  · rfl
  next path hpath =>
  obtain ⟨rfl, hready⟩ := validReadyPath_ok hpath
  refine wp_rename (Or.inl rfl) (fun e => rfl) fun hren => ?_
  refine wp_seq dropEmptyBatch_wp (fun _ h => Or.inr ⟨hready, hren, h⟩) ?_
  intro _ d1 h1
  exact ⟨rfl, hready, hren, h1⟩

/-! ## Maintenance -/

variable {I C : Disk → Prop}

theorem expireLoop_wp {cutoff : Int} (hIC : ∀ d, I d → C d) :
    ∀ (files : List Path) (expired : Nat) (d : Disk),
    (∀ d file n, file ∈ files → I d → d.tree.get? file = some n → n.mtime < cutoff →
      d.tree.Removable file →
      wp fsStep R (dropEmptyBatch s file) (fun _ => I) C (d.removed file)) →
    I d → wp fsStep R (expireLoop s cutoff files expired) (fun _ => I) C d := by
  intro files
  induction files with
  | nil => intro _ d _ hd; exact hd
  | cons file rest ih =>
    intro expired d hstep hd
    have hrest := fun d f n hf => hstep d f n (List.mem_cons_of_mem file hf)
    refine wp_stat (hIC d hd) (fun e => hd) fun n hn => ?_
    simp only
    split
    · next hold =>
      refine wp_remove (hIC d hd) (fun e => hd) fun hrem => ?_
      refine wp_seq (hstep d file n List.mem_cons_self hd hn hold hrem) (fun _ h => h) ?_
      intro _ d1 h1
      exact ih _ d1 hrest h1
    · exact ih _ d hrest hd

theorem itemsLoop_wp (entries : List DirEntry) (items : List QuarantineEntry)
    (hitems : ∀ i ∈ items, ∃ m, i.path = s.quarantineDir ++ [m]) :
    wp fsStep R (itemsLoop s entries items)
      (fun r d' => d' = d ∧ ∀ l, r = .ok l → ∀ i ∈ l, ∃ m, i.path = s.quarantineDir ++ [m])
      (· = d) d := by
  induction entries generalizing items with
  | nil =>
    refine ⟨rfl, fun l hl => ?_⟩
    simp only [Except.ok.injEq] at hl
    exact hl ▸ hitems
  | cons entry rest ih =>
    refine wp_os rfl fun c _ => ?_
    rcases fsStep_walk c d (s.quarantineDir ++ [entry.name]) with ⟨e, he, _⟩ | ⟨n, _, he⟩ <;>
      rw [he]
    · exact ⟨rfl, by simp⟩
    · refine wp_stat rfl (fun e => ⟨rfl, by simp⟩) fun n _ => ?_
      refine ih _ fun i hi => ?_
      rcases List.mem_append.mp hi with hi | hi
      · exact hitems i hi
      · rw [List.mem_singleton.mp hi]
        exact ⟨_, rfl⟩

theorem evictLoop_wp (hq : ∀ d r m, s.quarantineDir ++ [m] <+: r → d.tree.Removable r → I d →
      I (d.removed r)) :
    ∀ (items : List QuarantineEntry) (total : Int) (removed : Nat) (d : Disk),
    (∀ i ∈ items, ∃ m, i.path = s.quarantineDir ++ [m]) → I d →
    wp fsStep R (evictLoop s items total removed) (fun _ => I) I d := by
  intro items
  induction items with
  | nil => intro _ _ d _ hd; exact hd
  | cons item rest ih =>
    intro total removed d hitems hd
    unfold evictLoop
    split
    · exact hd
    obtain ⟨m, hm⟩ := hitems item List.mem_cons_self
    refine wp_seq (removeAll_wp (fun d r hr hrem h => hq d r m (hm ▸ hr) hrem h) hd)
      (fun _ h => h) ?_
    rintro r d1 ⟨h1, _⟩
    cases r with
    | error e => exact h1
    | ok u => exact ih _ _ d1 (fun i hi => hitems i (List.mem_cons_of_mem item hi)) h1

/-- **What maintenance keeps**: an invariant that survives the removal of an expired ready file
and every removal in the quarantine. -/
theorem maintain_wp (now : Int) (hIC : ∀ d, I d → C d)
    (hexp : ∀ d' file n, file ∈ readyFiles s d.tree → I d' → d'.tree.get? file = some n →
      n.mtime < now - s.maxAge → d'.tree.Removable file →
      wp fsStep R (dropEmptyBatch s file) (fun _ => I) C (d'.removed file))
    (hq : ∀ d r m, s.quarantineDir ++ [m] <+: r → d.tree.Removable r → I d → I (d.removed r))
    (hd : I d) : wp fsStep R (maintain s now) (fun _ => I) C d := by
  refine wp_seq filesLocked_wp (fun _ h => h ▸ hIC d hd) ?_
  rintro r d' ⟨rfl, hfiles⟩
  cases r with
  | error e => exact hd
  | ok files =>
    obtain rfl := (hfiles files rfl).1
    refine wp_seq (expireLoop_wp hIC _ 0 d' hexp hd) (fun _ h => h) ?_
    rintro ⟨expired, err⟩ d1 h1
    cases err with
    | some e => exact h1
    | none =>
      refine wp_readDir (hIC d1 h1) (fun e => h1) fun x _ => ?_
      refine wp_seq (itemsLoop_wp _ [] (by simp)) (fun _ h => h ▸ hIC d1 h1) ?_
      rintro r d2 ⟨rfl, hitems⟩
      cases r with
      | error e => exact h1
      | ok items =>
        refine wp_seq (evictLoop_wp hq _ _ _ d2 ?_ h1) hIC ?_
        · intro i hi
          exact hitems items rfl i (List.mem_insertionSort _ |>.mp hi)
        · rintro ⟨removed, err⟩ d3 h3
          exact h3

end Dogstatsd.CustomSpool
