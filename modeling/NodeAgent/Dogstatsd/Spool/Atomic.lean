import NodeAgent.Dogstatsd.Spool.Listing

/-!
# A batch is put as a whole and within the quota (`dogstatsd/spool.go`)

* `putBatch_atomic` — all or nothing, whichever calls fail
-/

namespace Dogstatsd.CustomSpool

open Infra Prog

variable {R : Choice → FsOp → Disk → Prop} {s : CustomSpool} {d d' : Disk}
  {payloads : List Bytes} {temp b : Name}

/-! ## The quota -/

theorem putBatch_quota (hroot : d.tree.Rooted) (payloads : List Bytes) (now : Int)
    (rands : List Bytes) :
    wp fsStep R (putBatch s payloads now rands)
      (fun r _ => ∀ files, r = .ok files → Sound s d.tree ∧
        (usedBytes s d.tree : Int) + (payloads.map List.length).sum ≤ s.maxBytes)
      (fun _ => True) d := by
  unfold putBatch
  split
  · simp
  split
  · simp
  refine wp_seq (statsLocked_sum hroot now) (fun _ h => h) ?_
  intro r d1 hstats
  cases r with
  | error e => simp
  | ok stats =>
    obtain ⟨hs, _, hbytes⟩ := hstats stats rfl
    simp only
    split
    · simp
    next hfits =>
    -- what comes now does not change the sums
    refine wp_mono (fun r _ _ files _ => ⟨hs, by omega⟩) (fun _ h => h)
      (wp_of_step (I := fun _ => True) (fun _ _ _ _ => trivial) _ trivial)

/-! ## The files of a batch -/

theorem chunkName_inj {i j : Nat} (h : chunkName i = chunkName j) : i = j := by
  simp only [chunkName, List.append_cancel_right_eq, List.append_cancel_left_eq] at h
  exact zeroPadded_inj h

theorem nodup_createdFiles (batchDir : Path) (payloads : List Bytes) :
    (createdFiles batchDir payloads).Nodup := by
  refine List.nodup_range.map fun i j h => ?_
  exact chunkName_inj (by simpa using h)

theorem mem_createdFiles {batchDir p : Path} : p ∈ createdFiles batchDir payloads ↔
    ∃ i, i < payloads.length ∧ p = batchDir ++ [chunkName i] := by
  simp only [createdFiles, List.mem_map, List.mem_range]
  exact exists_congr fun i => and_congr_right fun _ => eq_comm

theorem Committed.contents (h : Committed s payloads temp b d d') :
    (createdFiles (s.dir ++ [b]) payloads).map d'.tree.content? = payloads.map some := by
  refine List.ext_getElem? fun i => ?_
  rw [createdFiles, List.map_map, List.getElem?_map, List.getElem?_map]
  by_cases hi : i < payloads.length
  · obtain ⟨x, hx⟩ := h.chunks.chunk i _ (List.getElem?_eq_getElem hi)
    rw [List.getElem?_range hi, List.getElem?_eq_getElem hi]
    exact congrArg some (Tree.content?_eq_some.mpr ⟨x, hx⟩)
  · rw [List.getElem?_eq_none (by simpa using hi), List.getElem?_eq_none (by simpa using hi)]
    rfl

theorem Committed.fresh_chunk (h : Committed s payloads temp b d d') (hroot : d.tree.Rooted)
    {p : Path} (hp : p ∈ createdFiles (s.dir ++ [b]) payloads) : d.tree.get? p = none := by
  obtain ⟨i, _, rfl⟩ := mem_createdFiles.mp hp
  exact hroot.get?_none (by simp) (by simp [h.fresh]) [chunkName i] (by simp)

theorem isSome_batchContent {batchDir p : Path} :
    (batchContent batchDir payloads p).isSome = true ↔ p ∈ createdFiles batchDir payloads := by
  rw [mem_createdFiles]
  cases hc : batchContent batchDir payloads p with
  | some c =>
    obtain ⟨l1, l2, he, _⟩ := List.lookup_eq_some_iff.mp hc
    have hmem : (p, c) ∈ (createdFiles batchDir payloads).zip payloads := by rw [he]; simp
    obtain ⟨i, hi, rfl⟩ := mem_createdFiles_zip.mp hmem
    exact iff_of_true rfl ⟨i, (List.getElem?_eq_some_iff.mp hi).1, rfl⟩
  | none =>
    refine iff_of_false (by simp) ?_
    rintro ⟨i, hi, rfl⟩
    have hmem : (batchDir ++ [chunkName i], payloads[i]) ∈
        (createdFiles batchDir payloads).zip payloads :=
      mem_createdFiles_zip.mpr ⟨i, List.getElem?_eq_getElem hi, rfl⟩
    have := List.lookup_eq_none_iff.mp hc _ hmem
    simp at this

/-- **After a batch was put, its files are listed in addition to the others.** -/
theorem Committed.listed (h : Committed s payloads temp b d d') (hs : Sound s d.tree) :
    (readyFiles s d'.tree).Perm
        (readyFiles s d.tree ++ createdFiles (s.dir ++ [b]) payloads) ∧
      (readyFiles s d.tree ++ createdFiles (s.dir ++ [b]) payloads).Nodup := by
  have hnodup : (readyFiles s d.tree ++ createdFiles (s.dir ++ [b]) payloads).Nodup := by
    refine nodup_readyFiles.append (nodup_createdFiles _ _) fun p hp hp' => ?_
    obtain ⟨c, x, hc⟩ := file_of_mem_readyFiles hs.toLayout hp
    rw [h.fresh_chunk hs.rooted hp'] at hc
    cases hc
  refine ⟨(List.perm_ext_iff_of_nodup nodup_readyFiles hnodup).mpr fun p => ?_, hnodup⟩
  rw [List.mem_append, mem_readyFiles (h.layout hs.toLayout), mem_readyFiles hs.toLayout,
    h.ready_eq hs.toLayout, Option.isSome_or, Bool.or_eq_true, isSome_batchContent]
  exact or_comm

theorem Committed.content_old (h : Committed s payloads temp b d d') (hs : Sound s d.tree)
    {p : Path} (hp : p ∈ readyFiles s d.tree) : d'.tree.content? p = d.tree.content? p := by
  have hready := isReadyPath_of_mem hs.toLayout hp
  have hnew : batchContent (s.dir ++ [b]) payloads p = none := by
    rw [← Option.not_isSome_iff_eq_none, isSome_batchContent]
    intro hp'
    obtain ⟨c, x, hc⟩ := file_of_mem_readyFiles hs.toLayout hp
    rw [h.fresh_chunk hs.rooted hp'] at hc
    cases hc
  have := h.ready_eq hs.toLayout (r := p)
  rwa [hnew, Option.none_or, ready, ready, if_pos hready, if_pos hready] at this

theorem sum_fileBytes_congr {t t' : Tree} {files : List Path}
    (h : ∀ p ∈ files, t'.content? p = t.content? p) :
    (files.map (fileBytes t')).sum = (files.map (fileBytes t)).sum := by
  refine congrArg List.sum (List.map_congr_left fun p hp => ?_)
  rw [fileBytes, fileBytes, h p hp]

theorem Committed.usedBytes_eq (h : Committed s payloads temp b d d') (hs : Sound s d.tree) :
    usedBytes s d'.tree = usedBytes s d.tree + (payloads.map List.length).sum := by
  have hnew : (createdFiles (s.dir ++ [b]) payloads).map (fileBytes d'.tree) =
      payloads.map List.length := by
    have := congrArg (List.map fun c : Option Bytes => (c.getD []).length) h.contents
    rw [List.map_map, List.map_map] at this
    exact this
  rw [usedBytes, ((h.listed hs).1.map _).sum_nat, List.map_append, List.sum_append, hnew,
    sum_fileBytes_congr fun p hp => h.content_old hs hp]
  rfl

/-! ## All or nothing -/

theorem Pending.same (h : Pending s d d') :
    d'.tree.get? s.dir = d.tree.get? s.dir ∧ SameQueue s d.tree d'.tree := by
  obtain ⟨temp, htemp, hsafe⟩ := h
  exact ⟨hsafe.outside _ (dir_not_under temp []), sameQueue_of_safe htemp hsafe⟩

theorem readyFiles_of_listing {files : List Path} (h : listing s d = .ok files) :
    files = readyFiles s d.tree ∧ Listed s d.tree :=
  (wp_run (R := fun _ _ _ => True) (fun _ _ => trivial) filesLocked_wp).2 files h

theorem content_of_sameQueue (hroot : d.tree.Rooted) (hq : SameQueue s d.tree d'.tree)
    {files : List Path} (h : listing s d = .ok files) {p : Path} (hp : p ∈ files) :
    d'.tree.content? p = d.tree.content? p := by
  obtain ⟨rfl, hlisted⟩ := readyFiles_of_listing h
  obtain ⟨n, l, rfl, hn⟩ := isReadyPath_under (isReadyPath_of_mem (hlisted.sound hroot).toLayout hp)
  exact Tree.content?_congr (hq n l hn)

/-- **`PutBatch` is all or nothing, whichever calls fail.** If it returns an error, the spool lists
the same files. If it succeeds, the new files are listed too, their contents are the payloads, and
all ready files are within the quota. -/
theorem putBatch_atomic (s : CustomSpool) (payloads : List Bytes) (now : Int) (rands : List Bytes)
    (env : Nat → Choice) (d : Disk) (hroot : d.tree.Rooted) :
    let out := play fsStep (putBatch s payloads now rands) env d
    match out.1 with
    | .error _ =>
      listing s out.2 = listing s d ∧
        ∀ files, listing s d = .ok files → ∀ p ∈ files, out.2.tree.content? p = d.tree.content? p
    | .ok created =>
      ∃ files files', listing s d = .ok files ∧ listing s out.2 = .ok files' ∧
        files'.Perm (files ++ created) ∧ (files ++ created).Nodup ∧
        (∀ p ∈ files, out.2.tree.content? p = d.tree.content? p) ∧
        created.map out.2.tree.content? = payloads.map some ∧
        ((files'.map (fileBytes out.2.tree)).sum : Int) ≤ s.maxBytes := by
  intro out
  have hwp := wp_and (putBatch_wp (R := fun _ _ _ => True) (s := s) hroot payloads now rands)
    (putBatch_quota hroot payloads now rands)
  obtain ⟨hput, hquota⟩ := wp_play env hwp fun _ _ _ => trivial
  cases hr : out.1 with
  | error e =>
    rw [show (play fsStep (putBatch s payloads now rands) env d).1 = .error e from hr] at hput
    obtain ⟨hdir, hq⟩ := hput.same
    exact ⟨listing_congr hdir hq, fun files hf p hp => content_of_sameQueue hroot hq hf hp⟩
  | ok created =>
    rw [show (play fsStep (putBatch s payloads now rands) env d).1 = .ok created from hr] at hput
    obtain ⟨temp, hc, rfl⟩ := hput
    obtain ⟨hs, hfits⟩ := hquota _ hr
    obtain ⟨hperm, hnodup⟩ := hc.listed hs
    have hbefore : listing s d = .ok (readyFiles s d.tree) := listing_of_sound hs
    have hafter : listing s out.2 = .ok (readyFiles s out.2.tree) :=
      listing_of_sound (sound_of_committed hs hc)
    refine ⟨readyFiles s d.tree, readyFiles s out.2.tree, hbefore, hafter, hperm, hnodup,
      fun p hp => hc.content_old hs hp, hc.contents, ?_⟩
    have hused := hc.usedBytes_eq hs
    rw [usedBytes] at hused
    rw [hused]
    exact_mod_cast hfits

/-- The rename fails, and so does the clean-up after it: nothing is added. -/
theorem putBatch_atomic_small :
    let env : Nat → Choice := fun i => if i < 9 then Choice.good 0 else Choice.bad
    let out := play fsStep (putBatch smallSpool [[1]] 5 [[49]]) env smallOpened
    out.1 = .error (.os .io) ∧ listing smallSpool out.2 = listing smallSpool smallOpened := by
  intro env out
  have hout : out.1 = .error (.os .io) := by decide +kernel
  -- from here on the run need not be evaluated
  clear_value env
  have hatomic := putBatch_atomic smallSpool [[1]] 5 [[49]] env smallOpened rooted_smallOpened
  refine ⟨hout, ?_⟩
  simp only [show (play fsStep (putBatch smallSpool [[1]] 5 [[49]]) env smallOpened).1 =
    .error (.os .io) from hout] at hatomic
  exact hatomic.1

end Dogstatsd.CustomSpool
