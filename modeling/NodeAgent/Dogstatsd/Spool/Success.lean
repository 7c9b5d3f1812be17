import NodeAgent.Dogstatsd.Spool.Atomic
import NodeAgent.Dogstatsd.Spool.Evidence

/-!
# When no call fails

What the operations return on a sound spool when the environment makes no call fail. Nothing else
stops them: the names they make are free, and what they list is there.

* `putBatch_ok` — a batch is put if it fits, and refused if it does not
* `remove_ok`, `quarantine_ok` — a ready file is taken out
-/

namespace Dogstatsd.CustomSpool

open Infra Prog

variable {s : CustomSpool} {d d' : Disk} {payloads : List Bytes} {temp b : Name} {file : Path}

/-! ## Writing a batch -/

theorem mkdirTemp_ok {rand : Bytes} (hdir : ∃ x, d.tree.get? s.dir = some (.dir x))
    (hfree : d.tree.get? (s.dir ++ [tempName rand]) = none) (rands : List Bytes) :
    wp fsStep NoFault (mkdirTemp s.dir (rand :: rands))
      (fun r d' => r = .ok (tempName rand) ∧ d.tree.hasParent (s.dir ++ [tempName rand]) = true ∧
        ∃ x, d' = d.put (s.dir ++ [tempName rand]) (.dir x)) (fun _ => True) d := by
  obtain ⟨y, hy⟩ := hdir
  have hpar := Tree.hasParent_of_dir s.dir_ne hy (tempName rand)
  refine wp_os trivial fun c hc => ?_
  rw [fsStep_of_not_fails hc]
  simp only [effect, hfree, hpar, Option.isSome_none, Bool.false_eq_true, if_false, if_true]
  exact ⟨rfl, trivial, _, rfl⟩

theorem writeChunk_ok {dir : Path} {m : Name} {x : Int} (hdir : dir ≠ [])
    (hx : d.tree.get? dir = some (.dir x)) (hfree : d.tree.get? (dir ++ [m]) = none)
    (payload : Bytes) :
    wp fsStep NoFault (writeChunk (dir ++ [m]) payload) (fun r _ => r = .ok ())
      (fun _ => True) d := by
  have hpar := Tree.hasParent_of_dir hdir hx m
  refine wp_os trivial fun c hc => ?_
  rw [fsStep_of_not_fails hc]
  simp only [effect, hfree, hpar, Option.isSome_none, Bool.false_eq_true, if_false, if_true]
  refine wp_os trivial fun c2 hc2 => ?_
  rw [fsStep_of_not_fails hc2]
  simp only [effect, Disk.put_tree, Tree.get?_insert, if_true]
  refine wp_os trivial fun c3 hc3 => ?_
  rw [fsStep_of_not_fails hc3]
  refine wp_os trivial fun c4 hc4 => ?_
  rw [fsStep_of_not_fails hc4]
  rfl

theorem HoldsChunks.next_free {dir : Path} {cs : List Bytes} {t : Tree}
    (hc : HoldsChunks dir cs t) : t.get? (dir ++ [chunkName cs.length]) = none := by
  rw [Option.eq_none_iff_forall_ne_some]
  intro n hn
  obtain ⟨i, hi, he⟩ := hc.only _ n hn
  rw [← chunkName_inj he] at hi
  exact Nat.lt_irrefl _ hi

theorem writeChunks_ok {dir : Path} (hdir : dir ≠ []) : ∀ (rest done : List Bytes) (d' : Disk),
    Disk.Safe dir d d' → HoldsChunks dir done d'.tree → (∃ x, d'.tree.get? dir = some (.dir x)) →
    wp fsStep NoFault (writeChunks dir done.length rest) (fun r _ => r = .ok ())
      (fun _ => True) d' := by
  intro rest
  induction rest with
  | nil => exact fun _ _ _ _ _ => rfl
  | cons payload rest ih =>
    rintro done d' h hc ⟨y, hy⟩
    refine wp_seq (wp_and (writeChunk_wp (List.prefix_append _ _) payload h)
      (writeChunk_ok hdir hy hc.next_free payload)) (fun _ _ => trivial) ?_
    rintro r e ⟨⟨hs, hr⟩, rfl⟩
    obtain ⟨hno, x, hx⟩ := hr rfl
    have := ih (done ++ [payload]) e hs (hc.concat hno hx) ⟨y, by rw [hx, if_neg (by simp), hy]⟩
    simpa using this

theorem syncBatch_ok {dir : Path} {n : Node} (hn : d.tree.get? dir = some n) :
    wp fsStep NoFault (syncBatch dir) (fun r d' => r = .ok () ∧ d' = d) (fun _ => True) d := by
  refine wp_os trivial fun c hc => ?_
  rw [fsStep_of_not_fails hc]
  simp only [effect, hn, Option.isSome_some, if_true]
  refine wp_os trivial fun c2 hc2 => ?_
  rw [fsStep_of_not_fails hc2]
  refine wp_os trivial fun c3 hc3 => ?_
  rw [fsStep_of_not_fails hc3]
  exact ⟨rfl, rfl⟩

theorem commitBatch_ok (hne : payloads ≠ []) (htemp : isTempName temp = true)
    (hb : isBatchName b = true) (hs : Disk.Safe (s.dir ++ [temp]) d d')
    (hc : HoldsChunks (s.dir ++ [temp]) [] d'.tree)
    (hmade : ∃ x, d'.tree.get? (s.dir ++ [temp]) = some (.dir x))
    (hdir : ∃ x, d.tree.get? s.dir = some (.dir x)) (hfree : d.tree.get? (s.dir ++ [b]) = none) :
    wp fsStep NoFault (commitBatch (s.dir ++ [temp]) (s.dir ++ [b]) payloads)
      (fun r e => r = .ok () ∧ e.tree.get? (s.dir ++ [temp]) = none) (fun _ => True) d' := by
  have hne' : temp ≠ b := isQueueName_ne_temp (isQueueName_of_batch hb) htemp
  have hpq : ¬ s.dir ++ [temp] <+: s.dir ++ [b] := not_prefix_of_ne hne' []
  have hqp : ¬ s.dir ++ [b] <+: s.dir ++ [temp] := not_prefix_of_ne (Ne.symm hne') []
  refine wp_seq (wp_and (writeChunks_wp payloads [] d' hs hc)
    (writeChunks_ok (by simp) payloads [] d' hs hc hmade)) (fun _ _ => trivial) ?_
  rintro r d1 ⟨⟨h1, hr⟩, rfl⟩
  have hchunks := hr rfl
  rw [List.nil_append] at hchunks
  obtain ⟨y, hy⟩ := hchunks.isDir h1.rooted (by simp) hne
  refine wp_seq (syncBatch_ok hy) (fun _ h => h) ?_
  rintro r d2 ⟨rfl, rfl⟩
  refine ⟨trivial, fun c hgood => ?_⟩
  have hren : d2.tree.Renamable (s.dir ++ [temp]) (s.dir ++ [b]) := by
    refine ⟨⟨_, hy, fun m hm => ?_⟩, ⟨hpq, hqp⟩, ?_⟩
    · rw [h1.outside _ hpq, hfree] at hm
      cases hm
    · obtain ⟨x, hx⟩ := hdir
      exact Tree.hasParent_of_dir s.dir_ne ((h1.outside _ (dir_not_under temp [])).trans hx) b
  rw [fsStep_rename_of hgood hren]
  refine ⟨rfl, ?_⟩
  rw [Disk.renamed_tree, Tree.get?_move hpq hqp, if_neg hqp, if_pos (List.prefix_refl _)]

theorem putBatch_ok (hs : Sound s d.tree) (hne : payloads ≠ []) (hnil : [] ∉ payloads)
    {rand : Bytes} {now : Int} (htemp : d.tree.get? (s.dir ++ [tempName rand]) = none)
    (hfree : d.tree.get? (s.dir ++ [batchName now (tempName rand)]) = none) (rands : List Bytes) :
    wp fsStep NoFault (putBatch s payloads now (rand :: rands))
      (fun r d' =>
        if (usedBytes s d.tree : Int) + (payloads.map List.length).sum ≤ s.maxBytes then
          r = .ok (createdFiles (s.dir ++ [batchName now (tempName rand)]) payloads) ∧
          Committed s payloads (tempName rand) (batchName now (tempName rand)) d d' ∧
          d'.tree.get? (s.dir ++ [tempName rand]) = none
        else r = .error .full ∧ d' = d) (fun _ => True) d := by
  rw [putBatch, if_neg hne, if_neg hnil]
  refine wp_seq (wp_and (statsLocked_wp now) (wp_and (statsLocked_sum hs.rooted now)
    (statsLocked_ok hs now))) (fun _ _ => trivial) ?_
  rintro r d' ⟨rfl, hsum, stats, rfl⟩
  obtain ⟨-, -, hbytes⟩ := hsum stats rfl
  simp only
  by_cases hfits : (usedBytes s d'.tree : Int) + (payloads.map List.length).sum ≤ s.maxBytes
  · rw [if_neg (by omega)]
    simp only [if_pos hfits]
    refine wp_seq (mkdirTemp_ok hs.isDir htemp rands) (fun _ _ => trivial) ?_
    rintro r d1 ⟨rfl, hpar, x, rfl⟩
    obtain ⟨hsafe, hempty⟩ := temp_made hs.rooted htemp hpar x
    have hname := isTempName_tempName rand
    have hbatch := isBatchName_batchName now (tempName rand)
    have hmade : (d'.put (s.dir ++ [tempName rand]) (.dir x)).tree.get? (s.dir ++ [tempName rand]) =
        some (.dir x) := by
      rw [Disk.put_tree, Tree.get?_insert, if_pos rfl]
    refine wp_seq (wp_and (commitBatch_wp hne hname hbatch hsafe hempty)
      (commitBatch_ok hne hname hbatch hsafe hempty ⟨x, hmade⟩ hs.isDir hfree))
      (fun _ _ => trivial) ?_
    rintro r d2 ⟨hcommit, rfl, hgone⟩
    refine wp_seq syncDir_wp (fun _ _ => trivial) ?_
    rintro _ d3 rfl
    exact ⟨rfl, hcommit, hgone⟩
  · rw [if_pos (by omega)]
    simp only [if_neg hfits]
    exact ⟨rfl, rfl⟩

/-! ## Taking a payload out -/

theorem oldest_ok (hs : Sound s d.tree) :
    wp fsStep NoFault (oldest s) (fun r d' => r = .ok (readyFiles s d.tree).head? ∧ d' = d)
      (fun _ => True) d := by
  refine wp_seq (wp_and filesLocked_wp (filesLocked_ok hs)) (fun _ _ => trivial) ?_
  rintro r d' ⟨⟨rfl, h⟩, files, rfl⟩
  exact ⟨by rw [(h files rfl).1], rfl⟩

theorem validReadyPath_of_mem (hs : Sound s d.tree) (hmem : file ∈ readyFiles s d.tree) :
    validReadyPath s file = .ok file := by
  rw [validReadyPath, if_pos (isReadyPath_of_mem hs.toLayout hmem)]

/-- **When no call fails, a ready file can be removed.** -/
theorem remove_ok (hs : Sound s d.tree) (hmem : file ∈ readyFiles s d.tree) :
    wp fsStep NoFault (remove s file)
      (fun r d' => r = .ok () ∧ Taken s file d d' ∧ Sound s d'.tree) (fun _ => True) d := by
  obtain ⟨c, x, hc⟩ := file_of_mem_readyFiles hs.toLayout hmem
  have hok : wp fsStep NoFault (remove s file) (fun r _ => r = .ok ()) (fun _ => True) d := by
    rw [remove, validReadyPath_of_mem hs hmem]
    refine wp_os trivial fun choice hgood => ?_
    rw [fsStep_remove_of hgood ⟨_, hc, by simp [Node.isDir]⟩]
    exact wp_seq dropEmptyBatch_wp (fun _ _ => trivial) fun _ _ _ => rfl
  have hsound := wp_assuming (fun _ _ _ => cleanupWorks_of_noFault) (remove_sound hs file)
  refine wp_mono ?_ (fun _ _ => trivial) (wp_and hok (wp_and (remove_wp file) hsound))
  rintro r d' ⟨rfl, h⟩
  exact ⟨rfl, h⟩

/-- **When no call fails, a ready file can be quarantined**, unless there is a directory in its
place. -/
theorem quarantine_ok (hs : Sound s d.tree) (hmem : file ∈ readyFiles s d.tree) (reason : Bytes)
    (hdir : ∃ x, d.tree.get? s.quarantineDir = some (.dir x))
    (hplace : ∀ x, d.tree.get? (destination s file reason) ≠ some (.dir x)) :
    wp fsStep NoFault (quarantine s file reason)
      (fun r d' => r = .ok (destination s file reason) ∧ Shelved s file reason d d' ∧
        Sound s d'.tree) (fun _ => True) d := by
  obtain ⟨c, x, hc⟩ := file_of_mem_readyFiles hs.toLayout hmem
  have hready := isReadyPath_of_mem hs.toLayout hmem
  have hren : d.tree.Renamable file (destination s file reason) := by
    refine ⟨⟨_, hc, fun m hm => ⟨?_, rfl⟩⟩, ?_, ?_⟩
    · cases m with
      | file _ _ => rfl
      | dir y => exact absurd hm (hplace y)
    · obtain ⟨n, l, rfl, hn⟩ := isReadyPath_under hready
      have hne := isQueueName_ne_quarantine hn
      rw [destination, quarantineDir_append, List.prefix_append_right_inj,
        List.prefix_append_right_inj, List.cons_prefix_cons, List.cons_prefix_cons]
      exact ⟨fun h => hne h.1.symm, fun h => hne h.1⟩
    · obtain ⟨y, hy⟩ := hdir
      exact Tree.hasParent_of_dir (by simp [quarantineDir]) hy _
  have hok : wp fsStep NoFault (quarantine s file reason)
      (fun r _ => r = .ok (destination s file reason)) (fun _ => True) d := by
    rw [quarantine, validReadyPath_of_mem hs hmem]
    refine wp_os trivial fun choice hgood => ?_
    rw [fsStep_rename_of hgood hren]
    exact wp_seq dropEmptyBatch_wp (fun _ _ => trivial) fun _ _ _ => rfl
  have hsound := wp_assuming (fun _ _ _ => cleanupWorks_of_noFault)
    (quarantine_sound hs file reason)
  refine wp_mono ?_ (fun _ _ => trivial) (wp_and hok (wp_and (quarantine_wp file reason) hsound))
  rintro r d' ⟨rfl, h, hs'⟩
  exact ⟨rfl, h.2, hs'⟩

end Dogstatsd.CustomSpool
