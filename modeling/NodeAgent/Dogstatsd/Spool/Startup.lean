import NodeAgent.Dogstatsd.Spool.Specs

/-!
# Opening a spool

What `recoverStartup` does to each entry of the spool directory, and what holds of a spool that
was opened.

* `recoverLoop_wp` — what the changes of the recovery keep, it keeps, and it settles every entry
* `recoverStartup_sound` — every batch directory is whole after a recovery that succeeded
-/

namespace Dogstatsd.CustomSpool

open Infra Prog

variable {R : Choice → FsOp → Disk → Prop} {s : CustomSpool} {d d' : Disk} {t : Tree} {b : Name}

/-- Where the recovery puts a batch that is not whole. -/
def corruptPath (s : CustomSpool) (b : Name) : Path := s.quarantineDir ++ [b ++ ascii ".corrupt"]

/-- The batch directory `b` holds a chunk, and chunks only. -/
structure Whole (s : CustomSpool) (t : Tree) (b : Name) : Prop where
  isDir : ∃ x, t.get? (s.dir ++ [b]) = some (.dir x)
  nonempty : t.children (s.dir ++ [b]) ≠ []
  chunks : ∀ m n, t.get? (s.dir ++ [b, m]) = some n → isChunkName m = true ∧ n.isDir = false

/-- The recovery has nothing left to do about an entry. -/
structure Settled (s : CustomSpool) (entry : DirEntry) (t : Tree) : Prop where
  temp : entry.isDir = true → isTempName entry.name = true → t.get? (s.dir ++ [entry.name]) = none
  batch : entry.isDir = true → isBatchName entry.name = true →
    t.get? (s.dir ++ [entry.name]) = none ∨ Whole s t entry.name

theorem whole_congr {t' : Tree} (h : Whole s t b)
    (hsame : ∀ l, t'.get? (s.dir ++ b :: l) = t.get? (s.dir ++ b :: l)) : Whole s t' b := by
  refine ⟨?_, ?_, fun m n hn => h.chunks m n (hsame [m] ▸ hn)⟩
  · obtain ⟨x, hx⟩ := h.isDir
    exact ⟨x, (hsame []).trans hx⟩
  · rw [Ne, children_congr (fun m => by simpa using hsame [m])]
    exact h.nonempty

theorem whole_iff_valid {x : Int} (hx : t.get? (s.dir ++ [b]) = some (.dir x)) :
    Whole s t b ↔ (!(t.dirEntries (s.dir ++ [b])).isEmpty &&
      allChunks (t.dirEntries (s.dir ++ [b]))) = true := by
  rw [Bool.and_eq_true_iff, Bool.not_eq_true', List.isEmpty_eq_false_iff, Ne,
    Tree.dirEntries_eq_nil, allChunks, List.all_eq_true]
  simp only [Bool.and_eq_true, Bool.not_eq_true', Tree.mem_dirEntries, List.append_assoc,
    List.cons_append, List.nil_append]
  constructor
  · intro h
    refine ⟨h.nonempty, ?_⟩
    rintro e ⟨n, hn, hdir⟩
    obtain ⟨h1, h2⟩ := h.chunks e.name n hn
    exact ⟨hdir ▸ h2, h1⟩
  · rintro ⟨hne, hall⟩
    refine ⟨⟨x, hx⟩, hne, fun m n hn => ?_⟩
    exact (hall ⟨m, n.isDir⟩ ⟨n, hn, rfl⟩).symm

/-! ## Settled entries stay settled -/

theorem Settled.erase {e : DirEntry} (h : Settled s e t) {temp : Name} {r : Path}
    (htemp : isTempName temp = true) (hr : s.dir ++ [temp] <+: r) : Settled s e (t.erase r) := by
  have hnone : ∀ p, t.get? p = none → (t.erase r).get? p = none := by
    intro p hp
    rw [Tree.get?_erase, hp, ite_self]
  refine ⟨fun hd hn => hnone _ (h.temp hd hn), fun hd hb => ?_⟩
  rcases h.batch hd hb with hno | hw
  · exact Or.inl (hnone _ hno)
  · refine Or.inr (whole_congr hw fun l => ?_)
    rw [Tree.get?_erase, if_neg]
    rintro rfl
    exact not_prefix_of_ne (isQueueName_ne_temp (isQueueName_of_batch hb) htemp) l hr

theorem quarantine_not_above {n : Name} (h : ascii "quarantine" ≠ n) (l k : Path) :
    ¬ s.quarantineDir ++ k <+: s.dir ++ n :: l := by
  intro hc
  exact not_prefix_of_ne h l ((List.prefix_append _ k).trans hc)

theorem isTempName_ne_quarantine {n : Name} (h : isTempName n = true) :
    ascii "quarantine" ≠ n := by
  rintro rfl
  revert h
  decide

theorem get?_move_quarantine {p q : Path} (hapart : ¬ p <+: s.quarantineDir ++ q ∧
    ¬ s.quarantineDir ++ q <+: p) {n : Name} (hn : ascii "quarantine" ≠ n) (l : Path) :
    (t.move p (s.quarantineDir ++ q)).get? (s.dir ++ n :: l) =
      if p <+: s.dir ++ n :: l then none else t.get? (s.dir ++ n :: l) := by
  rw [Tree.get?_move hapart.1 hapart.2, if_neg (quarantine_not_above hn l q)]

theorem get?_move_corrupt {q : Path} (hapart : ¬ s.dir ++ [b] <+: s.quarantineDir ++ q ∧
    ¬ s.quarantineDir ++ q <+: s.dir ++ [b]) {n : Name} (hn : ascii "quarantine" ≠ n) (l : Path) :
    (t.move (s.dir ++ [b]) (s.quarantineDir ++ q)).get? (s.dir ++ n :: l) =
      if n = b then none else t.get? (s.dir ++ n :: l) := by
  rw [get?_move_quarantine hapart hn]
  by_cases hnb : n = b
  · subst hnb
    rw [if_pos rfl, if_pos]
    rw [List.prefix_append_right_inj, List.cons_prefix_cons]
    exact ⟨rfl, List.nil_prefix⟩
  · rw [if_neg hnb, if_neg (not_prefix_of_ne (Ne.symm hnb) l)]

theorem Settled.move {e : DirEntry} (h : Settled s e t) {q : Path}
    (hapart : ¬ s.dir ++ [b] <+: s.quarantineDir ++ q ∧
      ¬ s.quarantineDir ++ q <+: s.dir ++ [b]) :
    Settled s e (t.move (s.dir ++ [b]) (s.quarantineDir ++ q)) := by
  refine ⟨fun hd hn => ?_, fun hd hb => ?_⟩
  · rw [get?_move_corrupt hapart (isTempName_ne_quarantine hn), h.temp hd hn, ite_self]
  · have hne := isQueueName_ne_quarantine (isQueueName_of_batch hb)
    by_cases heb : e.name = b
    · exact Or.inl (by rw [get?_move_corrupt hapart hne, if_pos heb])
    · rcases h.batch hd hb with hno | hw
      · exact Or.inl (by rw [get?_move_corrupt hapart hne, hno, ite_self])
      · refine Or.inr (whole_congr hw fun l => ?_)
        rw [get?_move_corrupt hapart hne, if_neg heb]

theorem settled_renamed {e : DirEntry} {d : Disk} (hname : isBatchName e.name = true)
    (hmove : d.tree.Renamable (s.dir ++ [e.name]) (corruptPath s e.name))
    (hnot : e.isDir = true → isTempName e.name = true → False) :
    Settled s e (d.renamed (s.dir ++ [e.name]) (corruptPath s e.name)).tree := by
  have hne := isQueueName_ne_quarantine (isQueueName_of_batch hname)
  refine ⟨fun h1 h2 => (hnot h1 h2).elim, fun _ _ => Or.inl ?_⟩
  rw [Disk.renamed_tree, corruptPath, get?_move_corrupt hmove.apart hne, if_pos rfl]

/-! ## The recovery -/

theorem not_whole_of_error {c : Choice} {d : Disk} {x : Errno}
    (h : fsStep c (.readDir (s.dir ++ [b])) d = (.error x, d)) :
    ¬ Whole s d.tree b ∨ c.fails = true := by
  cases hf : c.fails with
  | true => exact Or.inr rfl
  | false =>
    refine Or.inl fun hw => ?_
    obtain ⟨y, hy⟩ := hw.isDir
    rw [fsStep_readDir_ok hf hy] at h
    simp at h

/-- **What the changes of the recovery keep, the recovery keeps, and it settles every entry.**
A batch is renamed only when it is not whole, or when the call that lists it failed. -/
theorem recoverLoop_wp (entries : List DirEntry) : ∀ (I : Disk → Prop),
    (∀ d temp r, isTempName temp = true → s.dir ++ [temp] <+: r → d.tree.Removable r → I d →
      I (d.removed r)) →
    (∀ d b, isBatchName b = true →
      (¬ Whole s d.tree b ∨ ∃ c, c.fails = true ∧ R c (.readDir (s.dir ++ [b])) d) →
      d.tree.Renamable (s.dir ++ [b]) (corruptPath s b) → I d →
      I (d.renamed (s.dir ++ [b]) (corruptPath s b))) →
    ∀ d, I d → wp fsStep R (recoverLoop s entries)
      (fun r d' => I d' ∧ (r = .ok () → ∀ e ∈ entries, Settled s e d'.tree)) I d := by
  induction entries with
  | nil => intro I _ _ d hd; exact ⟨hd, by simp⟩
  | cons e rest ih =>
    intro I hrem hren d hd
    -- once `e` is settled, the rest of the loop keeps it so
    have hrest : ∀ d, I d → Settled s e d.tree → wp fsStep R (recoverLoop s rest)
        (fun r d' => I d' ∧ (r = .ok () → ∀ e' ∈ e :: rest, Settled s e' d'.tree)) I d := by
      intro d hd he
      refine wp_mono ?_ (fun _ h => h.1)
        (ih (fun d => I d ∧ Settled s e d.tree) ?_ ?_ d ⟨hd, he⟩)
      · rintro r d' ⟨⟨h1, h2⟩, h3⟩
        refine ⟨h1, fun hr e' he' => ?_⟩
        rcases List.mem_cons.mp he' with rfl | he'
        · exact h2
        · exact h3 hr e' he'
      · rintro d temp r ht hr hremovable ⟨h1, h2⟩
        exact ⟨hrem d temp r ht hr hremovable h1, h2.erase ht hr⟩
      · rintro d b hb hwhy hmove ⟨h1, h2⟩
        exact ⟨hren d b hb hwhy hmove h1, h2.move hmove.apart⟩
    unfold recoverLoop
    split
    · next htemp =>
      obtain ⟨hdir, hname⟩ := Bool.and_eq_true_iff.mp htemp
      refine wp_seq (removeAll_wp (fun d r hr h => hrem d e.name r hname hr h) hd)
        (fun _ h => h) ?_
      rintro r d' ⟨h1, hgone⟩
      cases r with
      | error x => exact ⟨h1, by simp⟩
      | ok u =>
        refine hrest d' h1 ⟨fun _ _ => hgone rfl, fun _ hb => ?_⟩
        exact absurd rfl (isQueueName_ne_temp (isQueueName_of_batch hb) hname)
    next htemp =>
    have hnot : e.isDir = true → isTempName e.name = true → False := by
      intro h1 h2
      exact htemp (by rw [h1, h2]; rfl)
    split
    · next hbatch =>
      obtain ⟨hdir, hname⟩ := Bool.and_eq_true_iff.mp hbatch
      have move : ∀ k : Except Errno Unit → FsProg (Except SpoolError Unit),
          (∀ x, ∃ y, k (.error x) = .ret (.error y)) → k (.ok ()) = recoverLoop s rest →
          (¬ Whole s d.tree e.name ∨
            ∃ c, c.fails = true ∧ R c (.readDir (s.dir ++ [e.name])) d) →
          wp fsStep R (Os.rename (s.dir ++ [e.name]) (corruptPath s e.name) >>= k)
          (fun r d' => I d' ∧ (r = .ok () → ∀ e' ∈ e :: rest, Settled s e' d'.tree)) I d := by
        intro k herror hok hwhy
        refine wp_rename hd (fun x => ?_) fun hmove => ?_
        · obtain ⟨y, hy⟩ := herror x
          rw [hy]
          exact ⟨hd, by simp⟩
        · rw [hok]
          exact hrest _ (hren d e.name hname hwhy hmove hd) (settled_renamed hname hmove hnot)
      refine wp_os hd fun c hc => ?_
      rcases fsStep_readDir c d (s.dir ++ [e.name]) with ⟨x, hx⟩ | ⟨y, hy, hx⟩
      · rw [hx]
        exact move _ (fun x => ⟨_, rfl⟩) rfl
          ((not_whole_of_error hx).imp_right fun hf => ⟨c, hf, hc⟩)
      · rw [hx]
        simp only
        split
        · next hvalid =>
          exact hrest d hd ⟨fun h1 h2 => (hnot h1 h2).elim,
            fun _ _ => Or.inr ((whole_iff_valid hy).mpr hvalid)⟩
        · next hvalid =>
          exact move _ (fun x => ⟨_, rfl⟩) rfl
            (Or.inl fun hw => hvalid ((whole_iff_valid hy).mp hw))
    next hbatch =>
    refine hrest d hd ⟨fun h1 h2 => (hnot h1 h2).elim, fun h1 h2 => ?_⟩
    exact absurd (by rw [h1, h2]; rfl) hbatch

/-- What holds of a spool between two operations. -/
structure Sound (s : CustomSpool) (t : Tree) : Prop extends Layout s t where
  isDir : ∃ x, t.get? s.dir = some (.dir x)
  noEmpty : NoEmptyBatch s t

def NoTemp (s : CustomSpool) (t : Tree) : Prop :=
  ∀ n x, isTempName n = true → t.get? (s.dir ++ [n]) ≠ some (.dir x)

theorem sound_of_settled (hroot : t.Rooted) {x : Int} (hdir : t.get? s.dir = some (.dir x))
    (hsub : ∀ n k, ascii "quarantine" ≠ n → t.get? (s.dir ++ [n]) = some k →
      d.tree.get? (s.dir ++ [n]) = some k)
    (hall : ∀ e ∈ d.tree.dirEntries s.dir, Settled s e t) : Sound s t ∧ NoTemp s t := by
  have hentry : ∀ n y, ascii "quarantine" ≠ n → t.get? (s.dir ++ [n]) = some (.dir y) →
      Settled s ⟨n, true⟩ t := by
    intro n y hn hy
    exact hall ⟨n, true⟩ (Tree.mem_dirEntries.mpr ⟨_, hsub n _ hn hy, rfl⟩)
  have hwhole : ∀ b y, isBatchName b = true → t.get? (s.dir ++ [b]) = some (.dir y) →
      Whole s t b := by
    intro b y hb hy
    have hne := isQueueName_ne_quarantine (isQueueName_of_batch hb)
    rcases (hentry b y hne hy).batch rfl hb with hno | hw
    · rw [hno] at hy; cases hy
    · exact hw
  refine ⟨⟨⟨hroot, fun {b m n} hb hn => ?_⟩, ⟨x, hdir⟩, fun b y hb hy => ?_⟩, ?_⟩
  · obtain ⟨y, hy⟩ := hroot (s.dir ++ [b]) m n (by simp) (by simpa using hn)
    exact (hwhole b y hb hy).chunks m n hn
  · exact (hwhole b y hb hy).nonempty
  · intro n y hn hy
    rw [(hentry n y (isTempName_ne_quarantine hn) hy).temp rfl hn] at hy
    cases hy

theorem dir_not_under (n : Name) (l : Path) : ¬ s.dir ++ n :: l <+: s.dir := by
  intro h
  have := h.length_le
  rw [List.length_append, List.length_cons] at this
  omega

/-- **A recovery that succeeds leaves a sound spool**, whatever was there before and whichever
calls failed. -/
theorem recoverStartup_sound (hroot : d.tree.Rooted) :
    wp fsStep R (recoverStartup s)
      (fun r d' => d'.tree.Rooted ∧ (r = .ok () → Sound s d'.tree ∧ NoTemp s d'.tree))
      (fun d' => d'.tree.Rooted) d := by
  refine wp_readDir hroot (fun e => ⟨hroot, by simp⟩) fun x hx => ?_
  refine wp_mono ?_ (fun _ h => h.1) (recoverLoop_wp _ (fun e => e.tree.Rooted ∧
    e.tree.get? s.dir = some (.dir x) ∧ ∀ n k, ascii "quarantine" ≠ n →
      e.tree.get? (s.dir ++ [n]) = some k → d.tree.get? (s.dir ++ [n]) = some k) ?_ ?_ d
    ⟨hroot, hx, fun _ _ _ h => h⟩)
  · rintro r d' ⟨⟨h1, h2, h3⟩, h4⟩
    exact ⟨h1, fun hr => sound_of_settled h1 h2 h3 (h4 hr)⟩
  · rintro e temp r _ hr hrem ⟨h1, h2, h3⟩
    refine ⟨h1.erase hrem, ?_, fun n k hn hk => ?_⟩
    · rw [Disk.removed_tree, Tree.get?_erase, if_neg, h2]
      rintro rfl
      exact dir_not_under temp [] hr
    · rw [Disk.removed_tree, Tree.get?_erase] at hk
      split at hk
      · cases hk
      · exact h3 n k hn hk
  · rintro e b _ _ hmove ⟨h1, h2, h3⟩
    refine ⟨h1.move hmove, ?_, fun n k hn hk => ?_⟩
    · rw [Disk.renamed_tree, Tree.get?_move hmove.apart.1 hmove.apart.2, if_neg, if_neg, h2]
      · exact dir_not_under b []
      · rw [corruptPath, quarantineDir, List.append_assoc]
        exact dir_not_under _ _
    · rw [Disk.renamed_tree, corruptPath, get?_move_corrupt hmove.apart hn] at hk
      split at hk
      · cases hk
      · exact h3 n k hn hk

/-- **An open that succeeds leaves a sound spool.** -/
theorem openChecked_sound (hroot : d.tree.Rooted) :
    wp fsStep R (openChecked s)
      (fun r d' => d'.tree.Rooted ∧ ∀ s', r = .ok s' → s' = s ∧ Sound s d'.tree ∧ NoTemp s d'.tree)
      (fun d' => d'.tree.Rooted) d := by
  refine wp_seq (mkdirAll_wp (by simp [quarantineDir]) ?_ hroot) (fun _ h => h) ?_
  · intro d r m _ hno hpar h
    exact h.insert hpar (by simp [hno])
  rintro r d1 ⟨h1, _⟩
  cases r with
  | error e => exact ⟨h1, by simp⟩
  | ok u =>
    refine wp_seq (recoverStartup_sound h1) (fun _ h => h) ?_
    rintro r d2 ⟨h2, hs⟩
    cases r with
    | error e => exact ⟨h2, by simp⟩
    | ok u =>
      refine ⟨h2, fun s' hs' => ?_⟩
      obtain rfl := Except.ok.inj hs'
      exact ⟨rfl, hs rfl⟩

theorem openCustomSpoolWithPolicy_eq (s : CustomSpool) :
    openCustomSpoolWithPolicy s.dir s.maxBytes s.maxAge s.maxQuarantineBytes = openChecked s := by
  have h1 := s.maxBytes_pos
  have h2 := s.maxAge_pos
  have h3 := s.maxQuarantineBytes_pos
  rw [openCustomSpoolWithPolicy, dif_neg s.dir_ne, dif_neg (by omega), dif_neg (by omega)]

end Dogstatsd.CustomSpool
