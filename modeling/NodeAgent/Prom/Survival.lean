import NodeAgent.Prom.Sending

/-!
# Which writes survive the send loop

A write is doomed when a file that it needs is gone. A harmless step does not doom it, any other
does, and a doomed write ends with an error or with its payload lost.

* `Sending.sound_next` — one step
* `Sending.write_survives_iff` — whole interleavings
-/

namespace Prom

open Infra Prog

variable {w : WriteCall} {a : Agent} {t : Tree} {d : Disk} {sent : List (Path × Bytes)}
  {p : Path}

variable {n : Node} {rand : Nat} {c : Bytes} {x total : Int} {f : Path} {files : List Path}
  {rands : List Nat} {pos : Position}

/-! ## The spool -/

def IsSpoolPath (a : Agent) (p : Path) : Prop :=
  ∃ m, p = a.spoolDir ++ [m] ∧ isSpoolName m = true

/-- The directory of the spool is there, and what has the name of a spool file is a file. -/
structure SpoolSound (a : Agent) (t : Tree) : Prop where
  isDir : ∃ x, t.get? a.spoolDir = some (.dir x)
  noDir : ∀ p, IsSpoolPath a p → ∀ x, t.get? p ≠ some (.dir x)

theorem isSpoolPath_of_mem (h : p ∈ spoolFiles a t) : IsSpoolPath a p := by
  obtain ⟨m, hm, hname, _⟩ := mem_spoolFiles.mp h
  exact ⟨m, hm, hname⟩

theorem isSpoolPath_target (w : WriteCall) : IsSpoolPath w.agent w.target :=
  ⟨_, rfl, isSpoolName_spoolName w.timestamp⟩

theorem child_ne (p : Path) (m : Name) : p ++ [m] ≠ p := by simp

theorem IsSpoolPath.ne_dir (h : IsSpoolPath a p) : p ≠ a.spoolDir := by
  obtain ⟨m, rfl, _⟩ := h
  exact child_ne _ m

theorem IsSpoolPath.ne_temp (h : IsSpoolPath w.agent p) (rand : Nat) : p ≠ w.temp rand := by
  obtain ⟨m, rfl, hm⟩ := h
  intro he
  exact ne_tempName hm w.timestamp rand (by simpa [WriteCall.temp] using he)

theorem SpoolSound.isFile (h : SpoolSound a t) (hp : IsSpoolPath a p) (hn : t.get? p = some n) :
    ∃ c x, n = .file c x := by
  cases n with
  | file c x => exact ⟨c, x, rfl⟩
  | dir x => exact absurd hn (h.noDir p hp x)

theorem SpoolSound.erase (h : SpoolSound a t) (hp : p ≠ a.spoolDir) : SpoolSound a (t.erase p) where
  isDir := by
    obtain ⟨x, hx⟩ := h.isDir
    exact ⟨x, by rw [Tree.get?_erase, if_neg hp.symm, hx]⟩
  noDir q hq x hx := by
    rw [Tree.get?_erase] at hx
    split at hx
    · cases hx
    · exact h.noDir q hq x hx

theorem SpoolSound.insert_temp (h : SpoolSound w.agent t) (rand : Nat) (n : Node) :
    SpoolSound w.agent (t.insert (w.temp rand) n) where
  isDir := by
    obtain ⟨x, hx⟩ := h.isDir
    exact ⟨x, by rw [Tree.get?_insert, if_neg (show w.agent.spoolDir ≠ w.temp rand from
      (child_ne _ _).symm), hx]⟩
  noDir q hq x hx := by
    rw [Tree.get?_insert, if_neg (hq.ne_temp rand)] at hx
    exact h.noDir q hq x hx

theorem get?_move_temp (hp : IsSpoolPath w.agent p) (rand : Nat) :
    (t.move (w.temp rand) w.target).get? p =
      if p = w.target then t.get? (w.temp rand) else t.get? p := by
  obtain ⟨m, rfl, hm⟩ := hp
  have hne := (ne_tempName (isSpoolName_spoolName w.timestamp) w.timestamp rand).symm
  rw [WriteCall.temp, WriteCall.target, spoolPath, Tree.get?_move_sibling hne,
    if_neg (ne_tempName hm w.timestamp rand)]
  simp

theorem SpoolSound.move_temp (h : SpoolSound w.agent t)
    (hfile : t.get? (w.temp rand) = some (.file c x)) :
    SpoolSound w.agent (t.move (w.temp rand) w.target) where
  isDir := by
    have hne := (ne_tempName (isSpoolName_spoolName w.timestamp) w.timestamp rand).symm
    obtain ⟨y, hy⟩ := h.isDir
    exact ⟨y, (Tree.get?_move_parent hne).trans hy⟩
  noDir q hq y hy := by
    rw [get?_move_temp hq] at hy
    split at hy
    · rw [hfile] at hy
      cases hy
    · exact h.noDir q hq y hy

theorem SpoolSound.renamable (h : SpoolSound w.agent t)
    (hfile : t.get? (w.temp rand) = some (.file c x)) : t.Renamable (w.temp rand) w.target where
  source := by
    refine ⟨_, hfile, fun m hm => ?_⟩
    obtain ⟨c', x', rfl⟩ := h.isFile (isSpoolPath_target w) hm
    exact ⟨rfl, rfl⟩
  apart := by
    have hne := (ne_tempName (isSpoolName_spoolName w.timestamp) w.timestamp rand).symm
    exact ⟨by rwa [WriteCall.temp, WriteCall.target, spoolPath, Tree.child_prefix_child, eq_comm],
      by rwa [WriteCall.temp, WriteCall.target, spoolPath, Tree.child_prefix_child]⟩
  parent := by
    obtain ⟨y, hy⟩ := h.isDir
    exact Tree.hasParent_of_dir w.agent.spoolDir_ne hy _

/-! ## Sound and doomed positions -/

def TempFree (w : WriteCall) (t : Tree) (rands : List Nat) : Prop :=
  ∃ rand ∈ rands, t.get? (w.temp rand) = none

/-- What has the name of the new file is the payload. -/
def Stored (w : WriteCall) (t : Tree) : Prop :=
  ∀ n, t.get? w.target = some n → ∃ x, n = .file w.payload x

/-- What the write has done so far went well, as far as the send loop leaves it alone. -/
def Position.Sound (w : WriteCall) (t : Tree) : Position → Prop
  | .listing => TempFree w t w.rands
  | .sizing files _ _ _ => TempFree w t w.rands ∧ files ≠ [] ∧ ∀ g ∈ files, IsSpoolPath w.agent g
  | .truncating oldest => TempFree w t w.rands ∧ IsSpoolPath w.agent oldest
  | .creating rand rands => TempFree w t (rand :: rands)
  | .writing temp => ∃ rand c x, temp = w.temp rand ∧ t.get? temp = some (.file c x)
  | .closing temp => ∃ rand x, temp = w.temp rand ∧ t.get? temp = some (.file w.payload x)
  | .moving temp => ∃ rand x, temp = w.temp rand ∧ t.get? temp = some (.file w.payload x)
  | .closingAgain temp result => (∃ rand, temp = w.temp rand) ∧ (result = .ok () → Stored w t)
  | .removing temp result => (∃ rand, temp = w.temp rand) ∧ (result = .ok () → Stored w t)
  | .returned result => result = .ok () → Stored w t

def Lost (w : WriteCall) (t : Tree) (sent : List (Path × Bytes)) : Prop :=
  t.get? w.target = none ∧ (w.target, w.payload) ∉ sent

/-- A file that the position needs is gone, or there was an error, or the payload is lost. -/
def Position.Doomed (w : WriteCall) (t : Tree) (sent : List (Path × Bytes)) : Position → Prop
  | .sizing files f rest total =>
    (∃ g ∈ f :: rest, t.get? g = none) ∨
      (t.get? (files.headD []) = none ∧
        w.agent.maxSpoolSize < total + totalSize t (f :: rest))
  | .truncating oldest => t.get? oldest = none
  | .closingAgain _ result => result ≠ .ok () ∨ Lost w t sent
  | .removing _ result => result ≠ .ok () ∨ Lost w t sent
  | .returned result => result ≠ .ok () ∨ Lost w t sent
  | _ => False

/-- How many calls the write makes at most. -/
def Position.calls (w : WriteCall) (t : Tree) : Position → Nat
  | .listing => (spoolFiles w.agent t).length + w.rands.length + 7
  | .sizing _ _ rest _ => rest.length + w.rands.length + 7
  | .truncating _ => w.rands.length + 6
  | .creating _ rands => rands.length + 6
  | .writing _ => 5
  | .closing _ => 4
  | .moving _ => 3
  | .closingAgain _ _ => 2
  | .removing _ _ => 1
  | .returned _ => 0

theorem totalSize_cons (t : Tree) (f : Path) (rest : List Path) :
    totalSize t (f :: rest) = fileSize t f + totalSize t rest := by
  rw [totalSize, List.map_cons, List.sum_cons, ← totalSize]

theorem totalSize_erase (h : f ∉ files) : totalSize (t.erase f) files = totalSize t files := by
  refine totalSize_congr fun q hq => ?_
  rw [Tree.get?_erase, if_neg]
  rintro rfl
  exact h hq

theorem fileSize_of_get? (h : t.get? p = some n) : fileSize t p = n.size := by
  rw [fileSize, h]
  rfl

/-! ## The steps of the writer -/

section

variable {rest : List Path}

variable (sent) in
theorem create_spec (h : TempFree w t rands) : (Position.create rands).Sound w t ∧
    ¬ (Position.create rands).Doomed w t sent ∧
    (Position.create rands).calls w t ≤ rands.length + 5 := by
  cases rands with
  | nil =>
    obtain ⟨_, hmem, _⟩ := h
    cases hmem
  | cons rand rands => exact ⟨h, id, Nat.le_refl _⟩

theorem headD_mem (h : files ≠ []) : files.headD [] ∈ files := by
  cases files with
  | nil => exact absurd rfl h
  | cons f files => exact List.mem_cons_self

variable (sent total rest) in
theorem sized_spec (hfree : TempFree w t w.rands) (hne : files ≠ [])
    (hfiles : ∀ g ∈ files, IsSpoolPath w.agent g) :
    (w.sized files rest total).Sound w t ∧
    ((w.sized files rest total).Doomed w t sent ↔ (∃ g ∈ rest, t.get? g = none) ∨
      (t.get? (files.headD []) = none ∧ w.agent.maxSpoolSize < total + totalSize t rest)) ∧
    (w.sized files rest total).calls w t ≤ rest.length + w.rands.length + 6 := by
  cases rest with
  | cons f rest =>
    refine ⟨⟨hfree, hne, hfiles⟩, Iff.rfl, ?_⟩
    simp only [WriteCall.sized, Position.calls, List.length_cons]
    omega
  | nil =>
    by_cases hbig : total > w.agent.maxSpoolSize
    · rw [WriteCall.sized, if_pos hbig]
      refine ⟨⟨hfree, hfiles _ (headD_mem hne)⟩, ?_, by simp [Position.calls]⟩
      simpa [Position.Doomed, totalSize] using fun _ => hbig
    · rw [WriteCall.sized, if_neg hbig]
      obtain ⟨hsound, hfine, hcalls⟩ := create_spec sent hfree
      refine ⟨hsound, iff_of_false hfine ?_, by simp only [List.length_nil]; omega⟩
      simpa [totalSize] using fun _ => not_lt.mp hbig

variable (sent) in
theorem listed_spec (h : TempFree w t w.rands) :
    (w.listed (.ok (t.dirEntries w.agent.spoolDir))).Sound w t ∧
    ¬ (w.listed (.ok (t.dirEntries w.agent.spoolDir))).Doomed w t sent ∧
    (w.listed (.ok (t.dirEntries w.agent.spoolDir))).calls w t ≤
      (spoolFiles w.agent t).length + w.rands.length + 6 := by
  have hlisted : w.listed (.ok (t.dirEntries w.agent.spoolDir)) =
      if (spoolFiles w.agent t).length ≤ 1 then .create w.rands
      else w.sized (spoolFiles w.agent t) (spoolFiles w.agent t) 0 := rfl
  rw [hlisted]
  split
  · obtain ⟨hsound, hfine, hcalls⟩ := create_spec sent h
    exact ⟨hsound, hfine, by omega⟩
  · next hmany =>
    have hne : spoolFiles w.agent t ≠ [] := by
      rintro he
      simp [he] at hmany
    have hpresent : ∀ g ∈ spoolFiles w.agent t, t.get? g ≠ none := by
      intro g hg
      obtain ⟨_, _, _, hsome⟩ := mem_spoolFiles.mp hg
      exact Option.isSome_iff_ne_none.mp hsome
    obtain ⟨hsound, hdoomed, hcalls⟩ := sized_spec sent 0 (spoolFiles w.agent t) h hne
      fun g hg => isSpoolPath_of_mem hg
    refine ⟨hsound, fun hd => ?_, hcalls⟩
    rcases hdoomed.mp hd with ⟨g, hg, hgone⟩ | ⟨hgone, -⟩
    · exact hpresent g hg hgone
    · exact hpresent _ (headD_mem hne) hgone

theorem erase_of_absent (h : t.get? p = none) : t.erase p = t := by
  obtain ⟨entries, nodup⟩ := t
  have hall : entries.filter (fun e => !decide (e.1 = p)) = entries := by
    refine List.filter_eq_self.mpr fun e he => ?_
    rw [Bool.not_eq_true', decide_eq_false_iff_not]
    rintro rfl
    have hn := Tree.get?_eq_some_iff (t := ⟨entries, nodup⟩).mpr he
    rw [h] at hn
    cases hn
  simp only [Tree.erase, Tree.restrict, hall]

/-- A spool file that is removed is gone, also if it was gone before. -/
theorem SpoolSound.remove_tree (hs : SpoolSound a d.tree) (hp : IsSpoolPath a p) (clock : Int) :
    (fsStep (.good clock) (.remove p) d).2.tree = d.tree.erase p := by
  cases hget : d.tree.get? p with
  | none => rw [fsStep_remove_noEnt rfl hget, erase_of_absent hget]
  | some n =>
    obtain ⟨c, x, rfl⟩ := hs.isFile hp hget
    rw [fsStep_remove_of rfl ⟨_, hget, nofun⟩]
    rfl

end

/-- What a call of the write leaves: the position that comes next and the new tree. -/
structure Position.Leaves (w : WriteCall) (sent : List (Path × Bytes)) (pos : Position) (t : Tree)
    (next : Position × Disk) : Prop where
  spool : SpoolSound w.agent next.2.tree
  sound : next.1.Sound w next.2.tree
  doomed : next.1.Doomed w next.2.tree sent ↔ pos.Doomed w t sent
  calls : next.1.calls w next.2.tree ≤ pos.calls w t - 1

/-- **A call of the write keeps it sound, and dooms it only if it was doomed.** -/
theorem Position.Sound.next (hs : SpoolSound w.agent d.tree) (h : pos.Sound w d.tree)
    (clock : Int) (sent : List (Path × Bytes)) :
    pos.Leaves w sent d.tree (pos.next w (.good clock) d) := by
  cases pos with
  | listing =>
    obtain ⟨x, hx⟩ := hs.isDir
    obtain ⟨hsound, hfine, hcalls⟩ := listed_spec sent h
    rw [Position.next, fsStep_readDir_ok rfl hx]
    exact ⟨hs, hsound, iff_of_false hfine id, hcalls⟩
  | sizing files f rest total =>
    obtain ⟨hfree, hne, hfiles⟩ := h
    cases hf : d.tree.get? f with
    | none =>
      rw [Position.next, fsStep_stat_noEnt rfl hf]
      exact ⟨hs, nofun, iff_of_true (.inl nofun) (.inl ⟨f, List.mem_cons_self, hf⟩),
        Nat.zero_le _⟩
    | some n =>
      obtain ⟨hsound, hdoomed, hcalls⟩ := sized_spec sent (total + n.size) rest hfree hne hfiles
      rw [Position.next, fsStep_stat_ok rfl hf]
      refine ⟨hs, hsound, hdoomed.trans ?_, hcalls⟩
      simp [Position.Doomed, hf, totalSize_cons, fileSize_of_get? hf, add_assoc]
  | truncating oldest =>
    obtain ⟨⟨rand, hrand, hfree⟩, hpath⟩ := h
    cases hget : d.tree.get? oldest with
    | none =>
      rw [Position.next, fsStep_remove_noEnt rfl hget]
      exact ⟨hs, nofun, iff_of_true (.inl nofun) hget, Nat.zero_le _⟩
    | some n =>
      obtain ⟨c, x, rfl⟩ := hs.isFile hpath hget
      have hstill : TempFree w (d.tree.erase oldest) w.rands :=
        ⟨rand, hrand, by rw [Tree.get?_erase, if_neg (hpath.ne_temp rand).symm, hfree]⟩
      obtain ⟨hsound, hfine, hcalls⟩ := create_spec sent hstill
      rw [Position.next, fsStep_remove_of rfl ⟨_, hget, nofun⟩]
      exact ⟨hs.erase hpath.ne_dir, hsound, iff_of_false hfine (by simp [Position.Doomed, hget]),
        hcalls⟩
  | creating rand rands =>
    rw [Position.next, fsStep_of_not_fails rfl]
    cases hfree : d.tree.get? (w.temp rand) with
    | none =>
      obtain ⟨x, hx⟩ := hs.isDir
      have hparent : d.tree.hasParent (w.temp rand) = true :=
        Tree.hasParent_of_dir w.agent.spoolDir_ne hx _
      simp only [effect, hfree, hparent, WriteCall.created]
      exact ⟨hs.insert_temp rand _, ⟨rand, [], clock, rfl, by simp [Choice.good]⟩, Iff.rfl,
        Nat.le_add_left 5 rands.length⟩
    | some n =>
      obtain ⟨r, hr, hnone⟩ := h
      have hother : r ∈ rands := by
        refine (List.mem_cons.mp hr).resolve_left ?_
        rintro rfl
        rw [hfree] at hnone
        cases hnone
      obtain ⟨hsound, hfine, hcalls⟩ := create_spec sent ⟨r, hother, hnone⟩
      simp only [effect, hfree, WriteCall.created]
      exact ⟨hs, hsound, iff_of_false hfine id, hcalls⟩
  | writing temp =>
    obtain ⟨rand, c, x, rfl, hfile⟩ := h
    rw [Position.next, fsStep_of_not_fails rfl]
    simp only [effect, hfile]
    exact ⟨hs.insert_temp rand _, ⟨rand, clock, rfl, by simp [Choice.good]⟩, Iff.rfl,
      Nat.le_refl 4⟩
  | closing temp => exact ⟨hs, h, Iff.rfl, Nat.le_refl 3⟩
  | moving temp =>
    obtain ⟨rand, x, rfl, hfile⟩ := h
    rw [Position.next, fsStep_rename_of rfl (hs.renamable hfile)]
    have htarget : (d.tree.move (w.temp rand) w.target).get? w.target =
        some (.file w.payload x) := by
      rw [get?_move_temp (isSpoolPath_target w), if_pos rfl, hfile]
    refine ⟨hs.move_temp hfile, ⟨⟨rand, rfl⟩, fun _ n hn => ⟨x, ?_⟩⟩, iff_of_false ?_ id,
      Nat.le_refl 2⟩
    · exact Option.some.inj (hn.symm.trans htarget)
    · rintro (hfailed | ⟨hgone, -⟩)
      · exact hfailed rfl
      · exact Option.some_ne_none _ (htarget.symm.trans hgone)
  | closingAgain temp result => exact ⟨hs, h, Iff.rfl, Nat.le_refl 1⟩
  | removing temp result =>
    obtain ⟨⟨rand, rfl⟩, hstored⟩ := h
    have htarget := (isSpoolPath_target w).ne_temp rand
    rcases fsStep_remove (.good clock) d (w.temp rand) with ⟨e, he, _⟩ | ⟨n, _, _, he⟩
    · rw [Position.next, he]
      exact ⟨hs, hstored, Iff.rfl, Nat.zero_le _⟩
    · rw [Position.next, he]
      refine ⟨hs.erase (child_ne _ _), fun hok n hn => hstored hok n ?_, ?_, Nat.zero_le _⟩
      · simpa [htarget] using hn
      · simp [Position.Doomed, Lost, htarget]
  | returned result => exact ⟨hs, h, Iff.rfl, Nat.zero_le _⟩

/-! ## The steps of the send loop -/

theorem Position.Sound.erase (h : pos.Sound w t) (hf : IsSpoolPath w.agent f) :
    pos.Sound w (t.erase f) := by
  have htemp : ∀ rand, (t.erase f).get? (w.temp rand) = t.get? (w.temp rand) := by
    intro rand
    rw [Tree.get?_erase, if_neg (hf.ne_temp rand).symm]
  have hfree : ∀ {rands}, TempFree w t rands → TempFree w (t.erase f) rands :=
    fun ⟨rand, hmem, hnone⟩ => ⟨rand, hmem, by rwa [htemp]⟩
  have hstored : Stored w t → Stored w (t.erase f) := by
    intro hs n hn
    rw [Tree.get?_erase] at hn
    split at hn
    · cases hn
    · exact hs n hn
  cases pos with
  | listing | creating _ _ => exact hfree h
  | sizing _ _ _ _ | truncating _ => exact ⟨hfree h.1, h.2⟩
  | writing temp =>
    obtain ⟨rand, c, x, rfl, hfile⟩ := h
    exact ⟨rand, c, x, rfl, by rwa [htemp]⟩
  | closing temp | moving temp =>
    obtain ⟨rand, x, rfl, hfile⟩ := h
    exact ⟨rand, x, rfl, by rwa [htemp]⟩
  | closingAgain _ _ | removing _ _ => exact ⟨h.1, fun hok => hstored (h.2 hok)⟩
  | returned _ => exact fun hok => hstored (h hok)

/-- **A file that goes dooms the write if it was doomed before or if it needs the file.** -/
theorem Position.doomed_erase (pos : Position) (f : Path) : pos.Doomed w (t.erase f) sent ↔
    pos.Doomed w t sent ∨ pos.HarmedBy w t sent f := by
  have hgone : ∀ q, (t.erase f).get? q = none ↔ t.get? q = none ∨ f = q := by
    intro q
    rw [Tree.get?_erase]
    split <;> simp_all [eq_comm]
  cases pos with
  | sizing files g rest total =>
    by_cases hmem : f ∈ g :: rest
    · exact iff_of_true (.inl ⟨f, hmem, by simp⟩) (.inr (.inl hmem))
    · simp only [Position.Doomed, Position.HarmedBy, totalSize_erase hmem, hgone, and_or_left,
        exists_or, exists_eq_right', or_and_right]
      exact or_or_or_comm
  | truncating oldest => exact hgone oldest
  | closingAgain _ _ | removing _ _ | returned _ =>
    simp only [Position.Doomed, Position.HarmedBy, Lost, hgone]
    tauto
  | listing | creating _ _ | writing _ | closing _ | moving _ => exact (or_self_iff).symm

theorem Position.doomed_append (pos : Position) {more : List (Path × Bytes)}
    (hmore : ∀ e ∈ more, t.get? e.1 ≠ none) :
    pos.Doomed w t (sent ++ more) ↔ pos.Doomed w t sent := by
  have hlost : Lost w t (sent ++ more) ↔ Lost w t sent := by
    simp only [Lost, List.mem_append, not_or]
    exact ⟨fun h => ⟨h.1, h.2.1⟩, fun h => ⟨h.1, h.2, fun hm => hmore _ hm h.1⟩⟩
  cases pos <;> simp only [Position.Doomed, hlost]

theorem Position.calls_erase (pos : Position) (p : Path) :
    pos.calls w (t.erase p) ≤ pos.calls w t := by
  cases pos with
  | listing =>
    have hsub : spoolFiles w.agent (t.erase p) ⊆ spoolFiles w.agent t := by
      intro q hq
      obtain ⟨m, hm, hname, hsome⟩ := mem_spoolFiles.mp hq
      rw [Tree.get?_erase] at hsome
      split at hsome
      · cases hsome
      · exact mem_spoolFiles.mpr ⟨m, hm, hname, hsome⟩
    have hlen := (List.subperm_of_subset (nodup_spoolFiles w.agent (t.erase p)) hsub).length_le
    simp only [Position.calls]
    omega
  | _ => exact Nat.le_refl _

/-! ## One step of the system -/

def Sender.Sound (a : Agent) : Sender → Prop
  | .idle => True
  | .chosen f => IsSpoolPath a f
  | .posted f => IsSpoolPath a f

namespace Sending

variable {sys : Sending}

/-- The position is that of the program, and the send loop is at a spool file. -/
structure Sound (w : WriteCall) (sys : Sending) : Prop where
  follows : sys.program = sys.position.prog w
  sender : sys.sender.Sound w.agent
  spool : SpoolSound w.agent sys.disk.tree
  position : sys.position.Sound w sys.disk.tree

def Doomed (w : WriteCall) (sys : Sending) : Prop :=
  sys.position.Doomed w sys.disk.tree sys.sent

def calls (w : WriteCall) (sys : Sending) : Nat := sys.position.calls w sys.disk.tree

/-- The send loop changes what it holds and what was sent, or it removes a file. -/
theorem next_sender (h : sys.sender.Sound w.agent) (accepted : Bool) :
    (∃ s more, sys.next w (.sender accepted) = { sys with sender := s, sent := sys.sent ++ more } ∧
      s.Sound w.agent ∧ (∀ e ∈ more, sys.disk.tree.get? e.1 ≠ none) ∧
      Harmless w sys (.sender accepted)) ∨
    ∃ f, IsSpoolPath w.agent f ∧ sys.sender = .posted f ∧ sys.next w (.sender accepted) =
      { sys with disk := (fsStep (.good 0) (.remove f) sys.disk).2, sender := .idle } := by
  obtain ⟨disk, program, position, sender, sent⟩ := sys
  cases sender with
  | idle =>
    refine .inl ⟨.listed w.agent (fsStep (.good 0) (.readDir w.agent.spoolDir) disk).1, [], ?_,
      ?_, nofun, trivial⟩
    · simp only [next, Sender.next, fsStep_readDir_state]
    · rcases fsStep_readDir (.good 0) disk w.agent.spoolDir with ⟨e, he⟩ | ⟨x, _, he⟩
      · rw [he]
        trivial
      · rw [he]
        unfold Sender.listed
        simp only
        split
        · trivial
        · next f hf => exact isSpoolPath_of_mem (List.mem_of_head? hf)
  | chosen f =>
    refine .inl ?_
    rcases fsStep_read (.good 0) disk f with ⟨e, he⟩ | ⟨c, x, hf, he⟩
    · refine ⟨.idle, [], ?_, trivial, nofun, trivial⟩
      simp only [next, Sender.next, he, Sender.post]
    · cases accepted with
      | true =>
        refine ⟨.posted f, [(f, c)], ?_, h, by simp [hf], trivial⟩
        simp [next, Sender.next, he, Sender.post]
      | false =>
        refine ⟨.idle, [], ?_, trivial, nofun, trivial⟩
        simp [next, Sender.next, he, Sender.post]
  | posted f =>
    refine .inr ⟨f, h, rfl, ?_⟩
    simp [next, Sender.next]

/-- **A step keeps the write sound, and dooms it if and only if it was doomed or the step is not
harmless.** -/
theorem sound_next (h : Sound w sys) (turn : Turn) :
    Sound w (sys.next w turn) ∧
    (Doomed w (sys.next w turn) ↔ Doomed w sys ∨ ¬ Harmless w sys turn) ∧
    (sys.next w turn).calls w ≤ sys.calls w - if turn.isWriter then 1 else 0 := by
  cases turn with
  | writer clock =>
    have hleaves := h.position.next h.spool clock sys.sent
    have hnext : sys.next w (.writer clock) = { sys with
        disk := (sys.position.next w (.good clock) sys.disk).2
        program := (sys.position.next w (.good clock) sys.disk).1.prog w
        position := (sys.position.next w (.good clock) sys.disk).1 } := by
      rw [next, h.follows, Position.next_prog]
    rw [hnext]
    exact ⟨⟨rfl, h.sender, hleaves.spool, hleaves.sound⟩,
      hleaves.doomed.trans (or_iff_left (not_not.mpr trivial)).symm, hleaves.calls⟩
  | sender accepted =>
    rcases next_sender h.sender accepted with ⟨s, more, hnext, hs, hmore, hharm⟩ |
      ⟨f, hf, hposted, hnext⟩
    · rw [hnext, or_iff_left (not_not.mpr hharm)]
      exact ⟨⟨h.follows, hs, h.spool, h.position⟩, sys.position.doomed_append hmore, Nat.le_refl _⟩
    · have htree := h.spool.remove_tree hf 0
      have hharm : ¬ Harmless w sys (.sender accepted) ↔
          sys.position.HarmedBy w sys.disk.tree sys.sent f := by
        simp only [Harmless, hposted, not_not]
      rw [hnext, hharm, Doomed, calls, htree]
      refine ⟨⟨h.follows, trivial, ?_, ?_⟩, sys.position.doomed_erase f,
        sys.position.calls_erase f⟩
      · exact htree ▸ h.spool.erase hf.ne_dir
      · exact htree ▸ h.position.erase hf

/-! ## Whole interleavings -/

/-- A write is about to start. The send loop is anywhere, and there is a temporary name that is
free. -/
structure Starts (w : WriteCall) (sys : Sending) : Prop where
  program : sys.program = w.prog
  position : sys.position = .listing
  spool : SpoolSound w.agent sys.disk.tree
  sender : sys.sender.Sound w.agent
  temp : TempFree w sys.disk.tree w.rands

theorem Starts.sound (h : Starts w sys) : Sound w sys ∧ ¬ Doomed w sys := by
  refine ⟨⟨?_, h.sender, h.spool, ?_⟩, ?_⟩
  · rw [h.position, h.program]
    rfl
  · rw [h.position]
    exact h.temp
  · rw [Doomed, h.position]
    exact id

/-- **The write returns** when it has had enough turns. -/
theorem exists_returned (h : Sound w sys) {turns : List Turn}
    (henough : sys.calls w ≤ turns.countP Turn.isWriter) :
    ∃ r, (turns.foldl (next w) sys).position = .returned r := by
  have hle : calls w (turns.foldl (next w) sys) ≤ sys.calls w - turns.countP Turn.isWriter :=
    foldl_le_sub_countP (I := Sound w) (calls w) Turn.isWriter
      (fun _ turn h => (sound_next h turn).1)
      (fun _ turn h => (sound_next h turn).2.2.trans (Nat.sub_le _ _))
      (fun _ turn h hturn => by simpa [hturn] using (sound_next h turn).2.2) turns h
  have hzero := Nat.le_zero.mp (hle.trans (by omega))
  cases hpos : (turns.foldl (next w) sys).position with
  | returned r => exact ⟨r, rfl⟩
  | _ => simp [calls, hpos, Position.calls] at hzero

/-- **A write survives the send loop if and only if every step is harmless**, however their calls
are interleaved: the send loop never removes a file that the write still has to look at or to
remove, nor the new file in place of the old one of the same name that it has sent. -/
theorem write_survives_iff (h : Starts w sys) (turns : List Turn)
    (henough : (spoolFiles w.agent sys.disk.tree).length + w.rands.length + 7 ≤
      turns.countP Turn.isWriter) :
    ((turns.foldl (next w) sys).program = .ret (.ok ()) ∧
      Delivered w (turns.foldl (next w) sys).disk.tree (turns.foldl (next w) sys).sent) ↔
    EveryStep (next w) (Harmless w) sys turns := by
  have hcalls : sys.calls w ≤ turns.countP Turn.isWriter := by
    rw [calls, h.position]
    exact henough
  obtain ⟨r, hr⟩ := exists_returned h.sound.1 hcalls
  obtain ⟨hsound, hdoomed⟩ := last_iff_not_everyStep (I := Sound w) (P := Doomed w)
    (C := Harmless w) (fun _ turn hs => (sound_next hs turn).1)
    (fun _ turn hs => (sound_next hs turn).2.1) turns h.sound.1
  rw [or_iff_right h.sound.2] at hdoomed
  rw [← not_iff_comm.mp hdoomed.symm, Doomed]
  -- at the end the write has returned
  have hstored := hsound.position
  have hprogram := hsound.follows
  rw [hr] at hstored hprogram ⊢
  rw [hprogram]
  constructor
  · rintro ⟨hok, hdelivered⟩ (hfailed | ⟨hgone, hsent⟩)
    · exact hfailed (Prog.ret.inj hok)
    · obtain ⟨x, hx⟩ := Tree.content?_eq_some.mp (hdelivered.resolve_right hsent)
      rw [hgone] at hx
      cases hx
  · intro hfine
    obtain ⟨hok, hkept⟩ := not_or.mp hfine
    obtain rfl := not_not.mp hok
    refine ⟨rfl, or_iff_not_imp_right.mpr fun hsent => ?_⟩
    obtain ⟨n, hn⟩ := Option.ne_none_iff_exists'.mp fun hgone => hkept ⟨hgone, hsent⟩
    obtain ⟨x, rfl⟩ := hstored rfl n hn
    exact Tree.content?_eq_some.mpr ⟨x, hn⟩

theorem smallDir_ne : [ascii "spool"] ≠ [] := by decide

def smallWrite : WriteCall := ⟨⟨[ascii "spool"], 10, smallDir_ne⟩, 3, [3], [0]⟩

def smallSending : Sending where
  disk := ⟨⟨[([ascii "spool"], .dir 0), ([ascii "spool", spoolName 1], .file [1] 0),
    ([ascii "spool", spoolName 2], .file [2] 0)], by decide⟩, []⟩
  program := smallWrite.prog
  position := .listing
  sender := .idle
  sent := []

theorem starts_small : Starts smallWrite smallSending where
  program := rfl
  position := rfl
  spool := by
    refine ⟨⟨0, by decide⟩, ?_⟩
    rintro p ⟨m, rfl, hm⟩ x hx
    rw [Tree.get?_eq_some_iff] at hx
    simp [smallSending, smallWrite] at hx
  sender := trivial
  temp := ⟨0, List.mem_cons_self, by decide⟩

/-- The send loop takes a file out, and then the write runs to its end. -/
theorem write_survives_iff_small :
    EveryStep (next smallWrite) (Harmless smallWrite) smallSending
      (List.replicate 3 (.sender true) ++ List.replicate 10 (.writer 0)) :=
  (write_survives_iff starts_small _ (by decide +kernel)).mp
    ⟨by rfl, Or.inl (by decide +kernel)⟩

/-- The send loop takes a file out when the write has listed it. -/
theorem write_fails_small : Starts smallWrite smallSending ∧
    ((.writer 0 :: (List.replicate 3 (.sender true) ++ List.replicate 9 (.writer 0))).foldl
      (next smallWrite) smallSending).program = .ret (.error .noEnt) :=
  ⟨starts_small, by rfl⟩

end Sending

end Prom
