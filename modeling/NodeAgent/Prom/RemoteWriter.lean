import NodeAgent.Infra.FilePrograms

/-!
# The spool of the remote writer (`prom/remote_writer.go`)

Every scrape of the agent writes one file to the spool, and the send loop takes the oldest one. The
functions are programs over file system calls. The timestamp of a scrape and the random numbers
that `os.CreateTemp` tries are arguments.

* `writeToSpool_wp` — what a write that succeeds leaves in the spool
-/

namespace Prom

open Infra Prog

/-- The part of the agent that the spool needs. The directory ends in `spool`, so it is not empty.
-/
structure Agent where
  spoolDir : Path
  maxSpoolSize : Int
  spoolDir_ne : spoolDir ≠ []

/-! ## Programs -/

/-- `spool-*.done` -/
def isSpoolName (name : Name) : Bool :=
  hasPrefix name (ascii "spool-") && hasSuffix name (ascii ".done")

/-- `fmt.Sprintf("spool-%d.done", timestamp)` -/
def spoolName (timestamp : Int) : Name :=
  ascii "spool-" ++ zeroPadded 0 timestamp ++ ascii ".done"

def spoolPath (a : Agent) (timestamp : Int) : Path := a.spoolDir ++ [spoolName timestamp]

/-- The name that `os.CreateTemp` makes. The pattern has no `*`, so the number comes last. -/
def tempName (timestamp : Int) (rand : Nat) : Name := spoolName timestamp ++ decimal rand

/-- The paths of the spool files among the entries of the directory, sorted. -/
def selectFiles (spoolDir : Path) (entities : List DirEntry) : List Path :=
  ((entities.filter fun e => isSpoolName e.name).map fun e => spoolDir ++ [e.name]).insertionSort
    fun a b => pathString a ≤ pathString b

def listSpoolFiles (a : Agent) : FsProg (Except Errno (List Path)) := do
  let entities ← Os.readDir a.spoolDir
  match entities with
  | .error e => .ret (.error e)
  | .ok entities => .ret (.ok (selectFiles a.spoolDir entities))

/-- The loop of `truncateSpoolIfNeeded`. -/
def statFiles : List Path → Int → FsProg (Except Errno Int)
  | [], totalSize => .ret (.ok totalSize)
  | f :: files, totalSize => do
    let st ← Os.stat f
    match st with
    | .error e => .ret (.error e)
    | .ok st => statFiles files (totalSize + st.size)

/-- The rest of `truncateSpoolIfNeeded`, once the sizes are known. -/
def dropOldest (a : Agent) (files : List Path) :
    Except Errno Int → FsProg (Except Errno Unit)
  | .error e => .ret (.error e)
  | .ok totalSize =>
    if totalSize > a.maxSpoolSize then Os.remove (files.headD []) else .ret (.ok ())

def truncateSpoolIfNeeded (a : Agent) : FsProg (Except Errno Unit) := do
  let files ← listSpoolFiles a
  match files with
  | .error e => .ret (.error e)
  | .ok files =>
    if files.length ≤ 1 then .ret (.ok ())
    else do
      let totalSize ← statFiles files 0
      dropOldest a files totalSize

/-- `os.CreateTemp(a.spoolDir, fileName)`: a name that is taken is answered by the next one. -/
def createTemp (a : Agent) (timestamp : Int) : List Nat → FsProg (Except Errno Path)
  | [] => .ret (.error .exist)
  | rand :: rands => do
    let f ← Os.create (a.spoolDir ++ [tempName timestamp rand])
    match f with
    | .ok _ => .ret (.ok (a.spoolDir ++ [tempName timestamp rand]))
    | .error .exist => createTemp a timestamp rands
    | .error e => .ret (.error e)

/-- The function that `writeToSpool` defers. -/
def discard (temp : Path) (result : Except Errno Unit) : FsProg (Except Errno Unit) := do
  let _ ← Os.close temp
  let _ ← Os.remove temp
  .ret result

def place (temp target : Path) (payload : Bytes) : FsProg (Except Errno Unit) := do
  let written ← Os.write temp payload
  match written with
  | .error e => .ret (.error e)
  | .ok _ => do
    let closed ← Os.close temp
    match closed with
    | .error e => .ret (.error e)
    | .ok _ => Os.rename temp target

/-- The second part of `writeToSpool`. -/
def store (a : Agent) (timestamp : Int) (payload : Bytes) (rands : List Nat) :
    FsProg (Except Errno Unit) := do
  let f ← createTemp a timestamp rands
  match f with
  | .error e => .ret (.error e)
  | .ok temp => do
    let result ← place temp (spoolPath a timestamp) payload
    discard temp result

def writeToSpool (a : Agent) (timestamp : Int) (payload : Bytes) (rands : List Nat) :
    FsProg (Except Errno Unit) := do
  let truncated ← truncateSpoolIfNeeded a
  match truncated with
  | .error e => .ret (.error e)
  | .ok _ => store a timestamp payload rands

def getOldestSpoolFile (a : Agent) : FsProg (Except Errno (Option Path)) := do
  let files ← listSpoolFiles a
  match files with
  | .error e => .ret (.error e)
  | .ok files => .ret (.ok files.head?)

/-- The file is opened and posted; `accepted` says that the answer has a status under 300. -/
def send (accepted : Bool) (fPath : Path) : FsProg (Except Errno Unit) := do
  let f ← Os.readFile fPath
  match f with
  | .error e => .ret (.error e)
  | .ok _ => if accepted then .ret (.ok ()) else .ret (.error .io)

/-- The function that `sendLoop` calls; after an error the loop waits and starts again. -/
def sendFile (accepted : Bool) (fName : Path) : FsProg Unit := do
  let sent ← send accepted fName
  match sent with
  | .error _ => .ret ()
  | .ok _ => do
    let _ ← Os.remove fName
    .ret ()

/-- One round of `sendLoop`. -/
def sendRound (a : Agent) (accepted : Bool) : FsProg Unit := do
  let fName ← getOldestSpoolFile a
  match fName with
  | .error _ => .ret ()
  | .ok none => .ret ()
  | .ok (some fName) => sendFile accepted fName

/-! ## Names -/

theorem ne_of_mem_decimal {n : Nat} {b : UInt8} (h : b ∈ decimal n) : b ≠ 101 := by
  have hdigit := digit_of_mem_decimal h
  rintro rfl
  exact absurd hdigit.2 (by decide)

theorem isSpoolName_tempName (timestamp : Int) (rand : Nat) :
    isSpoolName (tempName timestamp rand) = false := by
  rw [isSpoolName, Bool.and_eq_false_iff]
  refine Or.inr (Bool.eq_false_iff.mpr fun h => ?_)
  rw [hasSuffix, List.isSuffixOf_iff_suffix] at h
  obtain ⟨x, hx⟩ := h
  have hne : decimal rand ≠ [] := by simp [decimal, Nat.toDigits_ne_nil]
  have hlast := congrArg List.getLast? hx
  rw [tempName, List.getLast?_append_of_ne_nil _ hne,
    List.getLast?_append_of_ne_nil _ (show ascii ".done" ≠ [] by decide)] at hlast
  have hmem : (101 : UInt8) ∈ decimal rand :=
    List.mem_of_getLast? (hlast.symm.trans (show (ascii ".done").getLast? = some 101 by decide))
  exact ne_of_mem_decimal hmem rfl

theorem isSpoolName_spoolName (timestamp : Int) : isSpoolName (spoolName timestamp) = true := by
  rw [isSpoolName, Bool.and_eq_true, hasPrefix, hasSuffix, List.isPrefixOf_iff_prefix,
    List.isSuffixOf_iff_suffix]
  refine ⟨?_, List.suffix_append _ _⟩
  rw [spoolName, List.append_assoc]
  exact List.prefix_append _ _

theorem ne_tempName {name : Name} (h : isSpoolName name = true) (timestamp : Int) (rand : Nat) :
    name ≠ tempName timestamp rand := by
  rintro rfl
  rw [isSpoolName_tempName] at h
  cases h

/-! ## The files of the spool -/

variable {a : Agent} {t t' : Tree}

/-- What `listSpoolFiles` returns. -/
def spoolFiles (a : Agent) (t : Tree) : List Path :=
  selectFiles a.spoolDir (t.dirEntries a.spoolDir)

theorem mem_spoolFiles {p : Path} : p ∈ spoolFiles a t ↔
    ∃ m, p = a.spoolDir ++ [m] ∧ isSpoolName m = true ∧ (t.get? p).isSome = true := by
  rw [spoolFiles, selectFiles, List.mem_insertionSort, List.mem_map]
  constructor
  · rintro ⟨e, he, rfl⟩
    obtain ⟨hmem, hname⟩ := List.mem_filter.mp he
    obtain ⟨n, hn, _⟩ := Tree.mem_dirEntries.mp hmem
    exact ⟨e.name, rfl, hname, by rw [hn]; rfl⟩
  · rintro ⟨m, rfl, hname, hsome⟩
    obtain ⟨n, hn⟩ := Option.isSome_iff_exists.mp hsome
    exact ⟨⟨m, n.isDir⟩, List.mem_filter.mpr ⟨Tree.mem_dirEntries.mpr ⟨n, hn, rfl⟩, hname⟩, rfl⟩

theorem nodup_spoolFiles (a : Agent) (t : Tree) : (spoolFiles a t).Nodup := by
  rw [spoolFiles, selectFiles, (List.perm_insertionSort _ _).nodup_iff]
  have hnames : (((t.dirEntries a.spoolDir).filter fun e => isSpoolName e.name).map
      DirEntry.name).Nodup := Tree.nodup_dirEntries.sublist (List.filter_sublist.map _)
  have hpaths := hnames.map (f := fun m => a.spoolDir ++ [m]) fun x y h => by simpa using h
  rw [List.map_map] at hpaths
  exact hpaths

def fileSize (t : Tree) (p : Path) : Nat := ((t.get? p).map Node.size).getD 0

def totalSize (t : Tree) (files : List Path) : Nat := (files.map (fileSize t)).sum

theorem totalSize_congr {files : List Path} (h : ∀ p ∈ files, t'.get? p = t.get? p) :
    totalSize t' files = totalSize t files := by
  rw [totalSize, totalSize]
  refine congrArg List.sum (List.map_congr_left fun p hp => ?_)
  rw [fileSize, fileSize, h p hp]

/-- More than one file, and more bytes than allowed. -/
def Overfull (a : Agent) (t : Tree) : Prop :=
  1 < (spoolFiles a t).length ∧ a.maxSpoolSize < totalSize t (spoolFiles a t)

instance (a : Agent) (t : Tree) : Decidable (Overfull a t) := inferInstanceAs (Decidable (_ ∧ _))

def kept (a : Agent) (t : Tree) : List Path :=
  if Overfull a t then (spoolFiles a t).tail else spoolFiles a t

def truncated (a : Agent) (d : Disk) : Disk :=
  if Overfull a d.tree then d.removed ((spoolFiles a d.tree).headD []) else d

theorem kept_sublist : (kept a t).Sublist (spoolFiles a t) := by
  unfold kept
  split
  · exact List.tail_sublist _
  · exact List.Sublist.refl _

theorem mem_kept {d : Disk} {p : Path} :
    p ∈ kept a d.tree ↔ p ∈ spoolFiles a (truncated a d).tree := by
  by_cases hfull : Overfull a d.tree
  · rw [kept, truncated, if_pos hfull, if_pos hfull]
    have hnodup := nodup_spoolFiles a d.tree
    have hmem : ∀ q, q ∈ spoolFiles a d.tree ↔ _ := fun q => mem_spoolFiles
    obtain ⟨oldest, rest, hfiles⟩ := List.exists_cons_of_length_pos (Nat.lt_of_succ_lt hfull.1)
    rw [hfiles] at hnodup hmem ⊢
    rw [List.tail_cons, List.headD_cons, mem_spoolFiles, Disk.removed_tree, Tree.get?_erase]
    constructor
    · intro hp
      have hne : p ≠ oldest := fun he => (List.nodup_cons.mp hnodup).1 (he ▸ hp)
      rw [if_neg hne]
      exact (hmem p).mp (List.mem_cons_of_mem oldest hp)
    · rintro ⟨m, hm, hname, hsome⟩
      by_cases hp : p = oldest
      · rw [if_pos hp] at hsome
        cases hsome
      · rw [if_neg hp] at hsome
        exact (List.mem_cons.mp ((hmem p).mpr ⟨m, hm, hname, hsome⟩)).resolve_left hp
  · rw [kept, truncated, if_neg hfull, if_neg hfull]

theorem get?_truncated {d : Disk} {p : Path} (h : p ∈ kept a d.tree) :
    (truncated a d).tree.get? p = d.tree.get? p := by
  obtain ⟨m, hm, hname, hsome⟩ := mem_spoolFiles.mp (mem_kept.mp h)
  unfold truncated at hsome ⊢
  split
  · next hfull =>
    rw [if_pos hfull, Disk.removed_tree, Tree.get?_erase] at hsome
    rw [Disk.removed_tree, Tree.get?_erase]
    split
    · next he =>
      rw [if_pos he] at hsome
      cases hsome
    · rfl
  · rfl

/-! ## What the programs do -/

variable {R : Choice → FsOp → Disk → Prop} {d d' : Disk}

theorem listSpoolFiles_wp : wp fsStep R (listSpoolFiles a)
    (fun r d' => d' = d ∧ ∀ files, r = .ok files → files = spoolFiles a d.tree)
    (fun d' => d' = d) d := by
  refine wp_readDir rfl (fun e => ⟨rfl, by simp⟩) fun x _ => ⟨rfl, fun files h => ?_⟩
  exact (Except.ok.inj h).symm

theorem statFiles_wp (files : List Path) : ∀ total : Int, wp fsStep R (statFiles files total)
    (fun r d' => d' = d ∧ ∀ sum, r = .ok sum → sum = total + totalSize d.tree files)
    (fun d' => d' = d) d := by
  induction files with
  | nil =>
    intro total
    refine ⟨rfl, fun sum h => ?_⟩
    rw [← Except.ok.inj h, totalSize]
    simp
  | cons f files ih =>
    intro total
    refine wp_stat rfl (fun e => ⟨rfl, by simp⟩) fun n hn => ?_
    refine wp_mono (fun r d' h => ⟨h.1, fun sum hsum => ?_⟩) (fun _ h => h) (ih _)
    have hsize : fileSize d.tree f = n.size := by
      rw [fileSize, hn]
      rfl
    rw [h.2 sum hsum, totalSize, totalSize, List.map_cons, List.sum_cons, hsize]
    omega

/-- **A truncation that succeeds removes the oldest file of an overfull spool.** -/
theorem truncateSpoolIfNeeded_wp : wp fsStep R (truncateSpoolIfNeeded a)
    (fun r d' => r = .ok () → d' = truncated a d) (fun _ => True) d := by
  refine wp_seq listSpoolFiles_wp (fun _ _ => trivial) ?_
  rintro r d' ⟨rfl, h⟩
  cases r with
  | error e => simp
  | ok files =>
    obtain rfl := h files rfl
    simp only
    split
    · next hfew =>
      intro _
      rw [truncated, if_neg fun hfull => by exact absurd hfull.1 (by omega)]
    · next hmany =>
      refine wp_seq (statFiles_wp _ 0) (fun _ _ => trivial) ?_
      rintro r d1 ⟨rfl, hsum⟩
      cases r with
      | error e => simp [dropOldest]
      | ok sum =>
        have hsum := hsum sum rfl
        rw [Int.zero_add] at hsum
        simp only [dropOldest]
        split
        · next hbig =>
          refine ⟨trivial, fun c _ => ?_⟩
          rcases fsStep_remove c d1 ((spoolFiles a d1.tree).headD []) with
            ⟨e, he, _⟩ | ⟨n, _, _, he⟩
          · rw [he]
            exact fun h => by cases h
          · rw [he, truncated, if_pos ⟨by omega, by omega⟩]
            exact fun _ => rfl
        · next hsmall =>
          intro _
          rw [truncated, if_neg fun hfull => by exact absurd hfull.2 (by omega)]

theorem createTemp_wp (timestamp : Int) : ∀ rands : List Nat,
    wp fsStep R (createTemp a timestamp rands)
      (fun r d' => ∀ temp, r = .ok temp → ∃ rand x,
        temp = a.spoolDir ++ [tempName timestamp rand] ∧ d' = d.put temp (.file [] x))
      (fun _ => True) d
  | [] => fun temp h => by cases h
  | rand :: rands => by
    refine wp_os trivial fun c _ => ?_
    rcases fsStep_create c d (a.spoolDir ++ [tempName timestamp rand]) with
      ⟨e, he⟩ | ⟨hfree, _, he⟩
    · rw [he]
      cases e with
      | exist => exact createTemp_wp timestamp rands
      | _ => exact fun temp h => by cases h
    · rw [he]
      intro temp h
      obtain rfl := Except.ok.inj h
      exact ⟨rand, c.clock, rfl, rfl⟩

/-- The spool after the payload was written. What has no spool name may have changed. -/
def Written (a : Agent) (timestamp : Int) (payload : Bytes) (d d' : Disk) : Prop :=
  ∃ x, ∀ m, isSpoolName m = true → d'.tree.get? (a.spoolDir ++ [m]) =
    if m = spoolName timestamp then some (.file payload x) else d.tree.get? (a.spoolDir ++ [m])

theorem place_wp {timestamp : Int} {rand : Nat} (payload : Bytes) :
    wp fsStep R (place (a.spoolDir ++ [tempName timestamp rand]) (spoolPath a timestamp) payload)
      (fun r d' => r = .ok () → Written a timestamp payload d d') (fun _ => True) d := by
  refine wp_os trivial fun c _ => ?_
  rcases fsStep_write c d (a.spoolDir ++ [tempName timestamp rand]) payload with
    ⟨e, he⟩ | ⟨e, _, _, _, _, he⟩ | ⟨_, _, _, he⟩
  · rw [he]
    exact fun h => by cases h
  · rw [he]
    exact fun h => by cases h
  rw [he]
  refine wp_os trivial fun c' _ => ?_
  rw [fsStep_handle c' _ (Or.inr (Or.inr ⟨_, rfl⟩))]
  split
  · exact fun h => by cases h
  refine ⟨trivial, fun c'' _ => ?_⟩
  rcases fsStep_rename c'' (d.put (a.spoolDir ++ [tempName timestamp rand])
    (.file payload c.clock)) (a.spoolDir ++ [tempName timestamp rand])
    (spoolPath a timestamp) with ⟨e, he⟩ | ⟨_, _, _, hpq, hqp, _, he⟩
  · rw [he]
    exact fun h => by cases h
  rw [he]
  have hne := (ne_tempName (isSpoolName_spoolName timestamp) timestamp rand).symm
  refine fun _ => ⟨c.clock, fun m hm => ?_⟩
  rw [Disk.renamed_tree, spoolPath, Tree.get?_move_sibling hne,
    if_neg (ne_tempName hm timestamp rand)]
  simp [ne_tempName hm timestamp rand]

theorem discard_wp {timestamp : Int} {rand : Nat} {result : Except Errno Unit} :
    wp fsStep R (discard (a.spoolDir ++ [tempName timestamp rand]) result)
      (fun r d' => r = result ∧ ∀ m, isSpoolName m = true →
        d'.tree.get? (a.spoolDir ++ [m]) = d.tree.get? (a.spoolDir ++ [m]))
      (fun _ => True) d := by
  refine wp_os trivial fun c _ => ?_
  rw [fsStep_handle c d (Or.inr (Or.inr ⟨_, rfl⟩))]
  refine wp_remove trivial (fun e => ⟨rfl, fun _ _ => rfl⟩) fun _ => ⟨rfl, fun m hm => ?_⟩
  simp [ne_tempName hm timestamp rand]

theorem writeToSpool_wp (timestamp : Int) (payload : Bytes) (rands : List Nat) :
    wp fsStep R (writeToSpool a timestamp payload rands)
      (fun r d' => r = .ok () → Written a timestamp payload (truncated a d) d')
      (fun _ => True) d := by
  refine wp_seq truncateSpoolIfNeeded_wp (fun _ h => h) ?_
  intro r d1 h
  cases r with
  | error e => simp
  | ok _ =>
    obtain rfl := h rfl
    refine wp_seq (createTemp_wp timestamp rands) (fun _ h => h) ?_
    intro r d2 h
    cases r with
    | error e => simp
    | ok temp =>
      obtain ⟨rand, x, rfl, rfl⟩ := h temp rfl
      refine wp_seq (place_wp payload) (fun _ h => h) ?_
      intro r d3 hplaced
      refine wp_mono ?_ (fun _ h => h) discard_wp
      rintro r' d4 ⟨rfl, hsame⟩ hok
      obtain ⟨y, hy⟩ := hplaced hok
      refine ⟨y, fun m hm => ?_⟩
      rw [hsame m hm, hy m hm]
      simp [ne_tempName hm timestamp rand]

end Prom
