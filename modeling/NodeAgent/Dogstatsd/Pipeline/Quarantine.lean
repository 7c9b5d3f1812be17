import NodeAgent.Dogstatsd.Pipeline.Accounting
import NodeAgent.Dogstatsd.Spool.Listing

/-!
# Which payloads a replay quarantines

A payload that decodes should be quarantined only when the collector has refused it for good. A
replay takes every error of `customPayloadSampleCount` for a corrupt payload, an error of
`os.ReadFile` included, and a request that cannot be made for a refusal.

* `replayOnce_spared_iff` — a replay does what is asked if and only if this is so
-/

namespace Dogstatsd

open Infra Prog CustomSpool

variable {op : FsOp} {e : Errno} {content : Bytes} {other : Path}

/-! ## Calls and their replies -/

abbrev FsLog := List (Σ op : FsOp, op.Reply)

def ReadFailed (file : Path) (log : FsLog) : Prop := ∃ e, ⟨.read file, .error e⟩ ∈ log

def OpenFailed (file : Path) (log : FsLog) : Prop := ∃ e, ⟨.openFile file, .error e⟩ ∈ log

def Opened (file : Path) (log : FsLog) : Prop := ⟨.openFile file, .ok ()⟩ ∈ log

def Removed (file : Path) (log : FsLog) : Prop := ⟨.remove file, .ok ()⟩ ∈ log

def Quarantined (s : CustomSpool) (file : Path) (log : FsLog) : Prop :=
  ∃ reason, ⟨.rename file (destination s file reason), .ok ()⟩ ∈ log

/-- A payload is quarantined only when the collector refused it for good, and one that could not be
read is still there. -/
@[mk_iff]
structure Spared (s : CustomSpool) (exchange : Exchange) (file : Path) (d d' : Disk)
    (log : FsLog) : Prop where
  quarantine : Quarantined s file log → Opened file log ∧
    ∃ code, exchange = .status code ∧ classifyHTTPStatus code = .permanent
  unread : ReadFailed file log ∨ OpenFailed file log →
    ready s d'.tree file = ready s d.tree file

/-- When the payload cannot be read or the request cannot be made, the move into quarantine fails as
well, and when it cannot be opened, it has not expired. -/
@[mk_iff]
structure Tolerated (s : CustomSpool) (exchange : Exchange) (file : Path) (log : FsLog) : Prop where
  read : ReadFailed file log → ¬ Quarantined s file log
  request : exchange = .badRequest → ¬ Quarantined s file log
  expiry : OpenFailed file log → ¬ Removed file log

/-! ## Housekeeping -/

/-- The calls of `Oldest`, of `Maintain` and of `statsLocked`. -/
def Housekeeping : FsOp → Prop
  | .readDir _ => True
  | .stat _ => True
  | .walk _ => True
  | .remove _ => True
  | _ => False

instance : DecidablePred Housekeeping := fun op => by
  cases op <;> unfold Housekeeping <;> infer_instance

section

variable {A : FsOp → Prop} {s : CustomSpool}

theorem oldest_uses (hA : ∀ p, A (.readDir p)) : (oldest s).Uses A :=
  uses_ok (filesLocked_uses hA) (fun _ => trivial) fun _ => trivial

theorem dropEmptyBatch_uses (path : Path) : (dropEmptyBatch s path).Uses Housekeeping := by
  unfold dropEmptyBatch
  split
  · trivial
  · refine uses_ok (uses_lift trivial) (fun _ => trivial) fun entries => ?_
    cases entries with
    | nil => exact uses_step trivial fun _ => trivial
    | cons entry rest => trivial

theorem expireLoop_uses (cutoff : Int) :
    ∀ (files : List Path) (expired : Nat), (expireLoop s cutoff files expired).Uses Housekeeping
  | [], _ => trivial
  | file :: rest, expired => by
    refine uses_ok (uses_lift trivial) (fun _ => trivial) fun info => ?_
    simp only
    split
    · refine uses_ok (uses_lift trivial) (fun _ => trivial) fun _ => ?_
      exact uses_bind (dropEmptyBatch_uses file) fun _ => expireLoop_uses cutoff rest _
    · exact expireLoop_uses cutoff rest expired

theorem removeEach_uses : ∀ (paths : List Path) (last : Except Errno Unit),
    (removeEach paths last).Uses Housekeeping
  | [], _ => trivial
  | p :: ps, _ => by
    refine uses_step trivial fun r => ?_
    split <;> exact removeEach_uses ps _

theorem removeAll_uses (path : Path) : (removeAll path).Uses Housekeeping := by
  refine uses_step trivial fun r => ?_
  split
  · exact removeEach_uses _ _
  · trivial
  · trivial

theorem itemsLoop_uses : ∀ (entries : List DirEntry) (items : List QuarantineEntry),
    (itemsLoop s entries items).Uses Housekeeping
  | [], _ => trivial
  | entry :: rest, items => by
    have hsize : (treeSize (s.quarantineDir ++ [entry.name])).Uses Housekeeping :=
      uses_ok (uses_lift trivial) (fun _ => trivial) fun _ => trivial
    refine uses_ok hsize (fun _ => trivial) fun size => ?_
    exact uses_ok (uses_lift trivial) (fun _ => trivial) fun info => itemsLoop_uses rest _

theorem evictLoop_uses : ∀ (items : List QuarantineEntry) (total : Int) (removed : Nat),
    (evictLoop s items total removed).Uses Housekeeping
  | [], _, _ => trivial
  | item :: rest, total, removed => by
    unfold evictLoop
    split
    · trivial
    · exact uses_ok (removeAll_uses item.path) (fun _ => trivial) fun _ => evictLoop_uses rest _ _

theorem maintain_uses (now : Int) : (maintain s now).Uses Housekeeping := by
  refine uses_ok (filesLocked_uses fun _ => trivial) (fun _ => trivial) fun files => ?_
  refine uses_bind (expireLoop_uses _ files 0) fun r => ?_
  obtain ⟨expired, err⟩ := r
  cases err with
  | some e => trivial
  | none =>
    refine uses_ok (uses_lift trivial) (fun _ => trivial) fun entries => ?_
    refine uses_ok (itemsLoop_uses entries []) (fun _ => trivial) fun items => ?_
    exact uses_bind (evictLoop_uses _ _ _) fun _ => trivial

theorem statsLoop_uses : ∀ (files : List Path) (bytes : Int) (oldest : Option Int),
    (statsLoop files bytes oldest).Uses Housekeeping
  | [], _, _ => trivial
  | _ :: rest, _, _ =>
    uses_ok (uses_lift trivial) (fun _ => trivial) fun _ => statsLoop_uses rest _ _

theorem statsLocked_uses (now : Int) : (statsLocked s now).Uses Housekeeping := by
  refine uses_ok (filesLocked_uses fun _ => trivial) (fun _ => trivial) fun files => ?_
  exact uses_ok (statsLoop_uses files 0 none) (fun _ => trivial) fun _ => trivial

theorem refreshSpoolMetrics_uses (p : Pipeline) (times : RefreshTimes) :
    (p.refreshSpoolMetrics times).Uses Housekeeping := by
  refine uses_bind (maintain_uses times.maintain) fun r => ?_
  obtain ⟨result, err⟩ := r
  cases err with
  | some e => trivial
  | none => exact uses_ok (statsLocked_uses times.stats) (fun _ => trivial) fun _ => trivial

end

/-- Since `d` and `log` there were housekeeping calls only. The file is as it was, or it was
removed. -/
def Kept (file : Path) (d : Disk) (log : FsLog) (t : Disk × FsLog) : Prop :=
  ∃ new, t.2 = log ++ new ∧ (∀ e ∈ new, Housekeeping e.1) ∧
    ((t.1.tree.get? file = d.tree.get? file ∧ ¬ Removed file new) ∨
      (t.1.tree.get? file = none ∧ Removed file new))

section

variable {file : Path} {d : Disk} {log : FsLog} {R : Choice → FsOp → Disk × FsLog → Prop}

theorem Kept.refl : Kept file d log (d, log) :=
  ⟨[], (List.append_nil log).symm, fun _ h => (by cases h), .inl ⟨rfl, fun h => by cases h⟩⟩

theorem fsStep_housekeeping (c : Choice) (d : Disk) (hop : Housekeeping op) :
    ((fsStep c op d).2 = d ∧
      ∀ p, (⟨.remove p, .ok ()⟩ : Σ op : FsOp, op.Reply) ≠ ⟨op, (fsStep c op d).1⟩) ∨
    ∃ p, op = .remove p ∧ fsStep c (.remove p) d = (.ok (), d.removed p) := by
  cases op with
  | readDir p =>
    rcases fsStep_readDir c d p with ⟨e, he⟩ | ⟨x, _, he⟩
    · exact .inl ⟨by rw [he], fun p h => by cases h⟩
    · exact .inl ⟨by rw [he], fun p h => by cases h⟩
  | stat p =>
    rcases fsStep_stat c d p with ⟨e, he⟩ | ⟨n, _, he⟩
    · exact .inl ⟨by rw [he], fun p h => by cases h⟩
    · exact .inl ⟨by rw [he], fun p h => by cases h⟩
  | walk p =>
    rcases fsStep_walk c d p with ⟨e, he, _⟩ | ⟨n, _, he⟩
    · exact .inl ⟨by rw [he], fun p h => by cases h⟩
    · exact .inl ⟨by rw [he], fun p h => by cases h⟩
  | remove p =>
    rcases fsStep_remove c d p with ⟨e, he, _⟩ | ⟨n, _, _, he⟩
    · refine .inl ⟨by rw [he], fun q h => ?_⟩
      rw [he] at h
      cases h
    · exact .inr ⟨p, rfl, he⟩
  | _ => exact hop.elim

theorem Kept.step {t : Disk × FsLog} (h : Kept file d log t) (c : Choice) (hop : Housekeeping op) :
    Kept file d log (logged fsStep c op t).2 := by
  obtain ⟨d₁, log₁⟩ := t
  obtain ⟨new, rfl, hnew, hfile⟩ := h
  have hgrow : ∀ e ∈ new ++ [⟨op, (fsStep c op d₁).1⟩], Housekeeping e.1 := by
    intro e he
    rcases List.mem_append.mp he with he | he
    · exact hnew e he
    · rw [List.mem_singleton.mp he]
      exact hop
  have hlog : (logged fsStep c op (d₁, log ++ new)).2.2 =
      log ++ (new ++ [⟨op, (fsStep c op d₁).1⟩]) := List.append_assoc log new _
  refine ⟨new ++ [⟨op, (fsStep c op d₁).1⟩], hlog, hgrow, ?_⟩
  unfold Removed at hfile ⊢
  simp only [logged, List.mem_append, List.mem_singleton]
  rcases fsStep_housekeeping c d₁ hop with ⟨hsame, hne⟩ | ⟨p, rfl, hremove⟩
  · rw [hsame, or_iff_left (hne file)]
    exact hfile
  rw [hremove, Disk.removed_tree, Tree.get?_erase]
  by_cases hp : file = p
  · subst hp
    exact .inr ⟨if_pos rfl, .inr rfl⟩
  · have hother : (⟨.remove file, .ok ()⟩ : Σ op : FsOp, op.Reply) ≠ ⟨.remove p, .ok ()⟩ := by
      intro he
      cases he
      exact hp rfl
    rw [if_neg hp, or_iff_left hother]
    exact hfile

theorem kept_wp {α : Type} {prog : FsProg α} (hu : prog.Uses Housekeeping) :
    wp (logged fsStep) R prog (fun _ => Kept file d log) (Kept file d log) (d, log) :=
  wp_of_uses (fun c _ _ hop _ h => h.step c hop) hu Kept.refl

end

/-! ## The calls that count -/

def trail (log : FsLog) : FsLog := log.filter (fun e => ¬ Housekeeping e.1)

section

variable {s : CustomSpool} {file : Path} {d : Disk} {log new : FsLog} {exchange : Exchange}

theorem mem_trail {e : Σ op : FsOp, op.Reply} (he : ¬ Housekeeping e.1) :
    e ∈ trail log ↔ e ∈ log := by
  unfold trail
  rw [List.mem_filter, decide_eq_true_eq, and_iff_left he]

theorem ok_ne_error {op' : FsOp} {v : op.Value} :
    (⟨op, .ok v⟩ : Σ op : FsOp, op.Reply) ≠ ⟨op', .error e⟩ := by
  intro h
  have hok := congrArg (fun call : Σ op : FsOp, op.Reply => call.2.isOk) h
  cases hok

theorem not_quarantined_snoc {q : Path} (h : ¬ Quarantined s file log) :
    ¬ Quarantined s file (log ++ [⟨.rename file q, .error e⟩]) := by
  rintro ⟨reason, hmem⟩
  rcases List.mem_append.mp hmem with hmem | hmem
  · exact h ⟨reason, hmem⟩
  · exact ok_ne_error (List.mem_singleton.mp hmem)

theorem trail_append (log new : FsLog) : trail (log ++ new) = trail log ++ trail new :=
  List.filter_append log new

theorem trail_snoc {e : Σ op : FsOp, op.Reply} {calls : FsLog} (hlog : trail log = calls)
    (he : ¬ Housekeeping e.1) : trail (log ++ [e]) = calls ++ [e] := by
  rw [trail_append, hlog]
  simp [trail, he]

theorem trail_housekeeping (h : ∀ e ∈ new, Housekeeping e.1) : trail new = [] := by
  unfold trail
  rw [List.filter_eq_nil_iff]
  intro e he
  simp [h e he]

theorem Kept.trail {t : Disk × FsLog} (h : Kept file d log t) : trail t.2 = trail log := by
  obtain ⟨new, hlog, hnew, -⟩ := h
  rw [hlog, trail_append, trail_housekeeping hnew, List.append_nil]

theorem readFailed_trail : ReadFailed file (trail log) ↔ ReadFailed file log :=
  exists_congr fun _ => mem_trail id

theorem openFailed_trail : OpenFailed file (trail log) ↔ OpenFailed file log :=
  exists_congr fun _ => mem_trail id

theorem quarantined_trail : Quarantined s file (trail log) ↔ Quarantined s file log :=
  exists_congr fun _ => mem_trail id

/-- A replay does what is asked if and only if the calls so far are tolerated. -/
def Settled (s : CustomSpool) (exchange : Exchange) (file : Path) (d : Disk)
    (t : Disk × FsLog) : Prop :=
  Spared s exchange file d t.1 t.2 ↔ Tolerated s exchange file t.2

variable {t : Disk × FsLog}

/-- Only the calls that count decide, and whether the file was removed. -/
theorem settled_iff {calls : FsLog} (ht : trail t.2 = calls) :
    Settled s exchange file d t ↔
      ((Quarantined s file calls → Opened file calls ∧
          ∃ code, exchange = .status code ∧ classifyHTTPStatus code = .permanent) ∧
        (ReadFailed file calls ∨ OpenFailed file calls →
          ready s t.1.tree file = ready s d.tree file) ↔
      (ReadFailed file calls → ¬ Quarantined s file calls) ∧
        (exchange = .badRequest → ¬ Quarantined s file calls) ∧
        (OpenFailed file calls → ¬ Removed file t.2)) := by
  have hopened : Opened file calls ↔ Opened file t.2 := ht ▸ mem_trail id
  rw [Settled, spared_iff, tolerated_iff, hopened, ← ht, readFailed_trail, openFailed_trail,
    quarantined_trail]

theorem settled_quiet {calls : FsLog} (ht : trail t.2 = calls) (hread : ¬ ReadFailed file calls)
    (hopen : ¬ OpenFailed file calls) (hmoved : ¬ Quarantined s file calls) :
    Settled s exchange file d t := by
  simp [settled_iff ht, hread, hopen, hmoved]

theorem settled_unread {calls : FsLog} (ht : trail t.2 = calls) (hopen : ¬ OpenFailed file calls)
    (hmoved : ¬ Quarantined s file calls) (hready : ready s t.1.tree file = ready s d.tree file) :
    Settled s exchange file d t := by
  simp [settled_iff ht, hopen, hmoved, hready]

theorem settled_calm
    (h : ∀ call ∈ trail t.2, call.2.isOk = true ∧ ∀ q, call.1 ≠ .rename file q) :
    Settled s exchange file d t := by
  refine settled_quiet rfl ?_ ?_ ?_
  · rintro ⟨e, he⟩
    cases (h _ he).1
  · rintro ⟨e, he⟩
    cases (h _ he).1
  · rintro ⟨reason, he⟩
    exact (h _ he).2 _ rfl

theorem settled_unopened (hready : ready s d.tree file = some content) {calls : FsLog}
    (ht : trail t.2 = calls) (hread : ¬ ReadFailed file calls) (hopen : OpenFailed file calls)
    (hmoved : ¬ Quarantined s file calls) (hlog : ¬ Removed file log)
    (hkept : Kept file d log t) : Settled s exchange file d t := by
  obtain ⟨new, hnew, -, hfile⟩ := hkept
  have hremoved : Removed file t.2 ↔ Removed file new := by
    rw [hnew, Removed, List.mem_append]
    exact or_iff_right hlog
  have hsame : ready s t.1.tree file = ready s d.tree file ↔ ¬ Removed file new := by
    rcases hfile with ⟨hget, hno⟩ | ⟨hget, hyes⟩
    · refine iff_of_true ?_ hno
      rw [ready, ready, Tree.content?, Tree.content?, hget]
    · have hgone : ready s t.1.tree file = none := by
        rw [ready, Tree.content?, hget]
        split <;> rfl
      simp [hgone, hready, hyes]
  simp [settled_iff ht, hread, hopen, hmoved, hsame, hremoved]

end

/-! ## The parts of a replay -/

section

variable {s : CustomSpool} {file : Path} {d d₁ : Disk} {log : FsLog} {exchange : Exchange}
  {R : Choice → FsOp → Disk × FsLog → Prop} {p : Pipeline} {times : RefreshTimes} {α : Type}

theorem settled_of_uses {prog : FsProg α} (hu : prog.Uses Housekeeping)
    (h : ∀ t : Disk × FsLog, trail t.2 = trail log → Settled s exchange file d t) :
    wp (logged fsStep) R prog (fun _ => Settled s exchange file d) (Settled s exchange file d)
      (d₁, log) := by
  have hkept : wp (logged fsStep) R prog (fun _ => Kept file d₁ log) (Kept file d₁ log) (d₁, log) :=
    kept_wp hu
  exact wp_mono (fun _ t ht => h t ht.trail) (fun t ht => h t ht.trail) hkept

theorem quarantine_logged {reason : Bytes} {k : Except SpoolError Path → FsProg α}
    {Q : α → Disk × FsLog → Prop} {C : Disk × FsLog → Prop} (hC : C (d, log))
    (hinvalid : ∀ q, wp (logged fsStep) R (k (.error q)) Q C (d, log))
    (herror : ∀ e, wp (logged fsStep) R (k (.error (.os e))) Q C
      (d, log ++ [⟨.rename file (destination s file reason), .error e⟩]))
    (hok : ∀ d', wp (logged fsStep) R
      (dropEmptyBatch s file >>= fun _ => k (.ok (destination s file reason))) Q C
      (d', log ++ [⟨.rename file (destination s file reason), .ok ()⟩])) :
    wp (logged fsStep) R (quarantine s file reason >>= k) Q C (d, log) := by
  unfold quarantine
  cases hvalid : validReadyPath s file with
  | error q => exact hinvalid q
  | ok path =>
    obtain ⟨rfl, -⟩ := validReadyPath_ok hvalid
    refine ⟨hC, fun c _ => ?_⟩
    rcases fsStep_rename c d path (destination s path reason) with
      ⟨e, he⟩ | ⟨_, _, _, _, _, _, he⟩
    · rw [logged_eq he]
      exact herror e
    · rw [logged_eq he]
      have hrest := wp_bind.mp (hok (d.renamed path (destination s path reason)))
      have hmoved : wp (logged fsStep) R ((dropEmptyBatch s path >>= fun _ =>
          .ret (.ok (destination s path reason))) >>= k) Q C
          (d.renamed path (destination s path reason),
            log ++ [⟨.rename path (destination s path reason), .ok ()⟩]) :=
        wp_bind.mpr (wp_bind.mpr hrest)
      exact hmoved

theorem replayCorrupt_settled (error : PayloadError) (hlog : trail log = [⟨.read file, .error e⟩]) :
    wp (logged fsStep) R (p.replayCorrupt times file error)
      (fun _ => Settled p.spool exchange file d) (Settled p.spool exchange file d) (d, log) := by
  have hunread : Settled p.spool exchange file d (d, log) :=
    settled_unread hlog (by simp [OpenFailed]) (by simp [Quarantined]) rfl
  refine quarantine_logged hunread (fun q => hunread) (fun e' => ?_) fun d' => ?_
  · exact settled_unread (trail_snoc hlog id) (by simp [OpenFailed])
      (not_quarantined_snoc (by simp [Quarantined])) rfl
  · refine settled_of_uses (uses_bind (dropEmptyBatch_uses file) fun _ => ?_) fun t ht => ?_
    · exact uses_bind (refreshSpoolMetrics_uses _ times) fun _ => trivial
    · rw [trail_snoc hlog id] at ht
      have hmoved : Quarantined p.spool file (trail t.2) :=
        ⟨ascii "corrupt-payload", by simp [ht]⟩
      have hread : ReadFailed file (trail t.2) := ⟨e, by simp [ht]⟩
      have hopened : ¬ Opened file (trail t.2) := by simp [Opened, ht]
      simp [settled_iff rfl, hmoved, hread, hopened]

/-- The payload was read and opened, and is where it was. -/
structure Sent (s : CustomSpool) (file : Path) (log : FsLog) : Prop where
  read : ¬ ReadFailed file log
  opened : Opened file log
  openWorked : ¬ OpenFailed file log
  stayed : ¬ Quarantined s file log

theorem Sent.settled (h : Sent s file (trail log)) {t : Disk × FsLog}
    (ht : trail t.2 = trail log) : Settled s exchange file d t :=
  settled_quiet ht h.read h.openWorked h.stayed

theorem Sent.moved (h : Sent s file (trail log)) {reason : Bytes}
    (hfinal : exchange = .badRequest ∨
      ∃ code, exchange = .status code ∧ classifyHTTPStatus code = .permanent)
    {t : Disk × FsLog}
    (ht : trail t.2 = trail log ++ [⟨.rename file (destination s file reason), .ok ()⟩]) :
    Settled s exchange file d t := by
  have hmoved : Quarantined s file (trail t.2) := ⟨reason, by simp [ht]⟩
  have hread : ¬ ReadFailed file (trail t.2) := by simpa [ReadFailed, ht] using h.read
  have hopen : ¬ OpenFailed file (trail t.2) := by simpa [OpenFailed, ht] using h.openWorked
  have hopened : Opened file (trail t.2) := ht ▸ List.mem_append_left _ h.opened
  rcases hfinal with rfl | ⟨code, rfl, hcode⟩
  · simp [settled_iff rfl, hmoved]
  · simp [settled_iff rfl, hmoved, hread, hopen, hopened, hcode]

theorem remove_uses (file : Path) : (CustomSpool.remove s file).Uses Housekeeping := by
  unfold CustomSpool.remove
  cases validReadyPath s file with
  | error e => trivial
  | ok path =>
    refine uses_ok (uses_lift trivial) (fun _ => trivial) fun _ => ?_
    exact uses_bind (dropEmptyBatch_uses path) fun _ => trivial

theorem replaySuccess_uses (status : Int) (sendErr : Option SendError) :
    (p.replaySent times file .success status sendErr).Uses Housekeeping :=
  uses_ok (remove_uses file) (fun _ => trivial) fun _ =>
    uses_bind (refreshSpoolMetrics_uses _ times) fun _ => trivial

theorem replayRetry_uses (status : Int) (sendErr : Option SendError) :
    (p.replaySent times file .retry status sendErr).Uses Housekeeping :=
  uses_bind (refreshSpoolMetrics_uses _ times) fun _ => trivial

theorem replaySent_settled (h : Sent p.spool file (trail log)) {disposition : SendDisposition}
    {status : Int} {sendErr : Option SendError}
    (hfinal : disposition = .permanent → exchange = .badRequest ∨
      ∃ code, exchange = .status code ∧ classifyHTTPStatus code = .permanent) :
    wp (logged fsStep) R (p.replaySent times file disposition status sendErr)
      (fun _ => Settled p.spool exchange file d) (Settled p.spool exchange file d) (d₁, log) := by
  cases disposition with
  | success => exact settled_of_uses (replaySuccess_uses status sendErr) fun t ht => h.settled ht
  | retry => exact settled_of_uses (replayRetry_uses status sendErr) fun t ht => h.settled ht
  | permanent =>
    refine quarantine_logged (h.settled rfl) (fun q => h.settled rfl) (fun e => ?_) fun d' => ?_
    · refine settled_quiet (trail_snoc rfl id) ?_ ?_ (not_quarantined_snoc h.stayed)
      · simpa [ReadFailed] using h.read
      · simpa [OpenFailed] using h.openWorked
    · refine settled_of_uses ?_ fun t ht => h.moved (hfinal rfl) (ht.trans (trail_snoc rfl id))
      refine uses_bind (dropEmptyBatch_uses file) fun _ => ?_
      exact uses_bind (refreshSpoolMetrics_uses _ times) fun _ => trivial

theorem permanent_disposition (h : exchange.disposition.1 = .permanent) :
    exchange = .badRequest ∨
      ∃ code, exchange = .status code ∧ classifyHTTPStatus code = .permanent := by
  cases exchange with
  | badRequest => exact .inl rfl
  | failed => cases h
  | status code =>
    refine .inr ⟨code, rfl, ?_⟩
    unfold Exchange.disposition at h
    cases hcode : classifyHTTPStatus code <;> simp [hcode] at h ⊢

theorem send_settled (hready : ready p.spool d.tree file = some content)
    (hlog : trail log = [⟨.read file, .ok content⟩]) (hremoved : ¬ Removed file log) :
    wp (logged fsStep) R
      (sendFile exchange file >>= fun sent => p.replaySent times file sent.1 sent.2.1 sent.2.2)
      (fun _ => Settled p.spool exchange file d) (Settled p.spool exchange file d) (d, log) := by
  have hquiet : Settled p.spool exchange file d (d, log) :=
    settled_calm (by simp [hlog, Except.isOk, Except.toBool])
  refine ⟨hquiet, fun c _ => ?_⟩
  have hdisk : (fsStep c (.openFile file) d).2 = d := fsStep_handle c d (.inl ⟨file, rfl⟩)
  cases hopen : (fsStep c (.openFile file) d).1 with
  | error e =>
    rw [logged_eq (Prod.ext hopen hdisk)]
    have hsettled : ∀ t : Disk × FsLog, Kept file d (log ++ [⟨.openFile file, .error e⟩]) t →
        Settled p.spool exchange file d t := by
      intro t ht
      refine settled_unopened hready (ht.trail.trans (trail_snoc hlog id)) ?_ ?_ ?_ ?_ ht
      · simp [ReadFailed]
      · simp [OpenFailed]
      · simp [Quarantined]
      · simpa [Removed] using hremoved
    exact wp_mono (fun _ => hsettled) hsettled (kept_wp (replayRetry_uses 0 (some (.os e))))
  | ok u =>
    rw [logged_eq (Prod.ext hopen hdisk)]
    obtain rfl : u = () := rfl
    have hopened := trail_snoc (e := ⟨.openFile file, .ok ()⟩) hlog id
    refine ⟨settled_calm ?_, fun c' _ => ?_⟩
    · simp [hopened, Except.isOk, Except.toBool]
    refine replaySent_settled ?_ permanent_disposition
    show Sent p.spool file (trail (log ++ [⟨.openFile file, .ok ()⟩] ++
      [⟨.close file, (fsStep c' (.close file) d).1⟩]))
    rw [trail_snoc hopened id]
    refine ⟨?_, ?_, ?_, ?_⟩
    · simp [ReadFailed]
    · simp [Opened]
    · simp [OpenFailed]
    · simp [Quarantined]

/-! ## Other payloads -/

/-- The call neither reads, opens nor moves the file. -/
def Elsewhere (file : Path) (op : FsOp) : Prop :=
  op ≠ .read file ∧ op ≠ .openFile file ∧ ∀ q, op ≠ .rename file q

theorem elsewhere_of_housekeeping (h : Housekeeping op) : Elsewhere file op := by
  refine ⟨?_, ?_, fun q => ?_⟩ <;> rintro rfl <;> exact h

theorem settled_elsewhere {t : Disk × FsLog} (h : ∀ e ∈ t.2, Elsewhere file e.1) :
    Settled s exchange file d t := by
  refine settled_quiet rfl ?_ ?_ ?_
  · rw [readFailed_trail]
    exact fun ⟨e, he⟩ => (h _ he).1 rfl
  · rw [openFailed_trail]
    exact fun ⟨e, he⟩ => (h _ he).2.1 rfl
  · rw [quarantined_trail]
    exact fun ⟨reason, he⟩ => (h _ he).2.2 _ rfl

theorem settled_of_elsewhere {prog : FsProg α} (hu : prog.Uses (Elsewhere file))
    (hlog : ∀ e ∈ log, Elsewhere file e.1) :
    wp (logged fsStep) R prog (fun _ => Settled s exchange file d) (Settled s exchange file d)
      (d₁, log) := by
  have hcalls : wp (logged fsStep) R prog (fun _ t => ∀ e ∈ t.2, Elsewhere file e.1)
      (fun t => ∀ e ∈ t.2, Elsewhere file e.1) (d₁, log) := by
    refine wp_of_uses (fun c op t hop _ ht e he => ?_) hu hlog
    rcases List.mem_append.mp he with he | he
    · exact ht e he
    · rw [List.mem_singleton.mp he]
      exact hop
  exact wp_mono (fun _ _ => settled_elsewhere) (fun _ => settled_elsewhere) hcalls

theorem quarantine_uses (hne : other ≠ file) (reason : Bytes) :
    (quarantine s other reason).Uses (Elsewhere file) := by
  have hrename : ∀ q, Elsewhere file (.rename other q) :=
    fun q => ⟨nofun, nofun, fun q' h => hne (FsOp.rename.inj h).1⟩
  unfold quarantine
  cases hvalid : validReadyPath s other with
  | error q => trivial
  | ok path =>
    obtain ⟨rfl, -⟩ := validReadyPath_ok hvalid
    refine uses_ok (uses_lift (hrename _)) (fun _ => trivial) fun _ => ?_
    exact uses_bind ((dropEmptyBatch_uses path).mono fun _ => elsewhere_of_housekeeping) fun _ =>
      trivial

theorem replaySent_elsewhere (hne : other ≠ file) (disposition : SendDisposition) (status : Int)
    (sendErr : Option SendError) :
    (p.replaySent times other disposition status sendErr).Uses (Elsewhere file) := by
  cases disposition with
  | success => exact (replaySuccess_uses status sendErr).mono fun _ => elsewhere_of_housekeeping
  | retry => exact (replayRetry_uses status sendErr).mono fun _ => elsewhere_of_housekeeping
  | permanent =>
    refine uses_ok (quarantine_uses hne _) (fun _ => trivial) fun dest => ?_
    refine Uses.mono (fun _ => elsewhere_of_housekeeping) ?_
    exact uses_bind (refreshSpoolMetrics_uses _ times) fun _ => trivial

theorem replayFile_elsewhere (codec : Codec) (hne : other ≠ file) :
    (p.replayFile codec exchange times other).Uses (Elsewhere file) := by
  have hread : Elsewhere file (.read other) :=
    ⟨fun h => hne (FsOp.read.inj h), nofun, nofun⟩
  have hopen : Elsewhere file (.openFile other) :=
    ⟨nofun, fun h => hne (FsOp.openFile.inj h), nofun⟩
  have hclose : Elsewhere file (.close other) := ⟨nofun, nofun, nofun⟩
  have hcorrupt : ∀ e, (p.replayCorrupt times other e).Uses (Elsewhere file) := by
    intro e
    refine uses_ok (quarantine_uses hne _) (fun _ => trivial) fun dest => ?_
    refine Uses.mono (fun _ => elsewhere_of_housekeeping) ?_
    exact uses_bind (refreshSpoolMetrics_uses _ times) fun _ => trivial
  have hcount : (customPayloadSampleCount codec other).Uses (Elsewhere file) := by
    refine uses_ok (uses_lift hread) (fun _ => trivial) fun x => ?_
    simp only
    split
    · trivial
    · split <;> trivial
  refine uses_ok hcount hcorrupt fun n => ?_
  have hsend : (sendFile exchange other).Uses (Elsewhere file) :=
    uses_ok (uses_lift hopen) (fun _ => trivial) fun _ => uses_step hclose fun _ => trivial
  exact uses_bind hsend fun sent => replaySent_elsewhere hne _ _ _

/-! ## A whole replay -/

theorem replayFile_settled (codec : Codec) {series : List TimeSeries}
    (hready : ready p.spool d.tree file = some content)
    (hdecode : codec.unmarshal content = some series)
    (hsamples : (series.map (fun s => s.samples.length)).sum ≠ 0) (hlog : trail log = [])
    (hremoved : ¬ Removed file log) :
    wp (logged fsStep) R (p.replayFile codec exchange times file)
      (fun _ => Settled p.spool exchange file d) (Settled p.spool exchange file d) (d, log) := by
  have hquiet : Settled p.spool exchange file d (d, log) := settled_calm (by simp [hlog])
  refine ⟨hquiet, fun c _ => ?_⟩
  rcases fsStep_read c d file with ⟨e, he⟩ | ⟨x, m, hfile, he⟩
  · rw [logged_eq he]
    exact replayCorrupt_settled (.os e) (trail_snoc hlog id)
  · obtain rfl : x = content := by
      have hcontent := (ready_some hready).2
      obtain ⟨m', hm'⟩ := hcontent
      rw [hfile] at hm'
      cases hm'
      rfl
    rw [logged_eq he]
    simp only [Prog.bind, hdecode, if_neg hsamples]
    exact send_settled hready (trail_snoc hlog id) (by simpa [Removed] using hremoved)

theorem replayOnce_settled (codec : Codec) {series : List TimeSeries}
    (hready : ready p.spool d.tree file = some content)
    (hdecode : codec.unmarshal content = some series)
    (hsamples : (series.map (fun s => s.samples.length)).sum ≠ 0) :
    wp (logged fsStep) (fun _ _ _ => True) (p.replayOnce codec exchange times)
      (fun _ => Settled p.spool exchange file d) (Settled p.spool exchange file d) (d, []) := by
  have hspec : wp fsStep (fun _ _ _ => True) (oldest p.spool) _ _ d := oldest_wp
  have hlisting : (oldest p.spool).Uses (fun op => ∃ dir, op = .readDir dir) :=
    oldest_uses fun dir => ⟨dir, rfl⟩
  have hlists : ∀ new : FsLog, (∀ e ∈ new, ∃ dir, e.1 = .readDir dir) →
      trail new = [] ∧ ¬ Removed file new := by
    intro new hnew
    refine ⟨trail_housekeeping fun e he => ?_, fun hmem => ?_⟩
    · obtain ⟨dir, hdir⟩ := hnew e he
      rw [hdir]
      trivial
    · obtain ⟨dir, hdir⟩ := hnew _ hmem
      cases hdir
  have hquiet : ∀ t : Disk × FsLog, trail t.2 = [] → Settled p.spool exchange file d t :=
    fun t ht => settled_calm (by simp [ht])
  refine wp_seq (wp_logged [] hspec hlisting) ?_ ?_
  · rintro t ⟨-, new, hlog, hnew⟩
    exact hquiet t (hlog ▸ (hlists new hnew).1)
  · rintro r ⟨d₁, log⟩ ⟨⟨rfl, -⟩, new, hlog, hnew⟩
    obtain rfl : log = new := hlog
    obtain ⟨htrail, hremoved⟩ := hlists log hnew
    rcases r with e | _ | other
    · exact hquiet _ htrail
    · exact hquiet _ htrail
    by_cases hfile : other = file
    · subst hfile
      exact replayFile_settled codec hready hdecode hsamples htrail hremoved
    · refine settled_of_elsewhere (replayFile_elsewhere codec hfile) fun e he => ?_
      obtain ⟨dir, hdir⟩ := hnew e he
      rw [hdir]
      exact elsewhere_of_housekeeping trivial

end

/-- **A replay spares a payload that decodes if and only if the calls that failed are tolerated**,
wherever the replay is stopped. -/
theorem replayOnce_spared_iff (p : Pipeline) (codec : Codec) (exchange : Exchange)
    (times : RefreshTimes) {d : Disk} {file : Path} {content : Bytes} {series : List TimeSeries}
    (hready : ready p.spool d.tree file = some content)
    (hdecode : codec.unmarshal content = some series)
    (hsamples : (series.map (fun s => s.samples.length)).sum ≠ 0) (cs : List Choice) :
    Spared p.spool exchange file d
        (exec fsStep (p.replayOnce codec exchange times) cs d).state
        (history fsStep (p.replayOnce codec exchange times) cs d) ↔
      Tolerated p.spool exchange file
        (history fsStep (p.replayOnce codec exchange times) cs d) := by
  have hwp : wp (logged fsStep) (fun _ _ _ => True) (p.replayOnce codec exchange times)
      (fun _ => Settled p.spool exchange file d) (Settled p.spool exchange file d) (d, []) :=
    replayOnce_settled codec hready hdecode hsamples
  have hsettled := wp_exec_state hwp (along_true _ cs _) (fun _ _ h => h) fun _ h => h
  rw [state_logged, List.nil_append] at hsettled
  exact hsettled

/-! ## A read that fails -/

def smallSpooled : Disk :=
  (exec fsStep (putBatch smallSpool [smallPayload 7] 5 [[49]]) (calm 20) smallOpened).state

theorem tolerated_of_ok {s : CustomSpool} {exchange : Exchange} {file : Path} {log : FsLog}
    (h : log.all (fun call => call.2.isOk) = true) (hexchange : exchange ≠ .badRequest) :
    Tolerated s exchange file log := by
  rw [List.all_eq_true] at h
  refine ⟨?_, fun hbad => absurd hbad hexchange, ?_⟩
  · rintro ⟨e, he⟩
    cases h _ he
  · rintro ⟨e, he⟩
    cases h _ he

/-- The collector takes the payload. -/
theorem replayOnce_spared_taken :
    Spared smallSpool (.status 204) (smallFile 5) smallSpooled
      (exec fsStep (smallPipeline.replayOnce smallCodec (.status 204) ⟨0, 0, 0⟩) (calm 40)
        smallSpooled).state
      (history fsStep (smallPipeline.replayOnce smallCodec (.status 204) ⟨0, 0, 0⟩) (calm 40)
        smallSpooled) := by
  have hready : ready smallSpool smallSpooled.tree (smallFile 5) = some (smallPayload 7) := by
    decide +kernel
  have hdecode : smallCodec.unmarshal (smallPayload 7) = some (smallSeries 7) := by decide +kernel
  refine (replayOnce_spared_iff smallPipeline smallCodec (.status 204) ⟨0, 0, 0⟩ hready hdecode
    (by decide) (calm 40)).mpr (tolerated_of_ok ?_ (by decide))
  decide +kernel

/-- **A read that fails once quarantines a payload that the collector would have taken.** -/
theorem unread_payload_quarantined :
    ready smallSpool smallSpooled.tree (smallFile 5) = some (smallPayload 7) ∧
    smallCodec.unmarshal (smallPayload 7) = some (smallSeries 7) ∧
    ready smallSpool (exec fsStep (smallPipeline.replayOnce smallCodec (.status 204) ⟨0, 0, 0⟩)
      (calm 2 ++ [Choice.bad] ++ calm 40) smallSpooled).state.tree (smallFile 5) = none ∧
    ¬ Spared smallSpool (.status 204) (smallFile 5) smallSpooled
      (exec fsStep (smallPipeline.replayOnce smallCodec (.status 204) ⟨0, 0, 0⟩)
        (calm 2 ++ [Choice.bad] ++ calm 40) smallSpooled).state
      (history fsStep (smallPipeline.replayOnce smallCodec (.status 204) ⟨0, 0, 0⟩)
        (calm 2 ++ [Choice.bad] ++ calm 40) smallSpooled) := by
  have hgone : ready smallSpool
      (exec fsStep (smallPipeline.replayOnce smallCodec (.status 204) ⟨0, 0, 0⟩)
        (calm 2 ++ [Choice.bad] ++ calm 40) smallSpooled).state.tree (smallFile 5) = none := by
    decide +kernel
  have hread : (history fsStep (smallPipeline.replayOnce smallCodec (.status 204) ⟨0, 0, 0⟩)
      (calm 2 ++ [Choice.bad] ++ calm 40) smallSpooled)[2]? =
      some ⟨.read (smallFile 5), .error .io⟩ := by
    rfl
  refine ⟨by decide +kernel, by decide +kernel, hgone, fun h => ?_⟩
  have hready := h.unread (.inl ⟨.io, List.mem_of_getElem? hread⟩)
  rw [hgone] at hready
  exact absurd hready (by decide +kernel)

end Dogstatsd
