import NodeAgent.Dogstatsd.Spool.Operations

/-!
# What the quarantine retains

`Quarantine` names its destination after the chunk and the reason only, and chunk names start
again at zero in every batch. `os.Rename` replaces a file, so a payload that is quarantined may
replace an earlier one.

* `evidence_kept_iff` — over a run, nothing is lost exactly when every destination was free
-/

namespace Dogstatsd.CustomSpool

open Infra Prog

variable {s : CustomSpool} {d d' : Disk} {file : Path} {reason : Bytes}

/-- The call took exactly `file` out, added a new entry with its content to the quarantine, and kept
every entry that was there. -/
structure KeepsEvidence (s : CustomSpool) (file : Path) (d d' : Disk) : Prop where
  leaves : ∀ p, ready s d'.tree p = if p = file then none else ready s d.tree p
  added : ∃ m, d.tree.get? (s.quarantineDir ++ [m]) = none ∧
    d'.tree.content? (s.quarantineDir ++ [m]) = ready s d.tree file
  kept : ∀ l n, l ≠ [] → d.tree.get? (s.quarantineDir ++ l) = some n →
    d'.tree.get? (s.quarantineDir ++ l) = some n

/-! ## One call -/

theorem quarantineDir_append (l : Path) :
    s.quarantineDir ++ l = s.dir ++ ascii "quarantine" :: l := by
  rw [quarantineDir, List.append_assoc]
  rfl

theorem quarantine_ne_batch {b : Name} (hb : isBatchName b = true) (l : Path) :
    s.quarantineDir ++ l ≠ s.dir ++ [b] := by
  intro he
  rw [quarantineDir_append, List.append_cancel_left_eq, List.cons.injEq] at he
  exact isQueueName_ne_quarantine (isQueueName_of_batch hb) he.1

theorem ready_ne_quarantine {file : Path} (hfile : isReadyPath s file = true) (l : Path) :
    ¬ file <+: s.quarantineDir ++ l := by
  obtain ⟨n, k, rfl, hn⟩ := isReadyPath_under hfile
  rw [quarantineDir_append, List.prefix_append_right_inj, List.cons_prefix_cons]
  exact fun hc => isQueueName_ne_quarantine hn hc.1.symm

theorem Shelved.get?_quarantine (h : Shelved s file reason d d') (m : Name) (l : Path) :
    d'.tree.get? (s.quarantineDir ++ m :: l) =
      if m = destinationName file reason then d.tree.get? (file ++ l)
      else d.tree.get? (s.quarantineDir ++ m :: l) := by
  obtain ⟨hready, hren, hsweep⟩ := h
  rw [hsweep.get?_eq hready fun b hb => quarantine_ne_batch hb (m :: l), Disk.renamed_tree,
    Tree.get?_move hren.apart.1 hren.apart.2, if_neg (ready_ne_quarantine hready (m :: l))]
  by_cases hm : m = destinationName file reason
  · subst hm
    have he : s.quarantineDir ++ destinationName file reason :: l =
        destination s file reason ++ l := by
      rw [destination, List.append_assoc]
      rfl
    rw [if_pos rfl, he, if_pos (List.prefix_append _ _), List.drop_left]
  · rw [if_neg hm, if_neg]
    rw [destination, List.prefix_append_right_inj, List.cons_prefix_cons]
    exact fun hc => hm hc.1.symm

theorem Shelved.leaves (h : Shelved s file reason d d') (hroot : d.tree.Rooted) (p : Path) :
    ready s d'.tree p = if p = file then none else ready s d.tree p := by
  obtain ⟨hready, hren, hsweep⟩ := h
  obtain ⟨n, l, hp, _⟩ := isReadyPath_under hready
  have hdrop := move_dropped hroot hren hp
  rw [hsweep.ready_eq hdrop.rooted hready]
  exact hdrop.ready_eq hready

/-- **A quarantine call keeps the evidence exactly when its destination is free.** -/
theorem keepsEvidence_iff (h : Shelved s file reason d d') (hroot : d.tree.Rooted)
    (hfile : (ready s d.tree file).isSome = true) :
    KeepsEvidence s file d d' ↔ d.tree.get? (destination s file reason) = none := by
  obtain ⟨c, hc⟩ := Option.isSome_iff_exists.mp hfile
  constructor
  · intro hk
    obtain ⟨m, hnew, hcontent⟩ := hk.added
    rw [hc] at hcontent
    obtain ⟨x, hx⟩ := Tree.content?_eq_some.mp hcontent
    rw [h.get?_quarantine m []] at hx
    split at hx
    · next hm => rw [destination, ← hm, hnew]
    · rw [hnew] at hx; cases hx
  · intro hfree
    refine ⟨h.leaves hroot, ⟨destinationName file reason, hfree, ?_⟩, ?_⟩
    · rw [ready, if_pos h.1]
      refine Tree.content?_congr ?_
      rw [h.get?_quarantine, if_pos rfl, List.append_nil]
    · intro l n hl hn
      obtain ⟨m, l', rfl⟩ := List.exists_cons_of_ne_nil hl
      rw [h.get?_quarantine, if_neg, hn]
      rintro rfl
      -- nothing lies under a free destination
      cases l' with
      | nil => rw [destination, hn] at hfree; cases hfree
      | cons y ys =>
        have := hroot.get?_none (p := destination s file reason) (by simp [destination])
          (by simp [hfree]) (y :: ys) (by simp)
        rw [destination, List.append_assoc, List.singleton_append, hn] at this
        cases this

/-! ## Counting over a run -/

def quarantineCount (s : CustomSpool) (t : Tree) : Nat := (t.children s.quarantineDir).length

/-- The call is a quarantine call that returned without error. -/
def SpoolCall.quarantined (s : CustomSpool) (call : SpoolCall) : Bool :=
  match call.op with
  | .quarantine _ _ => decide ((call.outcome s).val = some none)
  | _ => false

/-- It is, and there was something at its destination. -/
def SpoolCall.replaced (s : CustomSpool) (call : SpoolCall) : Bool :=
  match call.op with
  | .quarantine file reason => decide ((call.outcome s).val = some none) &&
      (call.before.tree.get? (destination s file reason)).isSome
  | _ => false

theorem quarantineCount_congr {t t' : Tree}
    (h : ∀ m, t'.get? (s.quarantineDir ++ [m]) = t.get? (s.quarantineDir ++ [m])) :
    quarantineCount s t' = quarantineCount s t :=
  Tree.length_children_congr h

theorem quarantineCount_shelved (h : Shelved s file reason d d') :
    quarantineCount s d'.tree +
        (if (d.tree.get? (destination s file reason)).isSome then 1 else 0) =
      quarantineCount s d.tree + 1 := by
  obtain ⟨n, hn, hfile⟩ := h.2.1.source
  have hdest : d'.tree.get? (s.quarantineDir ++ [destinationName file reason]) = some n := by
    rw [h.get?_quarantine, if_pos rfl, List.append_nil, hn]
  have hother : ∀ k, k ≠ destinationName file reason →
      d'.tree.get? (s.quarantineDir ++ [k]) = d.tree.get? (s.quarantineDir ++ [k]) := by
    intro k hk
    rw [h.get?_quarantine, if_neg hk]
  cases hold : d.tree.get? (destination s file reason) with
  | none => simpa [quarantineCount] using Tree.length_children_add hold hdest hother
  | some m =>
    have hsame : quarantineCount s d'.tree = quarantineCount s d.tree :=
      Tree.length_children_replace hold hdest hother
    simp [hsame]

theorem quarantine_untouched (op : SpoolOp) (hroot : d.tree.Rooted)
    (hq : ∀ f r, op ≠ .quarantine f r) (hm : ∀ now, op ≠ .maintain now) :
    wp fsStep (fun _ _ _ => True) (op.prog s) (fun _ d' => ∀ l,
      d'.tree.get? (s.quarantineDir ++ l) = d.tree.get? (s.quarantineDir ++ l))
      (fun _ => True) d := by
  have hout : ∀ n l, ascii "quarantine" ≠ n → ¬ s.dir ++ [n] <+: s.quarantineDir ++ l := by
    intro n l hn
    rw [quarantineDir_append]
    exact not_prefix_of_ne (Ne.symm hn) l
  cases op with
  | putBatch payloads now rands =>
    refine wp_seq (putBatch_wp hroot payloads now rands) (fun _ _ => trivial) ?_
    intro r d' hr l
    cases r with
    | error e =>
      obtain ⟨temp, htemp, hsafe⟩ := hr
      exact hsafe.outside _ (hout temp l (isTempName_ne_quarantine htemp))
    | ok files =>
      obtain ⟨temp, hc, _⟩ := hr
      exact hc.others _ (hout temp l (isTempName_ne_quarantine hc.isTemp))
        (hout _ l (isQueueName_ne_quarantine (isQueueName_of_batch hc.isBatch)))
  | oldest =>
    refine wp_seq oldest_wp (fun _ _ => trivial) ?_
    rintro r d' ⟨rfl, _⟩ l
    rfl
  | stats now =>
    refine wp_seq (statsLocked_wp now) (fun _ _ => trivial) ?_
    rintro r d' rfl l
    rfl
  | remove file =>
    refine wp_seq (remove_wp file) (fun _ _ => trivial) ?_
    intro r d' hr l
    cases r with
    | error e => obtain rfl : d' = d := hr; rfl
    | ok u =>
      obtain ⟨hready, hrem, hsweep⟩ := hr
      rw [hsweep.get?_eq hready, Disk.removed_tree, Tree.get?_erase, if_neg]
      · obtain ⟨n, k, rfl, hn⟩ := isReadyPath_under hready
        rw [quarantineDir_append, List.append_cancel_left_eq, List.cons.injEq]
        exact fun he => isQueueName_ne_quarantine hn he.1
      · intro b hb he
        have hne := isQueueName_ne_quarantine (isQueueName_of_batch hb)
        exact hout b l hne (he ▸ List.prefix_refl _)
  | quarantine f r => exact absurd rfl (hq f r)
  | maintain now => exact absurd rfl (hm now)

theorem shelved_of_call {cs : List Choice}
    (hval : (exec fsStep ((SpoolOp.quarantine file reason).prog s) cs d).val = some none) :
    Shelved s file reason d (exec fsStep ((SpoolOp.quarantine file reason).prog s) cs d).state := by
  have hspec : wp fsStep (fun _ _ _ => True) ((SpoolOp.quarantine file reason).prog s)
      (fun err d' => err = none → Shelved s file reason d d') (fun _ => True) d := by
    refine wp_seq (quarantine_wp file reason) (fun _ _ => trivial) ?_
    intro r d' hr
    cases r with
    | error e => exact fun he => by cases he
    | ok dest => exact fun _ => hr.2
  exact wp_exec_some hspec (along_true _ _ _) hval rfl

theorem unchanged_of_call {cs : List Choice} {e : SpoolError}
    (hval : (exec fsStep ((SpoolOp.quarantine file reason).prog s) cs d).val = some (some e)) :
    (exec fsStep ((SpoolOp.quarantine file reason).prog s) cs d).state = d := by
  have hspec : wp fsStep (fun _ _ _ => True) ((SpoolOp.quarantine file reason).prog s)
      (fun err d' => err = some e → d' = d) (fun _ => True) d := by
    refine wp_seq (quarantine_wp file reason) (fun _ _ => trivial) ?_
    intro r d' hr
    cases r with
    | error e => exact fun _ => hr
    | ok dest => exact fun he => by cases he
  exact wp_exec_some hspec (along_true _ _ _) hval rfl

theorem quarantineCount_call (call : SpoolCall) (hm : ∀ now, call.op ≠ .maintain now)
    (hroot : call.before.tree.Rooted) {err : Option SpoolError}
    (hval : (call.outcome s).val = some err) :
    quarantineCount s (call.outcome s).state.tree + (if call.replaced s then 1 else 0) =
      quarantineCount s call.before.tree + (if call.quarantined s then 1 else 0) := by
  obtain ⟨op, cs, d⟩ := call
  by_cases hq : ∃ f r, op = .quarantine f r
  · obtain ⟨file, reason, rfl⟩ := hq
    cases err with
    | none =>
      have hcount := quarantineCount_shelved (shelved_of_call hval)
      have h1 : SpoolCall.replaced s ⟨.quarantine file reason, cs, d⟩ =
          (d.tree.get? (destination s file reason)).isSome := by
        simp [SpoolCall.replaced, hval]
      have h2 : SpoolCall.quarantined s ⟨.quarantine file reason, cs, d⟩ = true := by
        simp [SpoolCall.quarantined, hval]
      rw [h1, h2]
      exact hcount
    | some e =>
      have hsame : (SpoolCall.outcome s ⟨.quarantine file reason, cs, d⟩).state = d :=
        unchanged_of_call hval
      simp [SpoolCall.replaced, SpoolCall.quarantined, hval, hsame]
  · have hq' : ∀ f r, op ≠ .quarantine f r := fun f r he => hq ⟨f, r, he⟩
    have hsame := wp_exec_some (quarantine_untouched op hroot hq' hm) (along_true _ _ _) hval
    have hcount : quarantineCount s (SpoolCall.outcome s ⟨op, cs, d⟩).state.tree =
        quarantineCount s d.tree := quarantineCount_congr fun m => hsame [m]
    have h1 : SpoolCall.replaced s ⟨op, cs, d⟩ = false := by
      cases op <;> first | rfl | exact absurd rfl (hq' _ _)
    have h2 : SpoolCall.quarantined s ⟨op, cs, d⟩ = false := by
      cases op <;> first | rfl | exact absurd rfl (hq' _ _)
    rw [hcount, h1, h2]

/-- **The number of entries after a run** is short by the entries that were replaced. -/
theorem quarantine_count {calls : List SpoolCall} (hroot : d.tree.Rooted)
    (hrun : Runs s d calls d') (hm : ∀ call ∈ calls, ∀ now, call.op ≠ .maintain now) :
    quarantineCount s d'.tree + calls.countP (SpoolCall.replaced s) =
      quarantineCount s d.tree + calls.countP (SpoolCall.quarantined s) := by
  induction hrun with
  | start => rfl
  | step op cs err earlier hval ih =>
    have hcall := quarantineCount_call ⟨op, cs, _⟩ (hm _ List.mem_cons_self)
      (earlier.rooted hroot) hval
    have hrest := ih fun call hc => hm call (List.mem_cons_of_mem _ hc)
    simp only [SpoolCall.outcome] at hcall
    rw [List.countP_cons, List.countP_cons]
    omega

/-! ## Over a run -/

/-- If the call quarantined a ready payload, it kept the evidence. -/
def SpoolCall.Keeps (s : CustomSpool) (call : SpoolCall) : Prop :=
  ∀ file reason, call.op = .quarantine file reason → (call.outcome s).val = some none →
    (ready s call.before.tree file).isSome = true →
    KeepsEvidence s file call.before (call.outcome s).state

/-- If the call quarantined something, there was nothing at its destination. -/
def SpoolCall.Free (s : CustomSpool) (call : SpoolCall) : Prop :=
  ∀ file reason, call.op = .quarantine file reason → (call.outcome s).val = some none →
    call.before.tree.get? (destination s file reason) = none

theorem free_iff_not_replaced {call : SpoolCall} : call.Free s ↔ ¬ call.replaced s = true := by
  obtain ⟨op, cs, d⟩ := call
  unfold SpoolCall.Free SpoolCall.replaced
  cases op with
  | quarantine f r =>
    simp only [SpoolOp.quarantine.injEq, and_imp, Bool.and_eq_true, decide_eq_true_eq, not_and,
      Bool.not_eq_true, Option.isSome_eq_false_iff, Option.isNone_iff_eq_none]
    constructor
    · exact fun h => h f r rfl rfl
    · rintro h _ _ rfl rfl
      exact h
  | putBatch | oldest | remove | stats | maintain => simp

theorem Runs.before_rooted {calls : List SpoolCall} (hrun : Runs s d calls d')
    (hroot : d.tree.Rooted) : ∀ call ∈ calls, call.before.tree.Rooted := by
  induction hrun with
  | start => simp
  | step op cs err earlier hval ih =>
    intro call hcall
    rcases List.mem_cons.mp hcall with rfl | hcall
    · exact earlier.rooted hroot
    · exact ih call hcall

/-- **The quarantine keeps its evidence over a run without maintenance exactly when every call
found its destination free**: every payload that was quarantined kept what was there, and the
entries are as many more as there were calls that succeeded. -/
theorem evidence_kept_iff {calls : List SpoolCall} (hroot : d.tree.Rooted)
    (hrun : Runs s d calls d') (hm : ∀ call ∈ calls, ∀ now, call.op ≠ .maintain now) :
    (∀ call ∈ calls, call.Keeps s) ∧
      quarantineCount s d'.tree =
        quarantineCount s d.tree + calls.countP (SpoolCall.quarantined s) ↔
    ∀ call ∈ calls, call.Free s := by
  have hcount := quarantine_count hroot hrun hm
  constructor
  · rintro ⟨_, heq⟩ call hcall
    have hzero : calls.countP (SpoolCall.replaced s) = 0 := by omega
    exact free_iff_not_replaced.mpr (List.countP_eq_zero.mp hzero call hcall)
  · intro hfree
    have hzero : calls.countP (SpoolCall.replaced s) = 0 :=
      List.countP_eq_zero.mpr fun call hcall => free_iff_not_replaced.mp (hfree call hcall)
    refine ⟨?_, by omega⟩
    rintro ⟨op, cs, d1⟩ hcall file reason rfl hval hfile
    have hd1 := hrun.before_rooted hroot _ hcall
    exact (keepsEvidence_iff (shelved_of_call hval) hd1 hfile).mpr
      (hfree _ hcall file reason rfl hval)

/-! ### Two batches -/

def twoBatches : Disk :=
  (exec fsStep ((SpoolOp.putBatch [[2]] 6 [[49]]).prog smallSpool) (calm 20) oneBatch).state

/-- The payload of the first batch is quarantined. -/
def firstOut : Disk :=
  (exec fsStep ((SpoolOp.quarantine (smallFile 5) (ascii "corrupt")).prog smallSpool) (calm 3)
    twoBatches).state

/-- Then that of the second one is, for this reason. -/
def bothOut (reason : Bytes) : Disk :=
  (exec fsStep ((SpoolOp.quarantine (smallFile 6) reason).prog smallSpool) (calm 3) firstOut).state

def twoCalls (reason : Bytes) : List SpoolCall :=
  [⟨.quarantine (smallFile 6) reason, calm 3, firstOut⟩,
    ⟨.quarantine (smallFile 5) (ascii "corrupt"), calm 3, twoBatches⟩,
    ⟨.putBatch [[2]] 6 [[49]], calm 20, oneBatch⟩, ⟨.putBatch [[1]] 5 [[49]], calm 20, smallOpened⟩]

theorem runs_twoCalls (reason : Bytes) (h : (exec fsStep ((SpoolOp.quarantine (smallFile 6)
    reason).prog smallSpool) (calm 3) firstOut).val = some none) :
    Runs smallSpool smallOpened (twoCalls reason) (bothOut reason) := by
  refine .step _ _ none (.step _ _ none (.step _ _ none (.step _ _ none .start ?_) ?_) ?_) h <;>
    decide +kernel

/-- Two payloads are quarantined for different reasons. -/
theorem evidence_kept_two :
    (∀ call ∈ twoCalls (ascii "http-400"), call.Keeps smallSpool) ∧
      quarantineCount smallSpool (bothOut (ascii "http-400")).tree =
        quarantineCount smallSpool smallOpened.tree +
          (twoCalls (ascii "http-400")).countP (SpoolCall.quarantined smallSpool) ∧
      (twoCalls (ascii "http-400")).countP (SpoolCall.quarantined smallSpool) = 2 := by
  have hrun := runs_twoCalls (ascii "http-400") (by decide +kernel)
  refine and_assoc.mp ⟨(evidence_kept_iff rooted_smallOpened hrun ?_).mpr ?_, by decide +kernel⟩
  · intro call hcall now
    simp only [twoCalls, List.mem_cons, List.not_mem_nil, or_false] at hcall
    rcases hcall with rfl | rfl | rfl | rfl <;> simp
  · intro call hcall file reason hop _
    simp only [twoCalls, List.mem_cons, List.not_mem_nil, or_false] at hcall
    rcases hcall with rfl | rfl | rfl | rfl
    · obtain ⟨rfl, rfl⟩ := SpoolOp.quarantine.inj hop
      decide +kernel
    · obtain ⟨rfl, rfl⟩ := SpoolOp.quarantine.inj hop
      decide +kernel
    · cases hop
    · cases hop

/-- **Two batches, one reason.** Both quarantine calls succeed on different ready files, but the
quarantine has one entry, and the content of the first payload is gone. -/
theorem second_batch_replaces_evidence :
    Runs smallSpool smallOpened (twoCalls (ascii "corrupt")) (bothOut (ascii "corrupt")) ∧
      (twoCalls (ascii "corrupt")).countP (SpoolCall.quarantined smallSpool) = 2 ∧
      quarantineCount smallSpool smallOpened.tree = 0 ∧
      quarantineCount smallSpool (bothOut (ascii "corrupt")).tree = 1 ∧
      firstOut.tree.content? (destination smallSpool (smallFile 5) (ascii "corrupt")) = some [1] ∧
      (bothOut (ascii "corrupt")).tree.content?
        (destination smallSpool (smallFile 5) (ascii "corrupt")) = some [2] := by
  refine ⟨runs_twoCalls _ ?_, ?_, ?_, ?_, ?_, ?_⟩ <;> decide +kernel

end Dogstatsd.CustomSpool
