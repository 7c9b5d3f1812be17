import NodeAgent.Dogstatsd.Spool

/-!
# What the spool holds

The ready payloads of a spool, read off the file tree, and the layout that every operation keeps.

* `mem_readyFiles` — the list that `filesLocked` returns has exactly the ready paths
-/

namespace Dogstatsd.CustomSpool

open Infra

variable {s : CustomSpool} {t t' : Tree} {p : Path} {n b m : Name}

/-! ## Names of different kinds differ -/

theorem isBatchName_head (h : isBatchName b = true) : b.head? = some 98 :=
  hasPrefix_head (Bool.and_eq_true_iff.mp h).1

theorem isLegacyName_head (h : isLegacyName b = true) : b.head? = some 99 :=
  hasPrefix_head (Bool.and_eq_true_iff.mp h).1

theorem isChunkName_head (h : isChunkName b = true) : b.head? = some 99 :=
  hasPrefix_head (Bool.and_eq_true_iff.mp h).1

theorem isTempName_head (h : isTempName b = true) : b.head? = some 46 :=
  hasPrefix_head (Bool.and_eq_true_iff.mp h).1

theorem isTempName_tempName (rand : Bytes) : isTempName (tempName rand) = true := by
  rw [isTempName, Bool.and_eq_true_iff, tempName]
  exact ⟨by rw [List.append_assoc]; exact hasPrefix_append _ _, hasSuffix_append _ _⟩

theorem isBatchName_batchName (now : Int) (temp : Name) :
    isBatchName (batchName now temp) = true := by
  rw [isBatchName, Bool.and_eq_true_iff, batchName]
  refine ⟨?_, hasSuffix_append _ _⟩
  rw [List.append_assoc, List.append_assoc, List.append_assoc]
  exact hasPrefix_append _ _

theorem isChunkName_chunkName (i : Nat) : isChunkName (chunkName i) = true := by
  rw [isChunkName, Bool.and_eq_true_iff, chunkName]
  exact ⟨by rw [List.append_assoc]; exact hasPrefix_append _ _, hasSuffix_append _ _⟩

def isQueueName (n : Name) : Bool := isBatchName n || isLegacyName n

theorem isQueueName_of_batch (h : isBatchName b = true) : isQueueName b = true := by
  rw [isQueueName, h]; rfl

theorem isQueueName_ne_temp (hb : isQueueName b = true) (hn : isTempName n = true) : n ≠ b := by
  rintro rfl
  have := isTempName_head hn
  rcases Bool.or_eq_true_iff.mp hb with h | h
  · rw [isBatchName_head h] at this; simp at this
  · rw [isLegacyName_head h] at this; simp at this

theorem isQueueName_ne_quarantine (hb : isQueueName b = true) : ascii "quarantine" ≠ b := by
  rintro rfl
  revert hb
  decide

/-! ## Ready paths -/

theorem not_prefix_of_ne (h : n ≠ b) (l : Path) : ¬ s.dir ++ [n] <+: s.dir ++ b :: l := by
  rw [List.prefix_append_right_inj, List.cons_prefix_cons]
  exact fun hc => h hc.1

theorem hasSuffix_pathString (h : hasPrefix b (ascii "batch-") = true) :
    hasSuffix (pathString (p ++ [b])) (ascii ".ready") = hasSuffix b (ascii ".ready") := by
  obtain ⟨x, hx⟩ := pathString_concat p b
  rw [hx, Bool.eq_iff_iff]
  simp only [hasSuffix, List.isSuffixOf_iff_suffix]
  constructor
  · intro hs
    refine List.suffix_of_suffix_length_le hs (List.suffix_append x b) ?_
    have hlen : (ascii ".ready").length = (ascii "batch-").length := by decide
    rw [hlen]
    exact (List.isPrefixOf_iff_prefix.mp h).length_le
  · exact fun hs => hs.trans (List.suffix_append x b)

theorem isReadyPath_iff : isReadyPath s p = true ↔
    (∃ m, p = s.dir ++ [m] ∧ isLegacyName m = true) ∨
    ∃ b m, p = s.dir ++ [b, m] ∧ isBatchName b = true ∧ isChunkName m = true := by
  have hdir := s.dir_ne
  simp only [isReadyPath, Bool.or_eq_true, Bool.and_eq_true, decide_eq_true_eq]
  rcases List.eq_nil_or_concat p with rfl | ⟨q, m, rfl⟩
  · constructor
    · rintro (⟨h, _⟩ | ⟨⟨⟨h, _⟩, _⟩, _⟩) <;> exact absurd h.symm hdir
    · rintro (⟨m, h, _⟩ | ⟨b, m, h, _⟩) <;> simp at h
  simp only [List.concat_eq_append, List.dropLast_concat, base, List.getLast?_concat,
    Option.getD_some]
  constructor
  · rintro (⟨rfl, hm⟩ | ⟨⟨⟨h, hb⟩, hs⟩, hm⟩)
    · exact Or.inl ⟨m, rfl, hm⟩
    · rcases List.eq_nil_or_concat q with rfl | ⟨r, b, rfl⟩
      · exact absurd h.symm hdir
      · simp only [List.concat_eq_append, List.dropLast_concat, List.getLast?_concat,
          Option.getD_some] at h hb hs
        rw [hasSuffix_pathString hb] at hs
        refine Or.inr ⟨b, m, by rw [← h]; simp, ?_, hm⟩
        rw [isBatchName, hb, hs]
        rfl
  · rintro (⟨k, h, hk⟩ | ⟨b, k, h, hb, hk⟩)
    · obtain ⟨rfl, rfl⟩ : q = s.dir ∧ m = k := by simpa using h
      exact Or.inl ⟨rfl, hk⟩
    · obtain ⟨rfl, rfl⟩ : q = s.dir ++ [b] ∧ m = k := by
        rw [show s.dir ++ [b, k] = s.dir ++ [b] ++ [k] from by simp] at h
        exact List.append_singleton_inj.mp h
      have hb' := Bool.and_eq_true_iff.mp hb
      refine Or.inr ⟨⟨⟨by simp, ?_⟩, ?_⟩, hk⟩
      · simpa using hb'.1
      · rw [hasSuffix_pathString hb'.1]
        exact hb'.2

theorem isReadyPath_under (h : isReadyPath s p = true) :
    ∃ n l, p = s.dir ++ n :: l ∧ isQueueName n = true := by
  rcases isReadyPath_iff.mp h with ⟨m, rfl, hm⟩ | ⟨b, m, rfl, hb, _⟩
  · exact ⟨m, [], rfl, by rw [isQueueName, hm, Bool.or_true]⟩
  · exact ⟨b, [m], rfl, isQueueName_of_batch hb⟩

theorem isReadyPath_chunk (hb : isBatchName b = true) (hm : isChunkName m = true) :
    isReadyPath s (s.dir ++ [b, m]) = true :=
  isReadyPath_iff.mpr (Or.inr ⟨b, m, rfl, hb, hm⟩)

/-! ## The ready payloads -/

def ready (s : CustomSpool) (t : Tree) (p : Path) : Option Bytes :=
  if isReadyPath s p then t.content? p else none

/-- The trees hold the same under the names of the queue. -/
def SameQueue (s : CustomSpool) (t t' : Tree) : Prop :=
  ∀ n l, isQueueName n = true → t'.get? (s.dir ++ n :: l) = t.get? (s.dir ++ n :: l)

theorem ready_congr (h : SameQueue s t t') : ready s t' = ready s t := by
  funext p
  unfold ready
  split
  · next hp =>
    obtain ⟨n, l, rfl, hn⟩ := isReadyPath_under hp
    exact Tree.content?_congr (h n l hn)
  · rfl

theorem SameQueue.of_outside (hn : ∀ b, isQueueName b = true → n ≠ b)
    (h : ∀ r, ¬ s.dir ++ [n] <+: r → t'.get? r = t.get? r) : SameQueue s t t' :=
  fun b l hb => h _ (not_prefix_of_ne (hn b hb) l)

/-! ## The layout -/

/-- What holds of the tree at every point of every operation. -/
structure Layout (s : CustomSpool) (t : Tree) : Prop where
  rooted : t.Rooted
  chunks : ∀ {b m n}, isBatchName b = true → t.get? (s.dir ++ [b, m]) = some n →
    isChunkName m = true ∧ n.isDir = false

theorem Layout.congr (h : Layout s t) (hr : t'.Rooted) (hq : SameQueue s t t') : Layout s t' :=
  ⟨hr, fun {b m _} hb hn => h.chunks hb ((hq b [m] (isQueueName_of_batch hb)) ▸ hn)⟩

theorem Layout.batchDir (h : Layout s t) {n : Node} (hn : t.get? (s.dir ++ [b, m]) = some n) :
    ∃ x, t.get? (s.dir ++ [b]) = some (.dir x) :=
  h.rooted (s.dir ++ [b]) m n (by simp) (by simpa using hn)

/-! ## The list of ready files -/

/-- What `filesLocked` takes from one entry of the spool directory. -/
def entryFiles (s : CustomSpool) (t : Tree) (entry : DirEntry) : List Path :=
  if !entry.isDir && isLegacyName entry.name then [s.dir ++ [entry.name]]
  else if entry.isDir && isBatchName entry.name then
    (t.dirEntries (s.dir ++ [entry.name])).map (fun chunk => s.dir ++ [entry.name, chunk.name])
  else []

/-- What `filesLocked` returns when nothing stops it. -/
def readyFiles (s : CustomSpool) (t : Tree) : List Path :=
  sortFiles ((t.dirEntries s.dir).flatMap (entryFiles s t))

theorem isLegacyName_not_batch (h : isLegacyName n = true) : isBatchName n = false := by
  rw [Bool.eq_false_iff]
  intro hb
  have := isLegacyName_head h
  rw [isBatchName_head hb] at this
  simp at this

theorem mem_entryFiles {entry : DirEntry} : p ∈ entryFiles s t entry ↔
    (entry.isDir = false ∧ isLegacyName entry.name = true ∧ p = s.dir ++ [entry.name]) ∨
    (entry.isDir = true ∧ isBatchName entry.name = true ∧
      ∃ m n, t.get? (s.dir ++ [entry.name, m]) = some n ∧ p = s.dir ++ [entry.name, m]) := by
  unfold entryFiles
  cases hd : entry.isDir with
  | false => cases hl : isLegacyName entry.name <;> simp
  | true =>
    cases hb : isBatchName entry.name with
    | false => simp
    | true =>
      simp only [Bool.not_true, Bool.false_and, Bool.false_eq_true, if_false, Bool.true_and,
        if_true, List.mem_map, Tree.mem_dirEntries, List.append_assoc, List.cons_append,
        List.nil_append, true_and]
      constructor
      · rintro ⟨c, ⟨n, hn, _⟩, rfl⟩
        exact Or.inr ⟨c.name, n, hn, rfl⟩
      · rintro (⟨h, _⟩ | ⟨m, n, hn, rfl⟩)
        · cases h
        · exact ⟨⟨m, n.isDir⟩, ⟨n, hn, rfl⟩, rfl⟩

theorem mem_readyFiles (h : Layout s t) :
    p ∈ readyFiles s t ↔ (ready s t p).isSome = true := by
  rw [readyFiles, sortFiles, List.mem_insertionSort, List.mem_flatMap, Option.isSome_iff_exists]
  simp only [Tree.mem_dirEntries, mem_entryFiles]
  constructor
  · rintro ⟨entry, ⟨k, hk, hdir⟩, ⟨hf, hl, rfl⟩ | ⟨_, hb, m, n, hn, rfl⟩⟩
    · rw [ready, if_pos (isReadyPath_iff.mpr (Or.inl ⟨_, rfl, hl⟩))]
      cases k with
      | dir x => rw [← hdir] at hf; cases hf
      | file c x => exact ⟨c, Tree.content?_eq_some.mpr ⟨x, hk⟩⟩
    · obtain ⟨hm, hfile⟩ := h.chunks hb hn
      rw [ready, if_pos (isReadyPath_chunk hb hm)]
      cases n with
      | dir x => cases hfile
      | file c x => exact ⟨c, Tree.content?_eq_some.mpr ⟨x, hn⟩⟩
  · rintro ⟨c, hc⟩
    rw [ready] at hc
    split at hc
    · next hp =>
      obtain ⟨x, hx⟩ := Tree.content?_eq_some.mp hc
      rcases isReadyPath_iff.mp hp with ⟨m, rfl, hm⟩ | ⟨b, m, rfl, hb, hm⟩
      · exact ⟨⟨m, false⟩, ⟨_, hx, rfl⟩, Or.inl ⟨rfl, hm, rfl⟩⟩
      · obtain ⟨y, hy⟩ := h.batchDir hx
        exact ⟨⟨b, true⟩, ⟨_, hy, rfl⟩, Or.inr ⟨rfl, hb, m, _, hx, rfl⟩⟩
    · simp at hc

theorem ready_none (h : isReadyPath s p = false) (t : Tree) : ready s t p = none := by
  rw [ready, if_neg (by simp [h])]

theorem isReadyPath_of_mem (hl : Layout s t) (h : p ∈ readyFiles s t) :
    isReadyPath s p = true := by
  have := (mem_readyFiles hl).mp h
  by_contra hno
  rw [ready, if_neg hno] at this
  cases this

theorem isReadyPath_outside (hn : ∀ b, isQueueName b = true → n ≠ b)
    (hp : s.dir ++ [n] <+: p) : isReadyPath s p = false := by
  rw [Bool.eq_false_iff]
  intro hready
  obtain ⟨b, l, rfl, hb⟩ := isReadyPath_under hready
  exact not_prefix_of_ne (hn b hb) l hp

theorem isReadyPath_batchDir (hb : isBatchName b = true) :
    isReadyPath s (s.dir ++ [b]) = false := by
  rw [Bool.eq_false_iff]
  intro hready
  rcases isReadyPath_iff.mp hready with ⟨m, he, hm⟩ | ⟨b', m, he, _⟩
  · obtain rfl : b = m := by simpa using he
    rw [isLegacyName_not_batch hm] at hb
    cases hb
  · simp at he

/-! ## Committed batches are never empty -/

def NoEmptyBatch (s : CustomSpool) (t : Tree) : Prop :=
  ∀ b x, isBatchName b = true → t.get? (s.dir ++ [b]) = some (.dir x) →
    t.children (s.dir ++ [b]) ≠ []

theorem children_congr (h : ∀ m, t'.get? (p ++ [m]) = t.get? (p ++ [m])) :
    t'.children p = [] ↔ t.children p = [] := by
  simp only [Tree.children_eq_nil_iff, h]

theorem NoEmptyBatch.congr (h : NoEmptyBatch s t) (hq : SameQueue s t t') :
    NoEmptyBatch s t' := by
  intro b x hb hx
  have hb' := isQueueName_of_batch hb
  rw [Ne, children_congr (fun m => by simpa using hq b [m] hb')]
  exact h b x hb (hq b [] hb' ▸ hx)

end Dogstatsd.CustomSpool
