import Mathlib.Data.List.Infix
import NodeAgent.Infra.FileCalls

/-!
# `os.RemoveAll`, `os.MkdirAll` and rooted trees

The two library functions that make several calls. Each has one rule: an invariant that is kept by
the single changes they make is kept by the whole program, wherever it is stopped.

* `removeAll_wp` — the changes are removals at or under `p`
* `mkdirAll_wp` — the changes are new directories on the way to `p`

A tree is rooted when every entry lies in a directory. Every call keeps this (`fsStep_rooted`).
`Disk.Within p d d'` says that what happened between two disks happened at or under `p`.
-/

namespace Infra

open Prog

variable {α : Type} {Q : α → Disk → Prop} {C : Disk → Prop} {q : Path} {t : Tree} {n : Node}
  {d' : Disk}

/-! ## `os.RemoveAll` -/

/-- Remove the paths in order. The answer is the one for the last path. -/
def removeEach : List Path → Except Errno Unit → FsProg (Except Errno Unit)
  | [], last => .ret last
  | p :: ps, _ => do
    let r ← Os.remove p
    match r with
    | .ok _ => removeEach ps (.ok ())
    | .error .noEnt => removeEach ps (.ok ())
    | .error e => removeEach ps (.error e)

/-- `os.RemoveAll`: what lies deepest goes first, and `p` itself last. -/
def removeAll (p : Path) : FsProg (Except Errno Unit) := do
  let r ← Os.walk p
  match r with
  | .ok es => removeEach (es.map Prod.fst).reverse (.ok ())
  | .error .noEnt => .ret (.ok ())
  | .error e => .ret (.error e)

/-- `os.Remove` can remove `p`: it is a file or an empty directory. -/
def Tree.Removable (t : Tree) (p : Path) : Prop :=
  ∃ n, t.get? p = some n ∧ (n.isDir = true → t.children p = [])

/-- `os.Rename` can rename `p` to `q`: if there is something at `q`, both are files. -/
structure Tree.Renamable (t : Tree) (p q : Path) : Prop where
  source : ∃ n, t.get? p = some n ∧
    ∀ m, t.get? q = some m → m.isDir = false ∧ n.isDir = false
  apart : ¬ p <+: q ∧ ¬ q <+: p
  parent : t.hasParent q = true

variable {R : Choice → FsOp → Disk → Prop} {I : Disk → Prop} {d : Disk} {p : Path}

/-! The rules of single calls, for every choice of the environment. -/

theorem wp_remove {k : Except Errno Unit → FsProg α} (hC : C d)
    (herr : ∀ e, wp fsStep R (k (.error e)) Q C d)
    (hok : d.tree.Removable p → wp fsStep R (k (.ok ())) Q C (d.removed p)) :
    wp fsStep R (Os.remove p >>= k) Q C d := by
  refine wp_os hC fun c _ => ?_
  rcases fsStep_remove c d p with ⟨e, he, _⟩ | ⟨n, hn, hempty, he⟩ <;> rw [he]
  · exact herr e
  · exact hok ⟨n, hn, hempty⟩

theorem wp_rename {k : Except Errno Unit → FsProg α} (hC : C d)
    (herr : ∀ e, wp fsStep R (k (.error e)) Q C d)
    (hok : d.tree.Renamable p q → wp fsStep R (k (.ok ())) Q C (d.renamed p q)) :
    wp fsStep R (Os.rename p q >>= k) Q C d := by
  refine wp_os hC fun c _ => ?_
  rcases fsStep_rename c d p q with ⟨e, he⟩ | ⟨n, hn, hfile, h1, h2, hpar, he⟩ <;> rw [he]
  · exact herr e
  · exact hok ⟨⟨n, hn, hfile⟩, ⟨h1, h2⟩, hpar⟩

theorem wp_readDir {k : Except Errno (List DirEntry) → FsProg α} (hC : C d)
    (herr : ∀ e, wp fsStep R (k (.error e)) Q C d)
    (hok : ∀ x, d.tree.get? p = some (.dir x) → wp fsStep R (k (.ok (d.tree.dirEntries p))) Q C d) :
    wp fsStep R (Os.readDir p >>= k) Q C d := by
  refine wp_os hC fun c _ => ?_
  rcases fsStep_readDir c d p with ⟨e, he⟩ | ⟨x, hx, he⟩ <;> rw [he]
  · exact herr e
  · exact hok x hx

theorem wp_stat {k : Except Errno Node → FsProg α} (hC : C d)
    (herr : ∀ e, wp fsStep R (k (.error e)) Q C d)
    (hok : ∀ n, d.tree.get? p = some n → wp fsStep R (k (.ok n)) Q C d) :
    wp fsStep R (Os.stat p >>= k) Q C d := by
  refine wp_os hC fun c _ => ?_
  rcases fsStep_stat c d p with ⟨e, he⟩ | ⟨n, hn, he⟩ <;> rw [he]
  · exact herr e
  · exact hok n hn

theorem fsStep_remove_of {c : Choice} (hc : c.fails = false) (h : d.tree.Removable p) :
    fsStep c (.remove p) d = (.ok (), d.removed p) := by
  obtain ⟨n, hn, hempty⟩ := h
  cases n with
  | dir x => exact fsStep_remove_ok hc hn (hempty rfl)
  | file y x =>
    rw [fsStep_of_not_fails hc]
    simp only [effect, hn]

theorem fsStep_rename_of {c : Choice} (hc : c.fails = false) (h : d.tree.Renamable p q) :
    fsStep c (.rename p q) d = (.ok (), d.renamed p q) := by
  obtain ⟨n, hn, hfile⟩ := h.source
  have hpre : ¬ (p <+: q ∨ q <+: p) := not_or.mpr h.apart
  rw [fsStep_of_not_fails hc]
  simp only [effect, hn]
  cases hq : d.tree.get? q with
  | none => cases n <;> simp [hpre, h.parent]
  | some m =>
    obtain ⟨hm, hnf⟩ := hfile m hq
    cases m with
    | dir _ => cases hm
    | file _ _ =>
      cases n with
      | dir _ => cases hnf
      | file _ _ => simp [hpre, h.parent]

theorem removeEach_wp {way : Path → Prop}
    (hI : ∀ d r, way r → d.tree.Removable r → I d → I (d.removed r)) :
    ∀ (ps : List Path) (res : Except Errno Unit) (d : Disk), (∀ r ∈ ps, way r) → I d →
      wp fsStep R (removeEach ps res)
        (fun r d' => I d' ∧ (r = .ok () → (∀ q, ps.getLast? = some q → d'.tree.get? q = none) ∧
          (ps = [] → res = .ok ()))) I d := by
  intro ps
  induction ps with
  | nil => intro res d _ hd; exact ⟨hd, fun h => ⟨by simp, fun _ => h⟩⟩
  | cons p ps ih =>
    intro res d hps hd
    have hrest : ∀ r ∈ ps, way r := fun r hr => hps r (List.mem_cons_of_mem _ hr)
    -- the rest of the list decides the answer, unless `p` was the last path
    have key : ∀ (res' : Except Errno Unit) (d' : Disk), I d' →
        (ps = [] → res' = .ok () → d'.tree.get? p = none) →
        wp fsStep R (removeEach ps res')
          (fun r d' => I d' ∧ (r = .ok () →
            (∀ q, (p :: ps).getLast? = some q → d'.tree.get? q = none) ∧
              (p :: ps = [] → res = .ok ()))) I d' := by
      intro res' d' hd' hgone
      cases ps with
      | nil =>
        refine ⟨hd', fun hr => ⟨?_, by simp⟩⟩
        intro q hq
        simp only [List.getLast?_singleton, Option.some.injEq] at hq
        rw [← hq]
        exact hgone rfl hr
      | cons x xs =>
        refine wp_mono ?_ (fun _ h => h) (ih res' d' hrest hd')
        rintro a s ⟨hs, ha⟩
        refine ⟨hs, fun hr => ⟨?_, by simp⟩⟩
        rw [List.getLast?_cons_cons]
        exact (ha hr).1
    refine wp_os hd fun c _ => ?_
    rcases fsStep_remove c d p with ⟨e, he, hno⟩ | ⟨n, hn, hempty, he⟩ <;> rw [he]
    · cases e with
      | noEnt => exact key _ d hd (fun _ _ => hno rfl)
      | io | exist | notDir | notEmpty | inval => exact key _ d hd (by simp)
    · exact key _ _ (hI d p (hps p List.mem_cons_self) ⟨n, hn, hempty⟩ hd) (fun _ _ => by simp)

theorem walk_getLast_reverse (h : t.get? p = some n) :
    ((t.walk p).map Prod.fst).reverse.getLast? = some p := by
  rw [List.getLast?_reverse, List.head?_map]
  have hmem : (p, n) ∈ t.walk p := Tree.mem_walk.mpr ⟨List.prefix_refl p, h⟩
  cases hw : t.walk p with
  | nil => rw [hw] at hmem; simp at hmem
  | cons e rest =>
    have hsort : List.Pairwise (fun a b : Path × Node => a.1 ≤ b.1) (e :: rest) := by
      rw [← hw]
      exact List.pairwise_insertionSort (fun a b : Path × Node => a.1 ≤ b.1) _
    obtain ⟨x, hx⟩ : p <+: e.1 := by
      have : e ∈ t.walk p := by rw [hw]; exact List.mem_cons_self
      exact (Tree.mem_walk.mp this).1
    rw [hw] at hmem
    simp only [List.head?_cons, Option.map_some, Option.some.injEq]
    rcases List.mem_cons.mp hmem with he | he
    · rw [← he]
    · have hle : e.1 ≤ p := (List.pairwise_cons.mp hsort).1 _ he
      rw [← hx] at hle ⊢
      exact List.le_antisymm hle List.le_append_left

theorem removeAll_wp (hI : ∀ d r, p <+: r → d.tree.Removable r → I d → I (d.removed r))
    (hd : I d) :
    wp fsStep R (removeAll p)
      (fun r d' => I d' ∧ (r = .ok () → d'.tree.get? p = none)) I d := by
  refine wp_os hd fun c _ => ?_
  rcases fsStep_walk c d p with ⟨e, he, hno⟩ | ⟨n, hp, he⟩ <;> rw [he]
  · cases e with
    | noEnt => exact ⟨hd, fun _ => hno rfl⟩
    | io | exist | notDir | notEmpty | inval => exact ⟨hd, by simp⟩
  · have hunder : ∀ r ∈ ((d.tree.walk p).map Prod.fst).reverse, p <+: r := by
      intro r hr
      obtain ⟨⟨r', n⟩, hm, rfl⟩ := List.mem_map.mp (List.mem_reverse.mp hr)
      exact (Tree.mem_walk.mp hm).1
    refine wp_mono ?_ (fun _ h => h) (removeEach_wp hI _ _ d hunder hd)
    rintro a s ⟨hs, ha⟩
    exact ⟨hs, fun hr => (ha hr).1 p (walk_getLast_reverse hp)⟩

/-! ## `os.MkdirAll` -/

/-- Make the directories in order. One that exists already is fine. -/
def mkdirEach : List Path → FsProg (Except Errno Unit)
  | [] => .ret (.ok ())
  | p :: ps => do
    let r ← Os.mkdir p
    match r with
    | .ok _ => mkdirEach ps
    | .error .exist => do
      let n ← Os.stat p
      match n with
      | .ok (.dir _) => mkdirEach ps
      | .ok (.file _ _) => .ret (.error .notDir)
      | .error e => .ret (.error e)
    | .error e => .ret (.error e)

/-- `os.MkdirAll`. -/
def mkdirAll (p : Path) : FsProg (Except Errno Unit) := do
  let n ← Os.stat p
  match n with
  | .ok (.dir _) => .ret (.ok ())
  | .ok (.file _ _) => .ret (.error .notDir)
  | .error _ => mkdirEach (p.inits.drop 1)

theorem mkdirEach_wp {way : Path → Prop}
    (hI : ∀ d r m, way r → d.tree.get? r = none → d.tree.hasParent r = true → I d →
      I (d.put r (.dir m))) :
    ∀ (ps : List Path) (d : Disk), (∀ r ∈ ps, way r) → I d →
      wp fsStep R (mkdirEach ps)
        (fun r d' => I d' ∧ (r = .ok () → ∀ q, ps.getLast? = some q →
          ∃ m, d'.tree.get? q = some (.dir m))) I d := by
  intro ps
  induction ps with
  | nil => intro d _ hd; exact ⟨hd, by simp⟩
  | cons p ps ih =>
    intro d hps hd
    -- once `p` is a directory, the rest of the list decides, unless `p` was the last path
    have key : ∀ d' : Disk, I d' → (∃ m, d'.tree.get? p = some (.dir m)) →
        wp fsStep R (mkdirEach ps)
          (fun r d' => I d' ∧ (r = .ok () → ∀ q, (p :: ps).getLast? = some q →
            ∃ m, d'.tree.get? q = some (.dir m))) I d' := by
      intro d' hd' hp
      cases ps with
      | nil =>
        refine ⟨hd', fun _ q hq => ?_⟩
        simp only [List.getLast?_singleton, Option.some.injEq] at hq
        exact hq ▸ hp
      | cons x xs =>
        refine wp_mono ?_ (fun _ h => h) (ih d' (fun r hr => hps r (List.mem_cons_of_mem _ hr)) hd')
        rintro a s ⟨hs, ha⟩
        refine ⟨hs, fun hr q hq => ?_⟩
        rw [List.getLast?_cons_cons] at hq
        exact ha hr q hq
    refine wp_os hd fun c _ => ?_
    rcases fsStep_mkdir c d p with ⟨e, he⟩ | ⟨hno, hpar, he⟩ <;> rw [he]
    · cases e with
      | io | noEnt | notDir | notEmpty | inval => exact ⟨hd, by simp⟩
      | exist =>
        refine ⟨hd, fun c _ => ?_⟩
        rcases fsStep_stat c d p with ⟨e, he⟩ | ⟨n, hn, he⟩ <;> rw [he]
        · exact ⟨hd, by simp⟩
        · cases n with
          | file _ _ => exact ⟨hd, by simp⟩
          | dir m => exact key d hd ⟨m, hn⟩
    · exact key _ (hI d p _ (hps p List.mem_cons_self) hno hpar hd) ⟨c.clock, by simp⟩

theorem mkdirAll_wp (hp : p ≠ [])
    (hI : ∀ d r m, r <+: p → d.tree.get? r = none → d.tree.hasParent r = true → I d →
      I (d.put r (.dir m))) (hd : I d) :
    wp fsStep R (mkdirAll p)
      (fun r d' => I d' ∧ (r = .ok () → ∃ m, d'.tree.get? p = some (.dir m))) I d := by
  refine wp_os hd fun c _ => ?_
  have hway : ∀ r ∈ p.inits.drop 1, r <+: p := fun r hr =>
    (List.mem_inits r p).mp (List.mem_of_mem_drop hr)
  have hlast : (p.inits.drop 1).getLast? = some p := by
    have hlen : 0 < p.length := List.length_pos_of_ne_nil hp
    rw [List.getLast?_drop, if_neg (by simp; omega), List.getLast?_eq_getElem?,
      List.getElem?_eq_getElem (by simp), List.getElem_inits]
    simp
  rcases fsStep_stat c d p with ⟨e, he⟩ | ⟨n, hn, he⟩ <;> rw [he]
  · refine wp_mono ?_ (fun _ h => h) (mkdirEach_wp hI _ d hway hd)
    rintro a s ⟨hs, ha⟩
    exact ⟨hs, fun hr => ha hr p hlast⟩
  · cases n with
    | file _ _ => exact ⟨hd, by simp⟩
    | dir m => exact ⟨hd, fun _ => ⟨m, hn⟩⟩

/-! ## Rooted trees -/

def Tree.Rooted (t : Tree) : Prop :=
  ∀ p m n, p ≠ [] → t.get? (p ++ [m]) = some n → ∃ x, t.get? p = some (.dir x)

theorem Tree.hasParent_append {p : Path} {m : Name} (hp : p ≠ [])
    (h : t.hasParent (p ++ [m]) = true) : ∃ x, t.get? p = some (.dir x) := by
  rw [Tree.hasParent, List.dropLast_concat] at h
  cases p with
  | nil => exact absurd rfl hp
  | cons y ys =>
    simp only at h
    split at h
    · next x hx => exact ⟨x, hx⟩
    · simp at h

theorem Tree.hasParent_of_dir {p : Path} {x : Int} (hp : p ≠ []) (h : t.get? p = some (.dir x))
    (m : Name) : t.hasParent (p ++ [m]) = true := by
  rw [Tree.hasParent, List.dropLast_concat]
  cases p with
  | nil => exact absurd rfl hp
  | cons y ys => simp only [h]

theorem Tree.Rooted.get?_none (ht : t.Rooted) (hp : p ≠ []) (h : ∀ x, t.get? p ≠ some (.dir x)) :
    ∀ (l : Path), l ≠ [] → t.get? (p ++ l) = none := by
  intro l
  induction l using List.reverseRecOn with
  | nil => simp
  | append_singleton l m ih =>
    intro _
    rw [Option.eq_none_iff_forall_ne_some]
    intro n hn
    rw [← List.append_assoc] at hn
    obtain ⟨x, hx⟩ := ht _ _ _ (by simp [hp]) hn
    cases l with
    | nil => exact h x (by simpa using hx)
    | cons y ys => rw [ih (by simp)] at hx; simp at hx

theorem Tree.Rooted.below (ht : t.Rooted) (hp : p ≠ []) (h : t.Removable p) {l : Path} (hl : l ≠ [])
    :
    t.get? (p ++ l) = none := by
  obtain ⟨n, hn, hempty⟩ := h
  cases n with
  | file c m => exact ht.get?_none hp (by simp [hn]) l hl
  | dir x =>
    obtain ⟨m, l', rfl⟩ := List.exists_cons_of_ne_nil hl
    have hm := Tree.children_eq_nil_iff.mp (hempty rfl) m
    cases l' with
    | nil => exact hm
    | cons y ys =>
      rw [← List.singleton_append, ← List.append_assoc]
      exact ht.get?_none (by simp) (by simp [hm]) (y :: ys) (by simp)

theorem Tree.Rooted.insert (ht : t.Rooted) (hpar : t.hasParent p = true)
    (hp : ∀ x, t.get? p ≠ some (.dir x)) : (t.insert p n).Rooted := by
  intro q m k hq hk
  rw [Tree.get?_insert] at hk
  have hdir : ∃ x, t.get? q = some (.dir x) := by
    split at hk
    · next he => exact Tree.hasParent_append hq (he ▸ hpar)
    · exact ht q m k hq hk
  obtain ⟨x, hx⟩ := hdir
  refine ⟨x, ?_⟩
  rw [Tree.get?_insert, if_neg, hx]
  intro he
  exact hp x (he ▸ hx)

theorem Tree.Rooted.overwrite (ht : t.Rooted) {x : Bytes} {m : Int}
    (hp : t.get? p = some (.file x m)) : (t.insert p n).Rooted := by
  intro q k y hq hk
  rw [Tree.get?_insert] at hk
  have hdir : ∃ z, t.get? q = some (.dir z) := by
    split at hk
    · next he => exact ht q k _ hq (he ▸ hp)
    · exact ht q k y hq hk
  obtain ⟨z, hz⟩ := hdir
  refine ⟨z, ?_⟩
  rw [Tree.get?_insert, if_neg, hz]
  intro he
  rw [he, hp] at hz
  simp at hz

theorem Tree.Rooted.erase (ht : t.Rooted) (hp : t.Removable p) : (t.erase p).Rooted := by
  obtain ⟨n, hn, hempty⟩ := hp
  intro q m k hq hk
  rw [Tree.get?_erase] at hk
  split at hk
  · simp at hk
  · obtain ⟨x, hx⟩ := ht q m k hq hk
    refine ⟨x, ?_⟩
    rw [Tree.get?_erase, if_neg, hx]
    intro he
    rw [he, hn] at hx
    have := Tree.children_eq_nil_iff.mp (hempty (by rw [Option.some.inj hx]; rfl)) m
    rw [← he, hk] at this
    simp at this

theorem Tree.Rooted.move (ht : t.Rooted) (h : t.Renamable p q) : (t.move p q).Rooted := by
  obtain ⟨_, ⟨hpq, hqp⟩, hpar⟩ := h
  have hp0 : p ≠ [] := fun h => hpq (h ▸ List.nil_prefix)
  intro r m k hr hk
  rw [Tree.get?_move hpq hqp] at hk
  by_cases hqr : q <+: r
  · -- the parent moves along
    obtain ⟨x, rfl⟩ := hqr
    rw [if_pos (by rw [List.append_assoc]; exact List.prefix_append q _), List.append_assoc,
      List.drop_left, ← List.append_assoc] at hk
    obtain ⟨y, hy⟩ := ht _ _ _ (by simp [hp0]) hk
    refine ⟨y, ?_⟩
    rw [Tree.get?_move hpq hqp, if_pos (List.prefix_append q x), List.drop_left, hy]
  · have hrp : ¬ p <+: r ∧ ∃ x, t.get? r = some (.dir x) := by
      by_cases hqm : q <+: r ++ [m]
      · -- `r ++ [m]` is `q` itself, so its parent was there before
        have he : q = r ++ [m] := by
          rcases List.prefix_concat_iff.mp hqm with h | h
          · exact h
          · exact absurd h hqr
        refine ⟨fun h => hpq (he ▸ h.trans (List.prefix_append r [m])), ?_⟩
        exact Tree.hasParent_append hr (he ▸ hpar)
      · rw [if_neg hqm] at hk
        split at hk
        · simp at hk
        · next hpm => exact ⟨fun h => hpm (h.trans (List.prefix_append r [m])), ht r m k hr hk⟩
    obtain ⟨x, hx⟩ := hrp.2
    exact ⟨x, by rw [Tree.get?_move hpq hqp, if_neg hqr, if_neg hrp.1, hx]⟩

/-- **Every call keeps the tree rooted.** -/
theorem fsStep_rooted (c : Choice) (op : FsOp) {d : Disk} (h : d.tree.Rooted) :
    (fsStep c op d).2.tree.Rooted := by
  cases op with
  | readDir p => rcases fsStep_readDir c d p with ⟨e, he⟩ | ⟨x, _, he⟩ <;> rw [he] <;> exact h
  | stat p => rcases fsStep_stat c d p with ⟨e, he⟩ | ⟨n, _, he⟩ <;> rw [he] <;> exact h
  | walk p => rcases fsStep_walk c d p with ⟨e, he, _⟩ | ⟨n, _, he⟩ <;> rw [he] <;> exact h
  | read p => rcases fsStep_read c d p with ⟨e, he⟩ | ⟨x, m, _, he⟩ <;> rw [he] <;> exact h
  | mkdir p =>
    rcases fsStep_mkdir c d p with ⟨e, he⟩ | ⟨hno, hpar, he⟩ <;> rw [he]
    · exact h
    · exact h.insert hpar (by simp [hno])
  | create p =>
    rcases fsStep_create c d p with ⟨e, he⟩ | ⟨hno, hpar, he⟩ <;> rw [he]
    · exact h
    · exact h.insert hpar (by simp [hno])
  | write p content =>
    have hput : ∀ x m y, d.tree.get? p = some (.file x m) →
        (d.put p (.file y c.clock)).tree.Rooted := by
      intro x m y hp
      exact h.overwrite hp
    rcases fsStep_write c d p content with ⟨e, he⟩ | ⟨e, x, m, y, hp, he⟩ | ⟨x, m, hp, he⟩ <;>
      rw [he]
    · exact h
    · exact hput x m y hp
    · exact hput x m content hp
  | openFile p => rw [fsStep_handle c d (Or.inl ⟨p, rfl⟩)]; exact h
  | sync p => rw [fsStep_handle c d (Or.inr (Or.inl ⟨p, rfl⟩))]; exact h
  | close p => rw [fsStep_handle c d (Or.inr (Or.inr ⟨p, rfl⟩))]; exact h
  | remove p =>
    rcases fsStep_remove c d p with ⟨e, he, _⟩ | ⟨n, hn, hne, he⟩ <;> rw [he]
    · exact h
    · exact h.erase ⟨n, hn, hne⟩
  | rename p q =>
    rcases fsStep_rename c d p q with ⟨e, he⟩ | ⟨n, hn, hfile, h1, h2, hpar, he⟩ <;> rw [he]
    · exact h
    · exact h.move ⟨⟨n, hn, hfile⟩, ⟨h1, h2⟩, hpar⟩

theorem exec_rooted (prog : FsProg α) (cs : List Choice) {d : Disk} (h : d.tree.Rooted) :
    (exec fsStep prog cs d).state.tree.Rooted := by
  have hspec : wp fsStep (fun _ _ _ => True) prog (fun _ d => d.tree.Rooted)
      (fun d => d.tree.Rooted) d :=
    wp_of_step (I := fun d : Disk => d.tree.Rooted) (fun c op _ he => fsStep_rooted c op he) _ h
  exact wp_exec_state hspec (along_true _ _ _) (fun _ _ h => h) (fun _ h => h)

/-! ## Changes under one path -/

/-- `d'` comes from `d` by changes at or under `p`, none of them a renaming. -/
structure Disk.Within (p : Path) (d d' : Disk) : Prop where
  outside : ∀ r, ¬ p <+: r → d'.tree.get? r = d.tree.get? r
  journal : ∃ l, d'.journal = l ++ d.journal ∧ ∀ ch ∈ l, ∃ r, p <+: r ∧ ch = .removed r

theorem Disk.Within.refl (p : Path) (d : Disk) : Disk.Within p d d :=
  ⟨fun _ _ => rfl, [], rfl, by simp⟩

theorem Disk.Within.removed (h : Disk.Within p d d') {r : Path} (hr : p <+: r) :
    Disk.Within p d (d'.removed r) := by
  obtain ⟨l, hl, hall⟩ := h.journal
  refine ⟨fun q hq => ?_, .removed r :: l, by rw [Disk.removed_journal, hl]; rfl, ?_⟩
  · have hne : q ≠ r := fun he => hq (he ▸ hr)
    rw [Disk.removed_tree, Tree.get?_erase, if_neg hne, h.outside q hq]
  · intro ch hch
    rcases List.mem_cons.mp hch with rfl | hch
    · exact ⟨r, hr, rfl⟩
    · exact hall ch hch

theorem Disk.Within.put (h : Disk.Within p d d') {r : Path} (hr : p <+: r) (n : Node) :
    Disk.Within p d (d'.put r n) := by
  refine ⟨fun q hq => ?_, h.journal⟩
  have hne : q ≠ r := fun he => hq (he ▸ hr)
  rw [Disk.put_tree, Tree.get?_insert, if_neg hne, h.outside q hq]

/-- The call changes nothing outside `p`, and renames nothing. -/
def FsOp.Stays (p : Path) : FsOp → Prop
  | .mkdir r | .create r | .write r _ | .remove r => p <+: r
  | .rename _ _ => False
  | .readDir _ | .stat _ | .walk _ | .read _ | .openFile _ | .sync _ | .close _ => True

/-- `d'` comes from `d` by calls at or under `p`, and is rooted. -/
structure Disk.Safe (p : Path) (d d' : Disk) : Prop extends Disk.Within p d d' where
  rooted : d'.tree.Rooted

theorem fsStep_safe (c : Choice) {op : FsOp} {d : Disk} (hop : op.Stays p) (h : Disk.Safe p d d') :
    Disk.Safe p d (fsStep c op d').2 := by
  refine ⟨?_, fsStep_rooted c op h.rooted⟩
  have hw := h.toWithin
  cases op with
  | readDir r => rcases fsStep_readDir c d' r with ⟨e, he⟩ | ⟨x, _, he⟩ <;> rw [he] <;> exact hw
  | stat r => rcases fsStep_stat c d' r with ⟨e, he⟩ | ⟨n, _, he⟩ <;> rw [he] <;> exact hw
  | walk r => rcases fsStep_walk c d' r with ⟨e, he, _⟩ | ⟨n, _, he⟩ <;> rw [he] <;> exact hw
  | read r => rcases fsStep_read c d' r with ⟨e, he⟩ | ⟨x, m, _, he⟩ <;> rw [he] <;> exact hw
  | mkdir r =>
    rcases fsStep_mkdir c d' r with ⟨e, he⟩ | ⟨_, _, he⟩ <;> rw [he]
    · exact hw
    · exact hw.put hop _
  | create r =>
    rcases fsStep_create c d' r with ⟨e, he⟩ | ⟨_, _, he⟩ <;> rw [he]
    · exact hw
    · exact hw.put hop _
  | write r content =>
    rcases fsStep_write c d' r content with ⟨e, he⟩ | ⟨e, x, m, y, _, he⟩ | ⟨x, m, _, he⟩ <;>
      rw [he]
    · exact hw
    · exact hw.put hop _
    · exact hw.put hop _
  | openFile r => rw [fsStep_handle c d' (Or.inl ⟨r, rfl⟩)]; exact hw
  | sync r => rw [fsStep_handle c d' (Or.inr (Or.inl ⟨r, rfl⟩))]; exact hw
  | close r => rw [fsStep_handle c d' (Or.inr (Or.inr ⟨r, rfl⟩))]; exact hw
  | remove r =>
    rcases fsStep_remove c d' r with ⟨e, he, _⟩ | ⟨n, _, _, he⟩ <;> rw [he]
    · exact hw
    · exact hw.removed hop
  | rename r q => exact absurd hop (by simp [FsOp.Stays])

/-- A program whose calls stay under `p` keeps the disk safe, wherever it is stopped. -/
theorem wp_of_stays {prog : FsProg α} {d : Disk} (hu : prog.Uses (FsOp.Stays p))
    (h : Disk.Safe p d d') : wp fsStep R prog (fun _ => Disk.Safe p d) (Disk.Safe p d) d' := by
  refine wp_of_uses ?_ hu h
  intro c op e hop _ hs
  exact fsStep_safe c hop hs

theorem removeAll_safe {d : Disk} (h : Disk.Safe p d d') :
    wp fsStep R (removeAll p) (fun _ => Disk.Safe p d) (Disk.Safe p d) d' := by
  refine wp_mono (fun _ _ h => h.1) (fun _ h => h) (removeAll_wp ?_ h)
  intro d' r hr hrem hs
  exact ⟨hs.toWithin.removed hr, hs.rooted.erase hrem⟩

end Infra
