import Mathlib.Data.List.Sort
import NodeAgent.Infra.Bytes

/-!
# File trees

A file tree is a finite map from paths to files and directories, with no path twice.
A path is the list of its components.

Everything is stated through `get?`: what an update does to the tree is one equation for `get?`,
and a listing is characterised by the `get?` of the paths it lists.
-/

namespace Infra

abbrev Name := Bytes

abbrev Path := List Name

def pathString (p : Path) : Bytes := List.intercalate [47] p

theorem pathString_concat (p : Path) (n : Name) : ∃ x, pathString (p ++ [n]) = x ++ n := by
  induction p with
  | nil => exact ⟨[], by simp [pathString]⟩
  | cons a rest ih =>
    obtain ⟨x, hx⟩ := ih
    refine ⟨a ++ [47] ++ x, ?_⟩
    cases rest with
    | nil => simp_all [pathString]
    | cons b rest => simp_all [pathString, List.intercalate, List.intersperse]

/-- What comes before the last two components of a path does not depend on them. -/
theorem exists_pathString_append (p : Path) :
    ∃ x, ∀ a b : Name, pathString (p ++ [a, b]) = x ++ (a ++ 47 :: b) := by
  induction p with
  | nil => exact ⟨[], fun a b => by simp [pathString, List.intercalate]⟩
  | cons c rest ih =>
    obtain ⟨x, hx⟩ := ih
    refine ⟨c ++ 47 :: x, fun a b => ?_⟩
    have := hx a b
    cases rest with
    | nil => simp_all [pathString, List.intercalate]
    | cons e rest => simp_all [pathString, List.intercalate]

/-- What a path holds. Times are nanoseconds. -/
inductive Node where
  | file (content : Bytes) (mtime : Int)
  | dir (mtime : Int)
  deriving DecidableEq

def Node.isDir : Node → Bool
  | .dir _ => true
  | .file _ _ => false

def Node.mtime : Node → Int
  | .dir m => m
  | .file _ m => m

def Node.size : Node → Nat
  | .dir _ => 0
  | .file c _ => c.length

structure Tree where
  entries : List (Path × Node)
  nodup : (entries.map Prod.fst).Nodup

namespace Tree

def empty : Tree := ⟨[], List.nodup_nil⟩

def get? (t : Tree) (p : Path) : Option Node := t.entries.lookup p

/-- The content of the file at `p`. -/
def content? (t : Tree) (p : Path) : Option Bytes :=
  match t.get? p with
  | some (.file c _) => some c
  | _ => none

variable {t t' : Tree} {p q r : Path} {n : Node} {m : Name}

/-! ## Lookup -/

theorem lookup_eq_some_iff {l : List (Path × Node)} (h : (l.map Prod.fst).Nodup) :
    l.lookup p = some n ↔ (p, n) ∈ l := by
  induction l with
  | nil => simp
  | cons e rest ih =>
    obtain ⟨q, m⟩ := e
    rw [List.map_cons, List.nodup_cons] at h
    by_cases hp : p = q
    · subst hp
      rw [List.lookup_cons_self, Option.some.injEq, List.mem_cons, Prod.mk.injEq]
      constructor
      · exact fun hm => Or.inl ⟨rfl, hm.symm⟩
      · rintro (⟨_, hm⟩ | hm)
        · exact hm.symm
        · exact absurd (List.mem_map_of_mem hm) h.1
    · rw [List.lookup_cons, show (p == q) = false from by simpa using hp, ih h.2]
      simp [hp]

theorem get?_eq_some_iff : t.get? p = some n ↔ (p, n) ∈ t.entries :=
  lookup_eq_some_iff t.nodup

theorem get?_congr {q : Path} (h : ∀ n, (p, n) ∈ t.entries ↔ (q, n) ∈ t'.entries) :
    t.get? p = t'.get? q := by
  refine Option.ext fun n => ?_
  simp only [get?_eq_some_iff, h]

theorem content?_eq_some {c : Bytes} :
    t.content? p = some c ↔ ∃ m, t.get? p = some (.file c m) := by
  rw [content?]
  split
  · next c' m h => rw [h]; simp
  · next h =>
    simp only [reduceCtorEq, false_iff, not_exists]
    exact fun m hm => h c m hm

theorem content?_congr (h : t.get? p = t'.get? q) : t.content? p = t'.content? q := by
  rw [content?, content?, h]

/-! ## Updates -/

def restrict (t : Tree) (f : Path → Bool) : Tree where
  entries := t.entries.filter (fun e => f e.1)
  nodup := by
    have h := t.nodup
    rw [List.Nodup, List.pairwise_map] at h ⊢
    exact h.filter _

theorem get?_restrict (f : Path → Bool) :
    (t.restrict f).get? r = if f r then t.get? r else none := by
  split
  · next h => exact get?_congr fun n => by simp [restrict, h]
  · next h =>
    rw [Option.eq_none_iff_forall_ne_some]
    intro n hn
    rw [get?_eq_some_iff] at hn
    exact h (List.mem_filter.mp hn).2

/-- The tree without the path `p`. -/
def erase (t : Tree) (p : Path) : Tree := t.restrict (fun r => !decide (r = p))

@[simp] theorem get?_erase : (t.erase p).get? r = if r = p then none else t.get? r := by
  rw [erase, get?_restrict]
  by_cases h : r = p <;> simp [h]

/-- The tree with `n` at the path `p`. -/
def insert (t : Tree) (p : Path) (n : Node) : Tree where
  entries := (p, n) :: (t.erase p).entries
  nodup := by
    rw [List.map_cons, List.nodup_cons]
    refine ⟨?_, (t.erase p).nodup⟩
    simp [erase, restrict]

@[simp] theorem get?_insert : (t.insert p n).get? r = if r = p then some n else t.get? r := by
  split
  · next h => rw [get?_eq_some_iff, h]; exact List.mem_cons_self
  · next h =>
    have he : (t.insert p n).get? r = (t.erase p).get? r :=
      get?_congr fun m => by simp [insert, h]
    rw [he, get?_erase, if_neg h]

/-- Where a path under `p` goes when `p` is renamed to `q`. -/
def rebase (p q r : Path) : Path := if p <+: r then q ++ r.drop p.length else r

theorem rebase_below (h : p <+: r) : rebase p q r = q ++ r.drop p.length := by
  rw [rebase, if_pos h]

theorem rebase_beside (h : ¬ p <+: r) : rebase p q r = r := by
  rw [rebase, if_neg h]

theorem rebase_inj (hr : ¬ q <+: r) {r' : Path} (hr' : ¬ q <+: r')
    (h : rebase p q r = rebase p q r') : r = r' := by
  by_cases h1 : p <+: r
  · rw [rebase_below h1] at h
    by_cases h2 : p <+: r'
    · rw [rebase_below h2] at h
      have hd := List.append_cancel_left h
      obtain ⟨x, rfl⟩ := h1
      obtain ⟨y, rfl⟩ := h2
      simpa using hd
    · rw [rebase_beside h2] at h
      exact absurd ⟨_, h⟩ hr'
  · rw [rebase_beside h1] at h
    by_cases h2 : p <+: r'
    · rw [rebase_below h2] at h
      exact absurd ⟨_, h.symm⟩ hr
    · rwa [rebase_beside h2] at h

/-- The tree with everything under `p` moved under `q`. What was under `q` is gone. -/
def move (t : Tree) (p q : Path) : Tree where
  entries := (t.restrict (fun r => !decide (q <+: r))).entries.map (fun e => (rebase p q e.1, e.2))
  nodup := by
    have h := (t.restrict (fun r => !decide (q <+: r))).nodup
    rw [List.Nodup, List.pairwise_map] at h
    rw [List.map_map, List.Nodup, List.pairwise_map]
    refine h.imp_of_mem fun {a b} ha hb hne he => hne ?_
    have hout : ∀ e ∈ (t.restrict (fun r => !decide (q <+: r))).entries, ¬ q <+: e.1 := by
      intro e hm
      simpa [restrict] using (List.mem_filter.mp hm).2
    exact rebase_inj (hout a ha) (hout b hb) he

theorem mem_move (n : Node) : (r, n) ∈ (t.move p q).entries ↔
    ∃ r', ¬ q <+: r' ∧ (r', n) ∈ t.entries ∧ rebase p q r' = r := by
  simp only [move, restrict, List.mem_map, List.mem_filter, Prod.exists, Prod.mk.injEq]
  constructor
  · rintro ⟨a, b, ⟨hm, hq⟩, hr, rfl⟩
    exact ⟨a, by simpa using hq, hm, hr⟩
  · rintro ⟨a, hq, hm, hr⟩
    exact ⟨a, n, ⟨hm, by simpa using hq⟩, hr, rfl⟩

/-- **What a renaming does.** Neither path lies under the other. -/
theorem get?_move (hpq : ¬ p <+: q) (hqp : ¬ q <+: p) :
    (t.move p q).get? r =
      if q <+: r then t.get? (p ++ r.drop q.length) else if p <+: r then none else t.get? r := by
  split
  · next h =>
    obtain ⟨x, rfl⟩ := h
    rw [List.drop_left]
    have hx : ¬ q <+: p ++ x := fun hc => by
      rcases List.prefix_or_prefix_of_prefix hc (List.prefix_append p x) with h' | h'
      · exact hqp h'
      · exact hpq h'
    refine get?_congr fun n => ?_
    rw [mem_move]
    constructor
    · rintro ⟨r', hq, hm, hr⟩
      by_cases hp : p <+: r'
      · obtain ⟨y, rfl⟩ := hp
        rw [rebase_below (List.prefix_append p y), List.drop_left] at hr
        rwa [← List.append_cancel_left hr]
      · rw [rebase_beside hp] at hr
        exact absurd ⟨x, hr.symm⟩ hq
    · intro hm
      exact ⟨p ++ x, hx, hm, by rw [rebase_below (List.prefix_append p x), List.drop_left]⟩
  · next h =>
    split
    · next hp =>
      rw [Option.eq_none_iff_forall_ne_some]
      intro n hn
      obtain ⟨r', hq, hm, hr⟩ := (mem_move n).mp (get?_eq_some_iff.mp hn)
      by_cases hp' : p <+: r'
      · rw [rebase_below hp'] at hr
        exact h ⟨_, hr⟩
      · rw [rebase_beside hp'] at hr
        exact hp' (hr ▸ hp)
    · next hp =>
      refine get?_congr fun n => ?_
      rw [mem_move]
      constructor
      · rintro ⟨r', hq, hm, hr⟩
        by_cases hp' : p <+: r'
        · rw [rebase_below hp'] at hr
          exact absurd ⟨_, hr⟩ h
        · rw [rebase_beside hp'] at hr
          exact hr ▸ hm
      · exact fun hm => ⟨r, h, hm, rebase_beside hp⟩

theorem child_prefix_child {x y : Name} : p ++ [x] <+: p ++ [y] ↔ y = x := by
  rw [List.prefix_append_right_inj, List.cons_prefix_cons]
  simp [eq_comm]

theorem get?_move_sibling {x y : Name} (h : x ≠ y) (m : Name) :
    (t.move (p ++ [x]) (p ++ [y])).get? (p ++ [m]) =
      if m = y then t.get? (p ++ [x]) else if m = x then none else t.get? (p ++ [m]) := by
  rw [get?_move (by rwa [child_prefix_child, eq_comm]) (by rwa [child_prefix_child])]
  simp only [child_prefix_child]
  split
  · next hm => rw [hm, List.drop_length, List.append_nil]
  · rfl

theorem get?_move_parent {x y : Name} (h : x ≠ y) :
    (t.move (p ++ [x]) (p ++ [y])).get? p = t.get? p := by
  have hlonger : ∀ z : Name, ¬ p ++ [z] <+: p := by
    intro z hz
    have := hz.length_le
    rw [List.length_append, List.length_singleton] at this
    omega
  rw [get?_move (by rwa [child_prefix_child, eq_comm]) (by rwa [child_prefix_child]),
    if_neg (hlonger y), if_neg (hlonger x)]

/-! ## Listings -/

def childName (p r : Path) : Option Name :=
  if p <+: r then
    match r.drop p.length with
    | [n] => some n
    | _ => none
  else none

theorem childName_eq_some {n : Name} : childName p r = some n ↔ r = p ++ [n] := by
  unfold childName
  split
  · next h =>
    obtain ⟨x, rfl⟩ := h
    rw [List.drop_left, List.append_cancel_left_eq]
    split
    · next m => simp
    · next hne =>
      simp only [reduceCtorEq, false_iff]
      exact fun hx => hne n hx
  · next h =>
    simp only [reduceCtorEq, false_iff]
    intro hr
    exact h ⟨[n], hr.symm⟩

/-- The entries directly under `p`, sorted by name (`os.ReadDir`). -/
def children (t : Tree) (p : Path) : List (Name × Node) :=
  (t.entries.filterMap (fun e => (childName p e.1).map (fun n => (n, e.2)))).insertionSort
    (fun a b => a.1 ≤ b.1)

theorem mem_children : (m, n) ∈ t.children p ↔ t.get? (p ++ [m]) = some n := by
  rw [children, List.mem_insertionSort, List.mem_filterMap, get?_eq_some_iff]
  constructor
  · rintro ⟨⟨r, x⟩, hm, he⟩
    obtain ⟨m', hm', heq⟩ := Option.map_eq_some_iff.mp he
    rw [childName_eq_some] at hm'
    simp only [Prod.mk.injEq] at heq
    obtain ⟨rfl, rfl⟩ := heq
    exact hm' ▸ hm
  · intro hm
    exact ⟨_, hm, by rw [childName_eq_some.mpr rfl]; rfl⟩

theorem children_eq_nil_iff : t.children p = [] ↔ ∀ m, t.get? (p ++ [m]) = none := by
  rw [List.eq_nil_iff_forall_not_mem]
  constructor
  · intro h m
    rw [Option.eq_none_iff_forall_ne_some]
    exact fun n hn => h (m, n) (mem_children.mpr hn)
  · rintro h ⟨m, n⟩ hm
    rw [mem_children, h m] at hm
    simp at hm

theorem children_nodup : (t.children p).Nodup := by
  rw [children, (List.perm_insertionSort _ _).nodup_iff]
  refine (List.Nodup.of_map _ t.nodup).filterMap ?_
  rintro ⟨r, x⟩ ⟨r', x'⟩ ⟨m, y⟩ h h'
  simp only [Option.mem_def, Option.map_eq_some_iff, Prod.mk.injEq] at h h'
  obtain ⟨a, ha, rfl, rfl⟩ := h
  obtain ⟨a', ha', rfl, rfl⟩ := h'
  rw [childName_eq_some] at ha ha'
  rw [ha, ha']

theorem children_pairwise : (t.children p).Pairwise (fun a b => a.1 ≤ b.1) := by
  have : Std.Total fun a b : Name × Node => a.1 ≤ b.1 := ⟨fun a b => List.le_total a.1 b.1⟩
  have : IsTrans (Name × Node) fun a b => a.1 ≤ b.1 := ⟨fun a b c => List.le_trans⟩
  exact List.pairwise_insertionSort _ _

theorem children_filter_congr (f : Name → Bool)
    (h : ∀ m, f m = true → t'.get? (p ++ [m]) = t.get? (p ++ [m])) :
    (t'.children p).filter (fun e => f e.1) = (t.children p).filter (fun e => f e.1) := by
  have hmem : ∀ e, e ∈ (t'.children p).filter (fun e => f e.1) ↔
      e ∈ (t.children p).filter (fun e => f e.1) := by
    rintro ⟨m, n⟩
    simp only [List.mem_filter, mem_children]
    exact and_congr_left fun hm => by rw [h m hm]
  refine List.Perm.eq_of_pairwise (fun a b ha hb hab hba => ?_)
    (children_pairwise.filter _) (children_pairwise.filter _) ?_
  · have hname : a.1 = b.1 := List.le_antisymm hab hba
    have ha' := mem_children.mp (List.mem_filter.mp ((hmem a).mp ha)).1
    have hb' := mem_children.mp (List.mem_filter.mp hb).1
    rw [hname, hb', Option.some.injEq] at ha'
    exact Prod.ext hname ha'.symm
  · exact (List.perm_ext_iff_of_nodup (children_nodup.filter _) (children_nodup.filter _)).mpr hmem

theorem length_children_congr {q : Path} (h : ∀ m, t'.get? (q ++ [m]) = t.get? (p ++ [m])) :
    (t'.children q).length = (t.children p).length := by
  refine ((List.perm_ext_iff_of_nodup children_nodup children_nodup).mpr ?_).length_eq
  rintro ⟨m, n⟩
  rw [mem_children, mem_children, h]

theorem length_children_add (hnew : t.get? (p ++ [m]) = none) (hm : t'.get? (p ++ [m]) = some n)
    (h : ∀ k, k ≠ m → t'.get? (p ++ [k]) = t.get? (p ++ [k])) :
    (t'.children p).length = (t.children p).length + 1 := by
  have hnot : (m, n) ∉ t.children p := by
    rw [mem_children, hnew]
    simp
  rw [← List.length_cons (a := (m, n))]
  refine ((List.perm_ext_iff_of_nodup children_nodup
    (List.nodup_cons.mpr ⟨hnot, children_nodup⟩)).mpr ?_).length_eq
  rintro ⟨k, x⟩
  rw [mem_children, List.mem_cons, mem_children, Prod.mk.injEq]
  by_cases hk : k = m
  · subst hk
    rw [hm, hnew]
    simp [eq_comm]
  · rw [h k hk]
    simp [hk]

theorem length_children_replace {n' : Node} (hm : t.get? (p ++ [m]) = some n)
    (hm' : t'.get? (p ++ [m]) = some n') (h : ∀ k, k ≠ m → t'.get? (p ++ [k]) = t.get? (p ++ [k])) :
    (t'.children p).length = (t.children p).length := by
  have hadd : ∀ (u : Tree) (x : Node), u.get? (p ++ [m]) = some x →
      (u.children p).length = ((u.erase (p ++ [m])).children p).length + 1 := by
    intro u x hx
    refine length_children_add (t := u.erase (p ++ [m])) (by simp) hx fun k hk => ?_
    rw [get?_erase, if_neg (by simpa using hk)]
  rw [hadd t' n' hm', hadd t n hm]
  congr 1
  refine length_children_congr fun k => ?_
  rw [get?_erase, get?_erase]
  split
  · rfl
  · next hk => exact h k (by simpa using hk)

/-- Everything at or under `p`, a directory before what it holds (`filepath.Walk`). -/
def walk (t : Tree) (p : Path) : List (Path × Node) :=
  (t.entries.filter (fun e => decide (p <+: e.1))).insertionSort (fun a b => a.1 ≤ b.1)

theorem mem_walk : (r, n) ∈ t.walk p ↔ p <+: r ∧ t.get? r = some n := by
  rw [walk, List.mem_insertionSort, List.mem_filter, get?_eq_some_iff,
    decide_eq_true_eq, and_comm]

end Tree

end Infra
