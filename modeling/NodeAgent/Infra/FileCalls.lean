import NodeAgent.Infra.FileTree
import NodeAgent.Infra.Program

/-!
# File system calls

The calls of package `os` as atomic steps on a file tree. The environment chooses for each call
whether it fails and what the clock reads, so a program over these calls is a `Prog` in the sense
of `Infra/Program.lean`.

A failing call changes nothing, except that a failing write may have written some of its bytes.
The disk keeps a journal of the removals and renames that took place, latest first.
No call reads it; it only says what happened.
-/

namespace Infra

inductive Errno where
  | io
  | noEnt
  | exist
  | notDir
  | notEmpty
  | inval
  deriving DecidableEq

structure DirEntry where
  name : Name
  isDir : Bool
  deriving DecidableEq

inductive FsOp where
  | readDir (p : Path)
  | stat (p : Path)
  | walk (p : Path)
  | read (p : Path)
  | mkdir (p : Path)
  | create (p : Path)
  | write (p : Path) (content : Bytes)
  | openFile (p : Path)
  | sync (p : Path)
  | close (p : Path)
  | remove (p : Path)
  | rename (p q : Path)
  deriving DecidableEq

def FsOp.Value : FsOp → Type
  | .readDir _ => List DirEntry
  | .stat _ => Node
  | .walk _ => List (Path × Node)
  | .read _ => Bytes
  | _ => Unit

abbrev FsOp.Reply (op : FsOp) : Type := Except Errno op.Value

/-- Whether a call fails, the time, and how many bytes a failing write has written. -/
structure Choice where
  fails : Bool
  clock : Int
  written : Nat

def Choice.good (clock : Int) : Choice := ⟨false, clock, 0⟩

def Choice.bad : Choice := ⟨true, 0, 0⟩

inductive Change where
  | removed (p : Path)
  | renamed (p q : Path)
  deriving DecidableEq

structure Disk where
  tree : Tree
  journal : List Change

namespace Disk

/-- The disk after `p` was removed. -/
def removed (d : Disk) (p : Path) : Disk := ⟨d.tree.erase p, .removed p :: d.journal⟩

/-- The disk after `p` was renamed to `q`. -/
def renamed (d : Disk) (p q : Path) : Disk := ⟨d.tree.move p q, .renamed p q :: d.journal⟩

/-- The disk with `n` at `p`. -/
def put (d : Disk) (p : Path) (n : Node) : Disk := ⟨d.tree.insert p n, d.journal⟩

@[simp] theorem removed_tree (d : Disk) (p : Path) : (d.removed p).tree = d.tree.erase p := rfl

@[simp] theorem removed_journal (d : Disk) (p : Path) :
    (d.removed p).journal = .removed p :: d.journal := rfl

@[simp] theorem renamed_tree (d : Disk) (p q : Path) :
    (d.renamed p q).tree = d.tree.move p q := rfl

@[simp] theorem renamed_journal (d : Disk) (p q : Path) :
    (d.renamed p q).journal = .renamed p q :: d.journal := rfl

@[simp] theorem put_tree (d : Disk) (p : Path) (n : Node) :
    (d.put p n).tree = d.tree.insert p n := rfl

end Disk

/-! ## What a call does -/

/-- A path can be made when its parent is a directory. -/
def Tree.hasParent (t : Tree) (p : Path) : Bool :=
  match p.dropLast with
  | [] => true
  | q => match t.get? q with
    | some (.dir _) => true
    | _ => false

def Tree.dirEntries (t : Tree) (p : Path) : List DirEntry :=
  (t.children p).map (fun e => ⟨e.1, e.2.isDir⟩)

theorem Tree.mem_dirEntries {t : Tree} {p : Path} {e : DirEntry} :
    e ∈ t.dirEntries p ↔ ∃ n, t.get? (p ++ [e.name]) = some n ∧ n.isDir = e.isDir := by
  obtain ⟨m, b⟩ := e
  simp only [Tree.dirEntries, List.mem_map, Prod.exists, DirEntry.mk.injEq]
  constructor
  · rintro ⟨m', n, hm, rfl, hb⟩
    exact ⟨n, Tree.mem_children.mp hm, hb⟩
  · rintro ⟨n, hn, hb⟩
    exact ⟨m, n, Tree.mem_children.mpr hn, rfl, hb⟩

theorem Tree.dirEntries_eq_nil {t : Tree} {p : Path} : t.dirEntries p = [] ↔ t.children p = [] :=
  List.map_eq_nil_iff

theorem Tree.dirEntries_filter_congr {t t' : Tree} {p : Path} (f : Name → Bool)
    (h : ∀ m, f m = true → t'.get? (p ++ [m]) = t.get? (p ++ [m])) :
    (t'.dirEntries p).filter (fun e => f e.name) = (t.dirEntries p).filter (fun e => f e.name) := by
  simp only [Tree.dirEntries, List.filter_map]
  exact congrArg _ (Tree.children_filter_congr f h)

theorem Tree.dirEntries_congr {t t' : Tree} {p : Path}
    (h : ∀ m, t'.get? (p ++ [m]) = t.get? (p ++ [m])) : t'.dirEntries p = t.dirEntries p := by
  have := Tree.dirEntries_filter_congr (fun _ => true) fun m _ => h m
  simpa using this

theorem Tree.nodup_dirEntries {t : Tree} {p : Path} :
    ((t.dirEntries p).map DirEntry.name).Nodup := by
  have hnames : ((t.children p).map Prod.fst).Nodup := by
    refine (List.nodup_map_iff_inj_on Tree.children_nodup).mpr ?_
    rintro ⟨m, n⟩ hn ⟨m', n'⟩ hn' he
    obtain rfl : m = m' := he
    rw [Tree.mem_children] at hn hn'
    rw [hn, Option.some.injEq] at hn'
    rw [hn']
  rw [Tree.dirEntries, List.map_map]
  exact hnames

/-- The value and the disk of a call that the environment lets through. -/
def effect (clock : Int) (d : Disk) : (op : FsOp) → Except Errno (op.Value × Disk)
  | .readDir p =>
    match d.tree.get? p with
    | some (.dir _) => .ok (d.tree.dirEntries p, d)
    | some (.file _ _) => .error .notDir
    | none => .error .noEnt
  | .stat p =>
    match d.tree.get? p with
    | some n => .ok (n, d)
    | none => .error .noEnt
  | .walk p =>
    match d.tree.get? p with
    | some _ => .ok (d.tree.walk p, d)
    | none => .error .noEnt
  | .read p =>
    match d.tree.get? p with
    | some (.file c _) => .ok (c, d)
    | _ => .error .noEnt
  | .mkdir p =>
    if (d.tree.get? p).isSome then .error .exist
    else if d.tree.hasParent p then .ok ((), d.put p (.dir clock))
    else .error .noEnt
  | .create p =>
    if (d.tree.get? p).isSome then .error .exist
    else if d.tree.hasParent p then .ok ((), d.put p (.file [] clock))
    else .error .noEnt
  | .write p content =>
    match d.tree.get? p with
    | some (.file _ _) => .ok ((), d.put p (.file content clock))
    | _ => .error .noEnt
  | .openFile p => if (d.tree.get? p).isSome then .ok ((), d) else .error .noEnt
  | .sync _ => .ok ((), d)
  | .close _ => .ok ((), d)
  | .remove p =>
    match d.tree.get? p with
    | some (.file _ _) => .ok ((), d.removed p)
    | some (.dir _) => if d.tree.children p = [] then .ok ((), d.removed p) else .error .notEmpty
    | none => .error .noEnt
  | .rename p q =>
    -- `os.Rename` refuses a target that is a directory, and replaces one that is a file
    match d.tree.get? p, d.tree.get? q with
    | none, _ => .error .noEnt
    | some _, some (.dir _) => .error .exist
    | some (.dir _), some (.file _ _) => .error .notDir
    | some _, _ =>
      if p <+: q ∨ q <+: p then .error .inval
      else if d.tree.hasParent q then .ok ((), d.renamed p q)
      else .error .noEnt

/-- The disk after a call that the environment made fail. -/
def spoiled (c : Choice) (d : Disk) : FsOp → Disk
  | .write p content =>
    match d.tree.get? p with
    | some (.file _ _) => d.put p (.file (content.take c.written) c.clock)
    | _ => d
  | _ => d

def fsStep (c : Choice) (op : FsOp) (d : Disk) : op.Reply × Disk :=
  if c.fails then (.error .io, spoiled c d op)
  else
    match effect c.clock d op with
    | .ok (v, d') => (.ok v, d')
    | .error e => (.error e, d)

abbrev FsProg (α : Type) := Prog FsOp FsOp.Reply α

/-! The calls as programs, under the names of package `os`. -/

namespace Os

abbrev readDir (p : Path) : FsProg (Except Errno (List DirEntry)) := Prog.lift (FsOp.readDir p)

abbrev stat (p : Path) : FsProg (Except Errno Node) := Prog.lift (FsOp.stat p)

abbrev walk (p : Path) : FsProg (Except Errno (List (Path × Node))) := Prog.lift (FsOp.walk p)

abbrev readFile (p : Path) : FsProg (Except Errno Bytes) := Prog.lift (FsOp.read p)

abbrev mkdir (p : Path) : FsProg (Except Errno Unit) := Prog.lift (FsOp.mkdir p)

abbrev create (p : Path) : FsProg (Except Errno Unit) := Prog.lift (FsOp.create p)

abbrev write (p : Path) (content : Bytes) : FsProg (Except Errno Unit) :=
  Prog.lift (FsOp.write p content)

abbrev openFile (p : Path) : FsProg (Except Errno Unit) := Prog.lift (FsOp.openFile p)

abbrev sync (p : Path) : FsProg (Except Errno Unit) := Prog.lift (FsOp.sync p)

abbrev close (p : Path) : FsProg (Except Errno Unit) := Prog.lift (FsOp.close p)

abbrev remove (p : Path) : FsProg (Except Errno Unit) := Prog.lift (FsOp.remove p)

abbrev rename (p q : Path) : FsProg (Except Errno Unit) := Prog.lift (FsOp.rename p q)

end Os

theorem wp_os {R : Choice → FsOp → Disk → Prop} {α : Type} {op : FsOp}
    {k : op.Reply → FsProg α} {Q : α → Disk → Prop} {C : Disk → Prop} {d : Disk} (hC : C d)
    (h : ∀ c, R c op d → Prog.wp fsStep R (k (fsStep c op d).1) Q C (fsStep c op d).2) :
    Prog.wp fsStep R (Prog.lift op >>= k) Q C d := ⟨hC, h⟩

/-! ## What each call can do -/

variable {c : Choice} {d : Disk} {p q : Path}

theorem fsStep_of_fails (h : c.fails = true) (op : FsOp) :
    fsStep c op d = (.error .io, spoiled c d op) := by
  rw [fsStep, if_pos h]

theorem fsStep_of_not_fails (h : c.fails = false) (op : FsOp) :
    fsStep c op d =
      match effect c.clock d op with
      | .ok (v, d') => (.ok v, d')
      | .error e => (.error e, d) := by
  rw [fsStep, if_neg (by simp [h])]

theorem fsStep_cases (c : Choice) (d : Disk) (op : FsOp) (h : spoiled c d op = d) :
    (∃ e, fsStep c op d = (.error e, d) ∧ (e = .io ∨ effect c.clock d op = .error e)) ∨
      ∃ v d', effect c.clock d op = .ok (v, d') ∧ fsStep c op d = (.ok v, d') := by
  cases hf : c.fails with
  | true => exact .inl ⟨.io, by rw [fsStep_of_fails hf, h], .inl rfl⟩
  | false =>
    rw [fsStep_of_not_fails hf]
    cases he : effect c.clock d op with
    | error e => exact .inl ⟨e, rfl, .inr rfl⟩
    | ok r => exact .inr ⟨r.1, r.2, rfl, rfl⟩

theorem fsStep_readDir (c : Choice) (d : Disk) (p : Path) :
    (∃ e, fsStep c (.readDir p) d = (.error e, d)) ∨
      ∃ x, d.tree.get? p = some (.dir x) ∧
        fsStep c (.readDir p) d = (.ok (d.tree.dirEntries p), d) := by
  rcases fsStep_cases c d (.readDir p) rfl with ⟨e, he, -⟩ | ⟨v, d', heffect, hstep⟩
  · exact .inl ⟨e, he⟩
  · simp only [effect] at heffect
    split at heffect
    · next x hx =>
      cases heffect
      exact .inr ⟨x, hx, hstep⟩
    · cases heffect
    · cases heffect

theorem fsStep_readDir_ok (hc : c.fails = false) {x : Int} (h : d.tree.get? p = some (.dir x)) :
    fsStep c (.readDir p) d = (.ok (d.tree.dirEntries p), d) := by
  rw [fsStep_of_not_fails hc]
  simp only [effect, h]

theorem fsStep_readDir_state (c : Choice) (d : Disk) (p : Path) :
    (fsStep c (.readDir p) d).2 = d := by
  rcases fsStep_readDir c d p with ⟨e, he⟩ | ⟨x, _, he⟩ <;> rw [he]

theorem run_readDir {α : Type} (c : Choice) (d : Disk) (p : Path)
    (k : Except Errno (List DirEntry) → FsProg α) :
    Prog.run fsStep c (Os.readDir p >>= k) d =
      Prog.run fsStep c (k (fsStep c (.readDir p) d).1) d := by
  show Prog.run fsStep c (k (fsStep c (.readDir p) d).1) (fsStep c (.readDir p) d).2 = _
  rw [fsStep_readDir_state]

theorem fsStep_readDir_congr {d' : Disk} (c : Choice) (h : d'.tree.get? p = d.tree.get? p)
    (hc : ∀ m, d'.tree.get? (p ++ [m]) = d.tree.get? (p ++ [m])) :
    (fsStep c (.readDir p) d').1 = (fsStep c (.readDir p) d).1 := by
  cases hf : c.fails with
  | true => rw [fsStep_of_fails hf, fsStep_of_fails hf]
  | false =>
    rw [fsStep_of_not_fails hf, fsStep_of_not_fails hf]
    simp only [effect, h, Tree.dirEntries_congr hc]
    cases d.tree.get? p with
    | none => rfl
    | some n => cases n <;> rfl

theorem fsStep_stat (c : Choice) (d : Disk) (p : Path) :
    (∃ e, fsStep c (.stat p) d = (.error e, d)) ∨
      ∃ n, d.tree.get? p = some n ∧ fsStep c (.stat p) d = (.ok n, d) := by
  rcases fsStep_cases c d (.stat p) rfl with ⟨e, he, -⟩ | ⟨v, d', heffect, hstep⟩
  · exact .inl ⟨e, he⟩
  · simp only [effect] at heffect
    split at heffect
    · next n hn =>
      cases heffect
      exact .inr ⟨_, hn, hstep⟩
    · cases heffect

theorem fsStep_stat_ok (hc : c.fails = false) {n : Node} (h : d.tree.get? p = some n) :
    fsStep c (.stat p) d = (.ok n, d) := by
  rw [fsStep_of_not_fails hc]
  simp only [effect, h]

theorem fsStep_stat_noEnt (hc : c.fails = false) (h : d.tree.get? p = none) :
    fsStep c (.stat p) d = (.error .noEnt, d) := by
  rw [fsStep_of_not_fails hc]
  simp only [effect, h]

theorem fsStep_walk (c : Choice) (d : Disk) (p : Path) :
    (∃ e, fsStep c (.walk p) d = (.error e, d) ∧ (e = .noEnt → d.tree.get? p = none)) ∨
      ∃ n, d.tree.get? p = some n ∧ fsStep c (.walk p) d = (.ok (d.tree.walk p), d) := by
  rcases fsStep_cases c d (.walk p) rfl with ⟨e, he, hwhy⟩ | ⟨v, d', heffect, hstep⟩
  · refine .inl ⟨e, he, ?_⟩
    rintro rfl
    have heffect := hwhy.resolve_left (by decide)
    simp only [effect] at heffect
    split at heffect
    · cases heffect
    · next hnone => exact hnone
  · simp only [effect] at heffect
    split at heffect
    · next n hn =>
      cases heffect
      exact .inr ⟨n, hn, hstep⟩
    · cases heffect

theorem fsStep_read (c : Choice) (d : Disk) (p : Path) :
    (∃ e, fsStep c (.read p) d = (.error e, d)) ∨
      ∃ x m, d.tree.get? p = some (.file x m) ∧ fsStep c (.read p) d = (.ok x, d) := by
  rcases fsStep_cases c d (.read p) rfl with ⟨e, he, -⟩ | ⟨v, d', heffect, hstep⟩
  · exact .inl ⟨e, he⟩
  · simp only [effect] at heffect
    split at heffect
    · next x m hx =>
      cases heffect
      exact .inr ⟨_, m, hx, hstep⟩
    · cases heffect

theorem of_made {made : Disk} {v : Unit} {d' : Disk}
    (h : (if (d.tree.get? p).isSome then Except.error Errno.exist
      else if d.tree.hasParent p then .ok ((), made) else .error .noEnt) = .ok (v, d')) :
    d.tree.get? p = none ∧ d.tree.hasParent p = true ∧ made = d' := by
  split at h
  · cases h
  · next hnone =>
    split at h
    · next hparent =>
      cases h
      exact ⟨Option.not_isSome_iff_eq_none.mp hnone, hparent, rfl⟩
    · cases h

theorem fsStep_mkdir (c : Choice) (d : Disk) (p : Path) :
    (∃ e, fsStep c (.mkdir p) d = (.error e, d)) ∨
      d.tree.get? p = none ∧ d.tree.hasParent p = true ∧
        fsStep c (.mkdir p) d = (.ok (), d.put p (.dir c.clock)) := by
  rcases fsStep_cases c d (.mkdir p) rfl with ⟨e, he, -⟩ | ⟨v, d', heffect, hstep⟩
  · exact .inl ⟨e, he⟩
  · obtain ⟨hnone, hparent, rfl⟩ := of_made heffect
    exact .inr ⟨hnone, hparent, hstep⟩

theorem fsStep_create (c : Choice) (d : Disk) (p : Path) :
    (∃ e, fsStep c (.create p) d = (.error e, d)) ∨
      d.tree.get? p = none ∧ d.tree.hasParent p = true ∧
        fsStep c (.create p) d = (.ok (), d.put p (.file [] c.clock)) := by
  rcases fsStep_cases c d (.create p) rfl with ⟨e, he, -⟩ | ⟨v, d', heffect, hstep⟩
  · exact .inl ⟨e, he⟩
  · obtain ⟨hnone, hparent, rfl⟩ := of_made heffect
    exact .inr ⟨hnone, hparent, hstep⟩

theorem fsStep_write (c : Choice) (d : Disk) (p : Path) (content : Bytes) :
    (∃ e, fsStep c (.write p content) d = (.error e, d)) ∨
    (∃ e x m y, d.tree.get? p = some (.file x m) ∧
      fsStep c (.write p content) d = (.error e, d.put p (.file y c.clock))) ∨
    (∃ x m, d.tree.get? p = some (.file x m) ∧
      fsStep c (.write p content) d = (.ok (), d.put p (.file content c.clock))) := by
  cases hf : c.fails with
  | true =>
    rw [fsStep_of_fails hf]
    simp only [spoiled]
    cases h : d.tree.get? p with
    | none => exact Or.inl ⟨_, rfl⟩
    | some n =>
      cases n with
      | file x m => exact Or.inr (Or.inl ⟨_, x, m, _, rfl, rfl⟩)
      | dir _ => exact Or.inl ⟨_, rfl⟩
  | false =>
    rw [fsStep_of_not_fails hf]
    simp only [effect]
    cases h : d.tree.get? p with
    | none => exact Or.inl ⟨_, rfl⟩
    | some n =>
      cases n with
      | file x m => exact Or.inr (Or.inr ⟨x, m, rfl, rfl⟩)
      | dir _ => exact Or.inl ⟨_, rfl⟩

theorem fsStep_handle (c : Choice) (d : Disk) {op : FsOp}
    (h : (∃ p, op = .openFile p) ∨ (∃ p, op = .sync p) ∨ ∃ p, op = .close p) :
    (fsStep c op d).2 = d := by
  cases hf : c.fails with
  | true =>
    rw [fsStep_of_fails hf]
    rcases h with ⟨p, rfl⟩ | ⟨p, rfl⟩ | ⟨p, rfl⟩ <;> rfl
  | false =>
    rw [fsStep_of_not_fails hf]
    rcases h with ⟨p, rfl⟩ | ⟨p, rfl⟩ | ⟨p, rfl⟩
    · simp only [effect]
      cases (d.tree.get? p).isSome <;> rfl
    · rfl
    · rfl

theorem fsStep_remove (c : Choice) (d : Disk) (p : Path) :
    (∃ e, fsStep c (.remove p) d = (.error e, d) ∧ (e = .noEnt → d.tree.get? p = none)) ∨
      ∃ n, d.tree.get? p = some n ∧ (n.isDir = true → d.tree.children p = []) ∧
        fsStep c (.remove p) d = (.ok (), d.removed p) := by
  rcases fsStep_cases c d (.remove p) rfl with ⟨e, he, hwhy⟩ | ⟨v, d', heffect, hstep⟩
  · refine .inl ⟨e, he, ?_⟩
    rintro rfl
    have heffect := hwhy.resolve_left (by decide)
    simp only [effect] at heffect
    split at heffect
    · cases heffect
    · split at heffect <;> cases heffect
    · next hnone => exact hnone
  · simp only [effect] at heffect
    split at heffect
    · next x m hx =>
      cases heffect
      exact .inr ⟨_, hx, fun hdir => absurd hdir Bool.false_ne_true, hstep⟩
    · next m hx =>
      split at heffect
      · next hempty =>
        cases heffect
        exact .inr ⟨_, hx, fun _ => hempty, hstep⟩
      · cases heffect
    · cases heffect

theorem fsStep_remove_ok (hc : c.fails = false) {x : Int} (h : d.tree.get? p = some (.dir x))
    (hempty : d.tree.children p = []) : fsStep c (.remove p) d = (.ok (), d.removed p) := by
  rw [fsStep_of_not_fails hc]
  simp only [effect, h, hempty, if_true]

theorem fsStep_remove_noEnt (hc : c.fails = false) (h : d.tree.get? p = none) :
    fsStep c (.remove p) d = (.error .noEnt, d) := by
  rw [fsStep_of_not_fails hc]
  simp only [effect, h]

theorem fsStep_rename (c : Choice) (d : Disk) (p q : Path) :
    (∃ e, fsStep c (.rename p q) d = (.error e, d)) ∨
      ∃ n, d.tree.get? p = some n ∧ (∀ m, d.tree.get? q = some m → m.isDir = false ∧
          n.isDir = false) ∧ ¬ p <+: q ∧ ¬ q <+: p ∧ d.tree.hasParent q = true ∧
        fsStep c (.rename p q) d = (.ok (), d.renamed p q) := by
  rcases fsStep_cases c d (.rename p q) rfl with ⟨e, he, -⟩ | ⟨v, d', heffect, hstep⟩
  · exact .inl ⟨e, he⟩
  · simp only [effect] at heffect
    split at heffect
    · cases heffect
    · cases heffect
    · cases heffect
    · next n hp hnotDir hnotFile =>
      split at heffect
      · cases heffect
      · next hpre =>
        split at heffect
        · next hparent =>
          cases heffect
          obtain ⟨h1, h2⟩ := not_or.mp hpre
          refine .inr ⟨n, hp, fun m hm => ?_, h1, h2, hparent, hstep⟩
          -- the target is no directory, and a directory does not replace a file
          cases m with
          | dir x => exact (hnotDir x hm).elim
          | file x y =>
            cases n with
            | dir z => exact (hnotFile z x y hm rfl).elim
            | file _ _ => exact ⟨rfl, rfl⟩
        · cases heffect

end Infra
