import NodeAgent.Containers.Container
import NodeAgent.Logs.JournaldReader

/-!
# The log parsers of the containers (`runLogParser`, `Close`)

A container starts a parser when it is made, again when an id conflict gives it another cgroup, and
for each log file that a process of it opens. `Close` stops the parsers in its table, and takes out
the subscriber of the cgroup it has at that time. A second parser of the journal replaces the first
one in the table, which is then never stopped.

* `Logging.close_releases_iff` — when `Close` releases what the container has started
-/

namespace Containers

open Infra Logs

inductive ContainerType where
  | unknown
  | standaloneProcess
  | docker
  | crio
  | containerd
  | lxc
  | systemdService
  | sandbox
  | talosRuntime
  deriving DecidableEq

/-- The keys of `logParsers`: the path of a log file, `journald` and `stdout/stderr`. -/
inductive LogSource where
  | file (logPath : String)
  | journald
  | stdout
  deriving DecidableEq

/-- The function `stop` of a `LogParser`. -/
inductive StopAction where
  /-- `reader.Stop` of a tail reader -/
  | stopReader
  /-- `JournaldUnsubscribe(c.cgroup)`, with the cgroup that the container has then -/
  | unsubscribe
  deriving DecidableEq

structure LogParser where
  /-- which parser it is, of all that `NewParser` made -/
  parser : Nat
  stop : StopAction
  deriving DecidableEq

structure LogContainer where
  cgroup : Cgroup
  containerType : ContainerType
  /-- `metadata.logPath` -/
  logPath : String
  logParsers : Dict LogSource LogParser
  closed : Bool

structure StartedParser where
  owner : Nat
  source : LogSource
  stopped : Bool
  deriving DecidableEq

/-- The log parsers of all containers. The channel of a parser of the journal has its number. -/
structure Logging where
  /-- `nil` where `JournaldInit` failed -/
  journaldReader : Option JournaldReader
  containers : List LogContainer
  parsers : List StartedParser

structure LogEnv where
  /-- log parsing is disabled by a flag, or for a process of the container -/
  disabled : Bool
  /-- `NewTailReader` gives no error for the path -/
  tails : String → Bool

namespace Logging

def start (initialized : Bool) : Logging where
  journaldReader := if initialized then some JournaldReader.new else none
  containers := []
  parsers := []

def journaldUnsubscribe (s : Logging) (cg : Cgroup) : Logging :=
  { s with journaldReader := s.journaldReader.map (·.unsubscribe cg.id) }

def stopLogParser (k : LogContainer) (s : Logging) (p : LogParser) : Logging :=
  let s := match p.stop with
    | .stopReader => s
    | .unsubscribe => s.journaldUnsubscribe k.cgroup
  { s with parsers := s.parsers.modify p.parser (fun q => { q with stopped := true }) }

/-- `NewParser` makes a parser, and it is put in the table of the container. -/
def addParser (s : Logging) (c : Nat) (k : LogContainer) (source : LogSource) (stop : StopAction) :
    Logging :=
  { s with
    containers := s.containers.set c
      { k with logParsers := k.logParsers.insert source ⟨s.parsers.length, stop⟩ }
    parsers := s.parsers ++ [⟨c, source, false⟩] }

/-- A parser of a file. It is stopped at once where the file cannot be opened. -/
def tail (env : LogEnv) (s : Logging) (c : Nat) (k : LogContainer) (source : LogSource)
    (path : String) : Logging :=
  if env.tails path then s.addParser c k source .stopReader
  else { s with parsers := s.parsers ++ [⟨c, source, true⟩] }

def subscribeJournal (s : Logging) (c : Nat) (k : LogContainer) : Logging :=
  match s.journaldReader with
  | none => s
  | some r =>
    match r.subscribe k.cgroup.id s.parsers.length with
    | none => s
    | some r => { s.addParser c k .journald .unsubscribe with journaldReader := some r }

/-- The parser of `stdout/stderr` is stopped and deleted. -/
def dropStdout (s : Logging) (c : Nat) (k : LogContainer) : Logging × LogContainer :=
  match k.logParsers.lookup .stdout with
  | none => (s, k)
  | some p =>
    let k' := { k with logParsers := k.logParsers.erase .stdout }
    ({ stopLogParser k s p with containers := s.containers.set c k' }, k')

/-- `runLogParser(logPath)` of the container `c`, where `none` is the empty path. -/
def runLogParser (env : LogEnv) (s : Logging) (c : Nat) (k : LogContainer)
    (logPath : Option String) : Logging :=
  if env.disabled then s
  else
    match logPath with
    | some path =>
      if .file path ∈ k.logParsers then s else s.tail env c k (.file path) path
    | none =>
      match k.containerType with
      | .systemdService => s.subscribeJournal c k
      | .docker | .containerd | .crio =>
        if k.logPath = "" then s
        else
          let (s, k) := s.dropStdout c k
          s.tail env c k .stdout k.logPath
      | _ => s

/-- `Close` stops every parser in the table. -/
def closeContainer (s : Logging) (c : Nat) (k : LogContainer) : Logging :=
  let s := (k.logParsers.entries.map (·.2)).foldl (stopLogParser k) s
  { s with containers := s.containers.set c { k with closed := true } }

/-! ## The steps -/

inductive LogOp where
  /-- `NewContainer` -/
  | create (cg : Cgroup) (containerType : ContainerType) (logPath : String)
  /-- `getOrCreateContainer` finds the id of the container for another cgroup -/
  | conflict (c : Nat) (cg : Cgroup) (containerType : ContainerType) (logPath : String)
  /-- a process of the container opens a log file -/
  | openLog (c : Nat) (path : String)
  | close (c : Nat)

/-- A closed container is in none of the maps of the registry. -/
def openContainer (s : Logging) (c : Nat) : Option LogContainer :=
  s.containers[c]?.filter (fun k => !k.closed)

def newLogContainer (cg : Cgroup) (containerType : ContainerType) (logPath : String) :
    LogContainer :=
  ⟨cg, containerType, logPath, ∅, false⟩

def step (s : Logging) (op : LogEnv × LogOp) : Logging :=
  match op.2 with
  | .create cg containerType logPath =>
    let k := newLogContainer cg containerType logPath
    runLogParser op.1 { s with containers := s.containers ++ [k] } s.containers.length k none
  | .conflict c cg containerType logPath =>
    match s.openContainer c with
    | none => s
    | some k =>
      if cg.createdAt > k.cgroup.createdAt then
        let k := { k with cgroup := cg, containerType, logPath }
        runLogParser op.1 { s with containers := s.containers.set c k } c k none
      else s
  | .openLog c path =>
    match s.openContainer c with
    | none => s
    | some k => runLogParser op.1 s c k (some path)
  | .close c =>
    match s.openContainer c with
    | none => s
    | some k => s.closeContainer c k

def run (s : Logging) (ops : List (LogEnv × LogOp)) : Logging :=
  ops.foldl step s

/-! ## What a state holds -/

def entry (s : Logging) (cg : String) : Option Channel :=
  s.journaldReader.bind (fun r => r.subscribers.lookup cg)

def owner (s : Logging) (ch : Channel) : Option Nat :=
  s.parsers[ch]?.map StartedParser.owner

def found (s : Logging) (c : Nat) (source : LogSource) : Option LogParser :=
  s.containers[c]?.bind (fun k => k.logParsers.lookup source)

def isClosed (s : Logging) (c : Nat) : Bool :=
  s.containers[c]?.any LogContainer.closed

variable {s : Logging} {c : Nat} {k : LogContainer} {env : LogEnv}

theorem of_openContainer (h : s.openContainer c = some k) :
    s.containers[c]? = some k ∧ k.closed = false := by
  obtain ⟨hk, hopen⟩ := Option.filter_eq_some_iff.mp h
  exact ⟨hk, by simpa using hopen⟩

theorem found_of_container (hk : s.containers[c]? = some k) (source : LogSource) :
    s.found c source = k.logParsers.lookup source := by
  rw [found, hk, Option.bind_some]

theorem isClosed_of_container (hk : s.containers[c]? = some k) : s.isClosed c = k.closed := by
  rw [isClosed, hk, Option.any_some]

def stopAction : LogSource → StopAction
  | .journald => .unsubscribe
  | .file _ => .stopReader
  | .stdout => .stopReader

/-- **How the tables, the started parsers and the subscribers belong together.** -/
structure Consistent (s : Logging) : Prop where
  table : ∀ {c source p}, s.found c source = some p →
    p.stop = stopAction source ∧
      ∃ q, s.parsers[p.parser]? = some q ∧ q.owner = c ∧ q.source = source
  /-- a running parser of a file is in the table of its container -/
  running : ∀ {i : Nat} {q}, s.parsers[i]? = some q → q.stopped = false → q.source ≠ .journald →
    ∃ p, s.found q.owner q.source = some p ∧ p.parser = i
  /-- a container that has started a parser of the journal has one in its table -/
  journald : ∀ {i : Nat} {q}, s.parsers[i]? = some q → q.source = .journald →
    s.found q.owner .journald ≠ none
  /-- it is only stopped by `Close` -/
  stopped : ∀ {i : Nat} {q}, s.parsers[i]? = some q → q.source = .journald → q.stopped = true →
    s.isClosed q.owner = true
  entries : ∀ {cg ch}, s.entry cg = some ch → ∃ q, s.parsers[ch]? = some q ∧ q.source = .journald

/-! ## One parser more -/

/-- A parser more, which is put in the table of its container unless it is stopped. -/
theorem Consistent.append (h : s.Consistent) {s' : Logging} {q : StartedParser}
    (hparsers : s'.parsers = s.parsers ++ [q])
    (hfound : ∀ c source, s'.found c source =
      if q.stopped = false ∧ c = q.owner ∧ source = q.source then
        some ⟨s.parsers.length, stopAction source⟩ else s.found c source)
    (hclosed : ∀ c, s'.isClosed c = s.isClosed c)
    (hfile : q.source ≠ .journald → q.stopped = true ∨ s.found q.owner q.source = none)
    (hjournal : q.source = .journald → q.stopped = false)
    (hentries : ∀ {cg ch}, s'.entry cg = some ch →
      s.entry cg = some ch ∨ ch = s.parsers.length ∧ q.source = .journald) : s'.Consistent where
  table {c source p} hp := by
    rw [hparsers]
    rw [hfound] at hp
    split at hp
    · next hnew =>
      cases hp
      exact ⟨rfl, q, List.getElem?_concat_length, hnew.2.1.symm, hnew.2.2.symm⟩
    · obtain ⟨hstop, q', hq', hrest⟩ := h.table hp
      exact ⟨hstop, q', getElem?_concat_of_some hq', hrest⟩
  running {i q'} hq' hrun hsrc := by
    rw [hfound]
    rcases of_getElem?_concat (hparsers ▸ hq') with hq' | ⟨rfl, rfl⟩
    · obtain ⟨p, hp, hi⟩ := h.running hq' hrun hsrc
      refine ⟨p, ?_, hi⟩
      rw [if_neg, hp]
      -- a parser of this file would have been in the table before
      rintro ⟨hnew, hown, hsame⟩
      rcases hfile (hsame ▸ hsrc) with hstop | hnone
      · exact absurd hnew (by rw [hstop]; decide)
      · rw [hown, hsame, hnone] at hp
        cases hp
    · exact ⟨_, if_pos ⟨hrun, rfl, rfl⟩, rfl⟩
  journald {i q'} hq' hsrc := by
    rw [hfound]
    split
    · exact Option.some_ne_none _
    · next hold =>
      rcases of_getElem?_concat (hparsers ▸ hq') with hq' | ⟨rfl, rfl⟩
      · exact h.journald hq' hsrc
      · exact absurd ⟨hjournal hsrc, rfl, hsrc.symm⟩ hold
  stopped {i q'} hq' hsrc hstop := by
    rw [hclosed]
    rcases of_getElem?_concat (hparsers ▸ hq') with hq' | ⟨rfl, rfl⟩
    · exact h.stopped hq' hsrc hstop
    · exact absurd hstop (by rw [hjournal hsrc]; decide)
  entries {cg ch} hch := by
    rw [hparsers]
    rcases hentries hch with hold | ⟨rfl, hsrc⟩
    · obtain ⟨q', hq', hsrc⟩ := h.entries hold
      exact ⟨q', getElem?_concat_of_some hq', hsrc⟩
    · exact ⟨q, List.getElem?_concat_length, hsrc⟩

theorem found_addParser (hk : s.containers[c]? = some k) (source : LogSource) (c' : Nat)
    (source' : LogSource) :
    (s.addParser c k source (stopAction source)).found c' source' =
      if false = false ∧ c' = c ∧ source' = source then
        some ⟨s.parsers.length, stopAction source'⟩ else s.found c' source' := by
  show ((s.containers.set c _)[c']?).bind _ = _
  rw [getElem?_set_of_some hk]
  by_cases hc : c' = c
  · subst hc
    rw [if_pos rfl, Option.bind_some, Dict.lookup_insert_eq, found_of_container hk]
    by_cases hs : source' = source <;> simp [hs]
  · rw [if_neg hc, if_neg (fun h => hc h.2.1), found]

theorem isClosed_addParser (hk : s.containers[c]? = some k) (source : LogSource)
    (stop : StopAction) (c' : Nat) : (s.addParser c k source stop).isClosed c' = s.isClosed c' := by
  show ((s.containers.set c _)[c']?).any _ = _
  rw [getElem?_set_of_some hk]
  by_cases hc : c' = c
  · rw [if_pos hc, hc, isClosed_of_container hk, Option.any_some]
  · rw [if_neg hc, isClosed]

theorem Consistent.tail (h : s.Consistent) (hk : s.containers[c]? = some k) {source : LogSource}
    (hsrc : stopAction source = .stopReader) (hnew : k.logParsers.lookup source = none)
    (path : String) : (s.tail env c k source path).Consistent := by
  have hfile : source ≠ .journald := by
    rintro rfl
    cases hsrc
  unfold Logging.tail
  split
  · exact h.append (q := ⟨c, source, false⟩) rfl (hsrc ▸ found_addParser hk source)
      (isClosed_addParser hk source _) (fun _ => .inr ((found_of_container hk source).trans hnew))
      (fun _ => rfl) .inl
  · exact h.append (q := ⟨c, source, true⟩) rfl (fun _ _ => by simp [found]) (fun _ => rfl)
      (fun _ => .inl rfl) (fun hj => absurd hj hfile) .inl

theorem Consistent.subscribeJournal (h : s.Consistent) (hk : s.containers[c]? = some k) :
    (s.subscribeJournal c k).Consistent := by
  unfold Logging.subscribeJournal
  split
  · exact h
  · next r hr =>
    split
    · exact h
    · next r' hr' =>
      refine h.append (q := ⟨c, .journald, false⟩) rfl (found_addParser hk .journald)
        (isClosed_addParser hk .journald _) (fun hne => absurd rfl hne) (fun _ => rfl) ?_
      intro cg ch hch
      have hch' : r'.subscribers.lookup cg = some ch := hch
      rw [(JournaldReader.of_subscribe hr').2] at hch'
      rcases Dict.of_lookup_insert hch' with ⟨-, rfl⟩ | ⟨-, hold⟩
      · exact .inr ⟨rfl, rfl⟩
      · exact .inl (by rw [entry, hr, Option.bind_some, hold])

/-! ## One parser stopped -/

theorem containers_stopLogParser (s : Logging) (p : LogParser) :
    (stopLogParser k s p).containers = s.containers := by
  unfold stopLogParser
  split <;> rfl

theorem getElem?_stopLogParser (s : Logging) (p : LogParser) (i : Nat) :
    (stopLogParser k s p).parsers[i]? =
      s.parsers[i]?.map (fun q => if p.parser = i then { q with stopped := true } else q) := by
  unfold stopLogParser
  split <;>
  · show (s.parsers.modify p.parser _)[i]? = _
    rw [List.getElem?_modify, Option.map_eq_map]

theorem entry_stopLogParser (s : Logging) (p : LogParser) (cg : String) :
    (stopLogParser k s p).entry cg =
      if p.stop = .unsubscribe ∧ cg = k.cgroup.id then none else s.entry cg := by
  unfold stopLogParser
  split
  · next hstop =>
    rw [if_neg (fun h => by rw [h.1] at hstop; cases hstop)]
    rfl
  · next hstop =>
    simp only [hstop, true_and]
    show (s.journaldReader.map _).bind _ = _
    cases hr : s.journaldReader with
    | none => rw [entry, hr]; simp
    | some r =>
      rw [entry, hr, Option.map_some, Option.bind_some, Option.bind_some,
        JournaldReader.lookup_unsubscribe]

/-! ## Some parsers stopped -/

section

variable {ps : List LogParser} {k' : LogContainer}

theorem containers_stopAll : ∀ (ps : List LogParser) (s : Logging),
    (ps.foldl (stopLogParser k) s).containers = s.containers
  | [], _ => rfl
  | p :: ps, s => (containers_stopAll ps _).trans (containers_stopLogParser s p)

theorem getElem?_stopAll (i : Nat) : ∀ (ps : List LogParser) (s : Logging),
    (ps.foldl (stopLogParser k) s).parsers[i]? =
      s.parsers[i]?.map
        (fun q => if i ∈ ps.map LogParser.parser then { q with stopped := true } else q)
  | [], s => by simp
  | p :: ps, s => by
    rw [List.foldl_cons, getElem?_stopAll i ps, getElem?_stopLogParser, Option.map_map]
    congr 1
    funext q
    simp only [Function.comp_apply, List.map_cons, List.mem_cons]
    by_cases hi : p.parser = i
    · simp [hi]
    · simp [hi, Ne.symm hi]

theorem entry_stopAll (cg : String) : ∀ (ps : List LogParser) (s : Logging),
    (ps.foldl (stopLogParser k) s).entry cg =
      if (∃ p ∈ ps, p.stop = .unsubscribe) ∧ cg = k.cgroup.id then none else s.entry cg
  | [], s => by simp
  | p :: ps, s => by
    rw [List.foldl_cons, entry_stopAll cg ps, entry_stopLogParser]
    simp only [List.exists_mem_cons_iff, or_and_right, ite_or]
    split_ifs <;> rfl

/-- The container `k` is written back as `k'`, after the parsers `ps` of it were stopped. -/
structure Replaces (k : LogContainer) (ps : List LogParser) (k' : LogContainer) : Prop where
  sub : ∀ {source p}, k'.logParsers.lookup source = some p → k.logParsers.lookup source = some p
  /-- only a stopped parser of a file leaves the table -/
  kept : ∀ {source p}, k.logParsers.lookup source = some p →
    k'.logParsers.lookup source = some p ∨ source ≠ .journald ∧ p ∈ ps
  mem : ∀ {p}, p ∈ ps →
    ∃ source, k.logParsers.lookup source = some p ∧ (source = .journald → k'.closed = true)
  closed : k.closed = true → k'.closed = true

def replaced (s : Logging) (c : Nat) (k : LogContainer) (ps : List LogParser) (k' : LogContainer) :
    Logging :=
  { ps.foldl (stopLogParser k) s with containers := s.containers.set c k' }

theorem found_replaced (hk : s.containers[c]? = some k) (c' : Nat) (source : LogSource) :
    (s.replaced c k ps k').found c' source =
      if c' = c then k'.logParsers.lookup source else s.found c' source := by
  show ((s.containers.set c k')[c']?).bind _ = _
  rw [getElem?_set_of_some hk]
  split
  · rfl
  · rfl

theorem of_parser_replaced {i : Nat} {q' : StartedParser}
    (h : (s.replaced c k ps k').parsers[i]? = some q') :
    ∃ q, s.parsers[i]? = some q ∧ q'.owner = q.owner ∧ q'.source = q.source ∧
      (q'.stopped = true ↔ q.stopped = true ∨ i ∈ ps.map LogParser.parser) := by
  obtain ⟨q, hq, rfl⟩ := Option.map_eq_some_iff.mp ((getElem?_stopAll i ps s).symm.trans h)
  refine ⟨q, hq, ?_⟩
  split
  · next hmem => exact ⟨rfl, rfl, by simp [hmem]⟩
  · next hmem => exact ⟨rfl, rfl, by simp [hmem]⟩

theorem parser_replaced {i : Nat} {q : StartedParser} (h : s.parsers[i]? = some q) :
    ∃ q', (s.replaced c k ps k').parsers[i]? = some q' ∧ q'.owner = q.owner ∧
      q'.source = q.source ∧
      (q'.stopped = true ↔ q.stopped = true ∨ i ∈ ps.map LogParser.parser) := by
  have hsome : (s.replaced c k ps k').parsers[i]? = some _ :=
    (getElem?_stopAll i ps s).trans (by rw [h, Option.map_some])
  obtain ⟨q₀, hq₀, hrest⟩ := of_parser_replaced hsome
  obtain rfl : q = q₀ := Option.some.inj (h.symm.trans hq₀)
  exact ⟨_, hsome, hrest⟩

theorem Consistent.replaced (h : s.Consistent) (hk : s.containers[c]? = some k)
    (hr : Replaces k ps k') : (s.replaced c k ps k').Consistent where
  table {c' source p} hp := by
    have hold : s.found c' source = some p := by
      rw [found_replaced hk] at hp
      split at hp
      · next hc =>
        rw [hc, found_of_container hk]
        exact hr.sub hp
      · exact hp
    obtain ⟨hstop, q, hq, hown, hsrc⟩ := h.table hold
    obtain ⟨q', hq', hown', hsrc', -⟩ := parser_replaced hq
    exact ⟨hstop, q', hq', hown'.trans hown, hsrc'.trans hsrc⟩
  running {i q'} hq' hrun hne := by
    obtain ⟨q, hq, hown, hsrc, hstop⟩ := of_parser_replaced hq'
    rw [hown, hsrc, found_replaced hk]
    rw [hsrc] at hne
    have hnot : ¬ (q.stopped = true ∨ i ∈ ps.map LogParser.parser) := fun hor =>
      Bool.false_ne_true (hrun.symm.trans (hstop.mpr hor))
    obtain ⟨p, hp, rfl⟩ :=
      h.running hq (Bool.eq_false_iff.mpr fun ht => hnot (.inl ht)) hne
    refine ⟨p, ?_, rfl⟩
    split
    · next hc =>
      rw [hc, found_of_container hk] at hp
      rcases hr.kept hp with hp | ⟨-, hmem⟩
      · exact hp
      · exact absurd (.inr (List.mem_map_of_mem hmem)) hnot
    · exact hp
  journald {i q'} hq' hj := by
    obtain ⟨q, hq, hown, hsrc, -⟩ := of_parser_replaced hq'
    have hold := h.journald hq (hsrc.symm.trans hj)
    rw [hown, found_replaced hk]
    split
    · next hc =>
      rw [hc, found_of_container hk] at hold
      obtain ⟨p, hp⟩ := Option.ne_none_iff_exists'.mp hold
      rcases hr.kept hp with hp | ⟨hne, -⟩
      · exact Option.ne_none_iff_exists'.mpr ⟨p, hp⟩
      · exact absurd rfl hne
    · exact hold
  stopped {i q'} hq' hj hstopped := by
    obtain ⟨q, hq, hown, hsrc, hstop⟩ := of_parser_replaced hq'
    rw [hown]
    show ((s.containers.set c k')[q.owner]?).any _ = true
    rw [getElem?_set_of_some hk]
    rcases hstop.mp hstopped with hold | hmem
    · have hclosed := h.stopped hq (hsrc.symm.trans hj) hold
      split
      · next hc =>
        rw [hc, isClosed_of_container hk] at hclosed
        exact hr.closed hclosed
      · exact hclosed
    · -- it is one of those stopped now, so it is in the table of the container
      obtain ⟨p, hp, rfl⟩ := List.mem_map.mp hmem
      obtain ⟨source, hlook, hclose⟩ := hr.mem hp
      obtain ⟨-, q₀, hq₀, hown₀, hsrc₀⟩ := h.table ((found_of_container hk source).trans hlook)
      obtain rfl : q = q₀ := Option.some.inj (hq.symm.trans hq₀)
      rw [if_pos hown₀]
      exact hclose (hsrc₀.symm.trans (hsrc.symm.trans hj))
  entries {cg ch} hch := by
    have hold : s.entry cg = some ch := by
      have hch' := (entry_stopAll cg ps s).symm.trans hch
      split at hch'
      · cases hch'
      · exact hch'
    obtain ⟨q, hq, hj⟩ := h.entries hold
    obtain ⟨q', hq', -, hsrc, -⟩ := parser_replaced hq
    exact ⟨q', hq', hsrc.trans hj⟩

end

theorem Consistent.dropStdout (h : s.Consistent) (hk : s.containers[c]? = some k) :
    (s.dropStdout c k).1.Consistent ∧
      (s.dropStdout c k).1.containers[c]? = some (s.dropStdout c k).2 ∧
      (s.dropStdout c k).2.logParsers.lookup .stdout = none := by
  unfold Logging.dropStdout
  split
  · next hnone => exact ⟨h, hk, hnone⟩
  · next p hp =>
    have hr : Replaces k [p] { k with logParsers := k.logParsers.erase .stdout } := by
      refine ⟨fun hp' => (Dict.of_lookup_erase hp').2, fun {source p'} hp' => ?_, ?_, id⟩
      · by_cases hs : source = .stdout
        · subst hs
          obtain rfl : p = p' := Option.some.inj (hp.symm.trans hp')
          exact .inr ⟨by decide, List.mem_singleton_self p⟩
        · exact .inl ((AList.lookup_erase_ne hs).trans hp')
      · intro p' hp'
        obtain rfl := List.mem_singleton.mp hp'
        exact ⟨.stdout, hp, fun hs => nomatch hs⟩
    refine ⟨h.replaced hk hr, ?_, AList.lookup_erase _ _⟩
    show (s.containers.set c _)[c]? = _
    rw [getElem?_set_of_some hk, if_pos rfl]

theorem Consistent.tailStdout (h : s.Consistent) (hk : s.containers[c]? = some k) :
    ((s.dropStdout c k).1.tail env c (s.dropStdout c k).2 .stdout
      (s.dropStdout c k).2.logPath).Consistent := by
  obtain ⟨hs, hk', hnew⟩ := h.dropStdout hk
  exact hs.tail hk' rfl hnew _

theorem Consistent.runLogParser (h : s.Consistent) (hk : s.containers[c]? = some k)
    (logPath : Option String) : (runLogParser env s c k logPath).Consistent := by
  unfold Logging.runLogParser
  split
  · exact h
  split
  · next path =>
    split
    · exact h
    · next hnew => exact h.tail hk rfl (AList.lookup_eq_none.mpr hnew) path
  · cases k.containerType with
    | systemdService => exact h.subscribeJournal hk
    | docker | containerd | crio =>
      simp only
      split
      · exact h
      · exact h.tailStdout hk
    | _ => exact h

/-! ## The runs -/

theorem Consistent.newContainer (h : s.Consistent) (hempty : k.logParsers = ∅) :
    Consistent { s with containers := s.containers ++ [k] } := by
  have hfound : ∀ c source,
      Logging.found { s with containers := s.containers ++ [k] } c source = s.found c source := by
    intro c source
    unfold found
    rw [List.getElem?_append]
    split
    · rfl
    · next hge =>
      rw [List.getElem?_eq_none (not_lt.mp hge), List.getElem?_singleton]
      split <;> simp [hempty]
  refine ⟨fun hp => h.table (hfound _ _ ▸ hp), fun hq hrun hne => ?_, fun hq hj => ?_,
    fun hq hj hstop => ?_, h.entries⟩
  · rw [hfound]
    exact h.running hq hrun hne
  · rw [hfound]
    exact h.journald hq hj
  · obtain ⟨k', hk', hclosed⟩ := (Option.any_eq_true _ _).mp (h.stopped hq hj hstop)
    rw [isClosed, getElem?_concat_of_some hk', Option.any_some, hclosed]

theorem consistent_start (initialized : Bool) : (start initialized).Consistent where
  table hp := by cases hp
  running hq := by cases hq
  journald hq := by cases hq
  stopped hq := by cases hq
  entries {cg ch} hch := by
    cases initialized <;> cases hch

theorem mem_table_iff {p : LogParser} :
    p ∈ k.logParsers.entries.map (·.2) ↔ ∃ source, k.logParsers.lookup source = some p := by
  constructor
  · intro hp
    obtain ⟨e, he, rfl⟩ := List.mem_map.mp hp
    exact ⟨e.1, Dict.lookup_of_mem he⟩
  · rintro ⟨source, hp⟩
    exact List.mem_map.mpr ⟨⟨source, p⟩, AList.mem_lookup_iff.mp hp, rfl⟩

theorem replaces_close (k : LogContainer) :
    Replaces k (k.logParsers.entries.map (·.2)) { k with closed := true } := by
  refine ⟨id, Or.inl, fun {p} hp => ?_, fun _ => rfl⟩
  obtain ⟨source, hlook⟩ := mem_table_iff.mp hp
  exact ⟨source, hlook, fun _ => rfl⟩

theorem closeContainer_eq (s : Logging) (c : Nat) (k : LogContainer) :
    s.closeContainer c k =
      s.replaced c k (k.logParsers.entries.map (·.2)) { k with closed := true } := by
  rw [closeContainer, replaced, containers_stopAll]

theorem Consistent.step (h : s.Consistent) (op : LogEnv × LogOp) : (s.step op).Consistent := by
  obtain ⟨env, op⟩ := op
  cases op with
  | create cg containerType logPath =>
    refine (h.newContainer (k := newLogContainer cg containerType logPath) rfl).runLogParser ?_ none
    exact List.getElem?_concat_length
  | conflict c cg containerType logPath =>
    simp only [Logging.step]
    split
    · exact h
    · next k hk =>
      have hk := (of_openContainer hk).1
      split
      · have hr : Replaces k [] { k with cgroup := cg, containerType, logPath } :=
          ⟨id, Or.inl, fun hp => absurd hp List.not_mem_nil, id⟩
        refine (h.replaced hk hr).runLogParser ?_ none
        show (s.containers.set c _)[c]? = _
        rw [getElem?_set_of_some hk, if_pos rfl]
      · exact h
  | openLog c path =>
    simp only [Logging.step]
    split
    · exact h
    · next k hk => exact h.runLogParser (of_openContainer hk).1 (some path)
  | close c =>
    simp only [Logging.step]
    split
    · exact h
    · next k hk =>
      rw [closeContainer_eq]
      exact h.replaced (of_openContainer hk).1 (replaces_close k)

theorem Consistent.run (h : s.Consistent) (ops : List (LogEnv × LogOp)) :
    (s.run ops).Consistent :=
  List.foldlRecOn (motive := fun s : Logging => s.Consistent) ops Logging.step h
    fun _ h op _ => h.step op

/-! ## `Close` -/

/-- What `Close` of the container `c` is for. -/
structure Released (c : Nat) (before after : Logging) : Prop where
  /-- none of its subscribers remains -/
  own : ∀ cg ch, after.entry cg = some ch → after.owner ch ≠ some c
  /-- those of other containers remain -/
  others : ∀ cg ch, before.entry cg = some ch → before.owner ch ≠ some c → after.entry cg = some ch
  /-- its parsers are stopped -/
  stopped : ∀ (i : Nat) q, after.parsers[i]? = some q → q.owner = c → q.stopped = true

/-- The container has what it has subscribed under the cgroup it has now. -/
structure Owns (s : Logging) (c : Nat) (k : LogContainer) : Prop where
  /-- it has started one parser of the journal at most, which is in its table -/
  single : ∀ (i : Nat) q, s.parsers[i]? = some q → q.owner = c → q.source = .journald →
    (k.logParsers.lookup .journald).map LogParser.parser = some i
  current : ∀ cg ch, s.entry cg = some ch → s.owner ch = some c → cg = k.cgroup.id
  /-- if it has such a parser, then no other container has subscribed under this cgroup -/
  alone : k.logParsers.lookup .journald ≠ none →
    ∀ ch, s.entry k.cgroup.id = some ch → s.owner ch = some c

section

variable (h : s.Consistent) (hk : s.containers[c]? = some k)

include h hk in
theorem unsubscribes_iff :
    (∃ p ∈ k.logParsers.entries.map (·.2), p.stop = .unsubscribe) ↔
      k.logParsers.lookup .journald ≠ none := by
  constructor
  · rintro ⟨p, hp, hstop⟩
    obtain ⟨source, hlook⟩ := mem_table_iff.mp hp
    have hact := hstop.symm.trans (h.table ((found_of_container hk source).trans hlook)).1
    cases source with
    | journald => exact Option.ne_none_iff_exists'.mpr ⟨p, hlook⟩
    | file path => cases hact
    | stdout => cases hact
  · intro hne
    obtain ⟨p, hp⟩ := Option.ne_none_iff_exists'.mp hne
    exact ⟨p, mem_table_iff.mpr ⟨_, hp⟩, (h.table ((found_of_container hk .journald).trans hp)).1⟩

include h hk in
theorem entry_closeContainer (cg : String) :
    (s.closeContainer c k).entry cg =
      if k.logParsers.lookup .journald ≠ none ∧ cg = k.cgroup.id then none else s.entry cg := by
  rw [closeContainer_eq]
  refine (entry_stopAll cg _ s).trans ?_
  simp only [unsubscribes_iff h hk]

theorem owner_closeContainer (s : Logging) (c : Nat) (k : LogContainer) (ch : Channel) :
    (s.closeContainer c k).owner ch = s.owner ch := by
  rw [closeContainer_eq]
  show ((_ : List StartedParser)[ch]?).map _ = _
  rw [owner, replaced, getElem?_stopAll, Option.map_map]
  congr 1
  funext q
  simp only [Function.comp_apply]
  split <;> rfl

include h hk in
theorem owns_of_released (hopen : k.closed = false) (hr : Released c s (s.closeContainer c k)) :
    s.Owns c k where
  single i q hq hown hj := by
    have hrun : q.stopped ≠ true := fun hstop => by
      have hclosed := h.stopped hq hj hstop
      rw [hown, isClosed_of_container hk, hopen] at hclosed
      cases hclosed
    -- it was running before, so it is one of those that are stopped
    obtain ⟨q', hq', hown', -, hstop⟩ := parser_replaced hq
    have hstopped := hr.stopped i q' (closeContainer_eq s c k ▸ hq') (hown'.trans hown)
    obtain ⟨p, hp, rfl⟩ := List.mem_map.mp ((hstop.mp hstopped).resolve_left hrun)
    obtain ⟨source, hlook⟩ := mem_table_iff.mp hp
    obtain ⟨-, q₀, hq₀, -, hsrc⟩ := h.table ((found_of_container hk source).trans hlook)
    obtain rfl : q = q₀ := Option.some.inj (hq.symm.trans hq₀)
    rw [← hj, hsrc, hlook, Option.map_some]
  current cg ch hch hown := by
    have hnone := hr.own cg ch
    rw [entry_closeContainer h hk, owner_closeContainer] at hnone
    by_contra hcg
    exact hnone ((if_neg fun hand => hcg hand.2).trans hch) hown
  alone hne ch hch := by
    by_contra hown
    have hstay := hr.others _ ch hch hown
    rw [entry_closeContainer h hk, if_pos ⟨hne, rfl⟩] at hstay
    cases hstay

include h hk in
theorem released_of_owns (ho : s.Owns c k) : Released c s (s.closeContainer c k) where
  own cg ch hch hown := by
    rw [entry_closeContainer h hk] at hch
    rw [owner_closeContainer] at hown
    split at hch
    · cases hch
    · next hnot =>
      -- the parser of the journal is in the table, and its cgroup is the one taken out
      obtain ⟨q, hq, hj⟩ := h.entries hch
      have hq' : q.owner = c := by
        rw [owner, hq, Option.map_some] at hown
        exact Option.some.inj hown
      have htable := h.journald hq hj
      rw [hq', found_of_container hk] at htable
      exact hnot ⟨htable, ho.current cg ch hch hown⟩
  others cg ch hch hown := by
    rw [entry_closeContainer h hk, if_neg]
    · exact hch
    · rintro ⟨hne, rfl⟩
      exact hown (ho.alone hne ch hch)
  stopped i q' hq' hown := by
    obtain ⟨q, hq, hown', -, hstop⟩ := of_parser_replaced (closeContainer_eq s c k ▸ hq')
    rw [hown'] at hown
    refine hstop.mpr ?_
    by_cases hrun : q.stopped = true
    · exact .inl hrun
    · refine .inr (List.mem_map.mpr ?_)
      by_cases hj : q.source = .journald
      · obtain ⟨p, hp, hi⟩ := Option.map_eq_some_iff.mp (ho.single i q hq hown hj)
        exact ⟨p, mem_table_iff.mpr ⟨_, hp⟩, hi⟩
      · obtain ⟨p, hp, hi⟩ := h.running hq (Bool.eq_false_iff.mpr hrun) hj
        rw [hown, found_of_container hk] at hp
        exact ⟨p, mem_table_iff.mpr ⟨_, hp⟩, hi⟩

end

/-- **After any sequence of containers made, id conflicts, log files opened and containers closed,
`Close` of a container takes out its subscribers and no others, and stops all its parsers, if and
only if it has started one parser of the journal at most, under the cgroup that it has now.** -/
theorem close_releases_iff (initialized : Bool) (ops : List (LogEnv × LogOp)) (env : LogEnv)
    (hopen : ((start initialized).run ops).openContainer c = some k) :
    Released c ((start initialized).run ops) (((start initialized).run ops).step (env, .close c)) ↔
      ((start initialized).run ops).Owns c k := by
  obtain ⟨hk, hclosed⟩ := of_openContainer hopen
  have hstep : ((start initialized).run ops).step (env, .close c) =
      ((start initialized).run ops).closeContainer c k := by
    simp only [step, hopen]
  have hconsistent := (consistent_start initialized).run ops
  rw [hstep]
  exact ⟨owns_of_released hconsistent hk hclosed, released_of_owns hconsistent hk⟩

def quiet : LogEnv := ⟨false, fun _ => true⟩

def oneCgroup : List (LogEnv × LogOp) :=
  [(quiet, .create ⟨"/system.slice/a.service", 1⟩ .systemdService "")]

/-- Two services, with a parser of the journal each. -/
def twoServices : List (LogEnv × LogOp) :=
  oneCgroup ++ [(quiet, .create ⟨"/system.slice/b.service", 1⟩ .systemdService "")]

/-- The subscriber of the first one is taken out, and that of the second one remains. -/
theorem close_releases_service :
    let s := (start true).run twoServices
    Released 0 s (s.step (quiet, .close 0)) ∧
      (s.step (quiet, .close 0)).entry "/system.slice/b.service" = some 1 := by
  intro s
  have howns : s.Owns 0 ⟨⟨"/system.slice/a.service", 1⟩, .systemdService, "",
      AList.insert .journald ⟨0, .unsubscribe⟩ ∅, false⟩ := by
    refine ⟨fun i q hq hown _ => ?_, fun cg ch hch hown => ?_, fun _ ch hch => ?_⟩
    · cases i with
      | zero => rfl
      | succ i =>
        cases i with
        | zero =>
          cases hq
          cases hown
        | succ i => cases hq
    · rcases Dict.of_lookup_insert (m := AList.insert "/system.slice/a.service" 0 ∅) hch with
        ⟨-, rfl⟩ | ⟨-, hch⟩
      · cases hown
      · rcases Dict.of_lookup_insert hch with ⟨hcg, -⟩ | ⟨-, hold⟩
        · exact hcg
        · cases hold
    · cases hch
      rfl
  have hreleased := (close_releases_iff true twoServices quiet rfl).mpr howns
  exact ⟨hreleased, hreleased.others _ 1 rfl (by decide)⟩

def twoCgroups : List (LogEnv × LogOp) :=
  oneCgroup ++ [(quiet, .conflict 0 ⟨"/system.slice/a.service/main", 2⟩ .systemdService "")]

/-- The parser that the service has started first is not stopped, and its subscriber remains. -/
theorem conflict_keeps_subscriber :
    (((start true).run twoCgroups).step (quiet, .close 0)).entry "/system.slice/a.service" =
        some 0 ∧
      (((start true).run twoCgroups).step (quiet, .close 0)).parsers =
        [⟨0, .journald, false⟩, ⟨0, .journald, true⟩] ∧
      ¬ Released 0 ((start true).run twoCgroups)
        (((start true).run twoCgroups).step (quiet, .close 0)) := by
  refine ⟨by decide +kernel, by decide +kernel, fun hr => ?_⟩
  exact hr.own "/system.slice/a.service" 0 (by decide +kernel) (by decide +kernel)

end Logging

end Containers
