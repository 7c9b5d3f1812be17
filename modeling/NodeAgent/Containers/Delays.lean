import NodeAgent.Containers.Container
import NodeAgent.Infra.Sequences

/-!
# The delays of a container

`updateDelays` adds to the delays of a container what the total of each process has grown since it
was read for the same pid. The table `delaysByPid` keeps no record of which process that was: a
start in the place of a process whose exit was missed leaves the total of the old one there.

* `delays_add_up` — when the delays are what the processes have waited
-/

namespace Containers

open Infra

/-- The totals of the process that has a pid now: which of all processes with this pid it is, and by
how much its totals have grown since they were last read. -/
structure TaskDelays where
  life : Nat
  grown : Delays

/-- A container with its `delays`, and the totals that were last read for each process. -/
structure DelayRun where
  container : Container
  cpu : Int
  disk : Int
  lastRead : Dict (Nat × Nat) Delays

def Delays.add (a b : Delays) : Delays := ⟨a.cpu + b.cpu, a.disk + b.disk⟩

namespace DelayRun

def last (s : DelayRun) (pid life : Nat) : Delays := (s.lastRead.lookup (pid, life)).getD ⟨0, 0⟩

/-- What `delaysByPid` has for a pid. -/
def kept (s : DelayRun) (pid : Nat) : Delays :=
  (s.container.delaysByPid.lookup pid).getD ⟨0, 0⟩

/-- The body of the loop of `updateDelays`. -/
def readDelays (s : DelayRun) (r : Nat × TaskDelays) : DelayRun :=
  let stats := (s.last r.1 r.2.life).add r.2.grown
  { container := { s.container with delaysByPid := s.container.delaysByPid.insert r.1 stats }
    cpu := s.cpu + (stats.cpu - (s.kept r.1).cpu)
    disk := s.disk + (stats.disk - (s.kept r.1).disk)
    lastRead := s.lastRead.insert (r.1, r.2.life) stats }

/-- The processes that `TaskstatsTGID` has statistics for. -/
def readings (s : DelayRun) (taskstats : Nat → Option TaskDelays) : List (Nat × TaskDelays) :=
  s.container.processes.keys.filterMap fun pid => (taskstats pid).map (pid, ·)

def updateDelays (s : DelayRun) (taskstats : Nat → Option TaskDelays) : DelayRun :=
  (s.readings taskstats).foldl readDelays s

end DelayRun

/-- A start in a pid that is taken, in the same cgroup, is a start like any other. -/
inductive DelayEvent where
  | start (pid : Nat) (beginTime : Option Time)
  | exit (pid : Nat) (oomKill : Bool) (now : Time)
  | update (taskstats : Nat → Option TaskDelays)

namespace DelayRun

def init (id : String) (cg : Cgroup) : DelayRun := ⟨newContainer id cg, 0, 0, ∅⟩

def next (s : DelayRun) : DelayEvent → DelayRun
  | .start pid beginTime => { s with container := onProcessStart s.container pid beginTime }
  | .exit pid oomKill now => { s with container := onProcessExit s.container pid oomKill now }
  | .update taskstats => s.updateDelays taskstats

/-- The delays are the sums, over all processes that were read, of what was last read. -/
def AddUp (s : DelayRun) : Prop :=
  s.cpu = Dict.sumOf Delays.cpu s.lastRead ∧ s.disk = Dict.sumOf Delays.disk s.lastRead

/-- For the pids that are read, the table sums up what was last read for their processes. -/
def Current (s : DelayRun) (f : Delays → Nat) (taskstats : Nat → Option TaskDelays) : Prop :=
  ((s.readings taskstats).map fun r => f (s.kept r.1)).sum =
    ((s.readings taskstats).map fun r => f (s.last r.1 r.2.life)).sum

/-- An update finds in the table the totals of the processes that it reads. -/
def Untouched (s : DelayRun) : DelayEvent → Prop
  | .update taskstats => s.Current Delays.cpu taskstats ∧ s.Current Delays.disk taskstats
  | _ => True

theorem nodup_readings (s : DelayRun) (taskstats : Nat → Option TaskDelays) :
    ((s.readings taskstats).map Prod.fst).Nodup := by
  rw [readings, List.map_filterMap]
  refine List.Nodup.filterMap ?_ s.container.processes.nodupKeys
  intro pid pid' b hb hb'
  simp only [Option.map_map, Option.mem_def, Option.map_eq_some_iff, Function.comp_apply] at hb hb'
  obtain ⟨_, _, rfl⟩ := hb
  obtain ⟨_, _, h⟩ := hb'
  exact h.symm

/-- One of the two delays, and the counter of the container for it. -/
structure Component (f : Delays → Nat) (get : DelayRun → Int) : Prop where
  add : ∀ a b : Delays, f (a.add b) = f a + f b
  read : ∀ s r, get (readDelays s r) =
    get s + (f ((s.last r.1 r.2.life).add r.2.grown) - f (s.kept r.1))

theorem cpuComponent : Component Delays.cpu cpu := ⟨fun _ _ => rfl, fun _ _ => rfl⟩

theorem diskComponent : Component Delays.disk disk := ⟨fun _ _ => rfl, fun _ _ => rfl⟩

variable {f : Delays → Nat} {get : DelayRun → Int}

theorem Component.sumOf_readDelays (hc : Component f get) (s : DelayRun) (r : Nat × TaskDelays) :
    Dict.sumOf f (s.readDelays r).lastRead = Dict.sumOf f s.lastRead + f r.2.grown := by
  have hzero : f ⟨0, 0⟩ = f ⟨0, 0⟩ + f ⟨0, 0⟩ := hc.add ⟨0, 0⟩ ⟨0, 0⟩
  show Dict.sumOf f (s.lastRead.insert _ _) = _
  cases hlast : s.lastRead.lookup (r.1, r.2.life) with
  | none =>
    rw [Dict.sumOf_new hlast, hc.add, last, hlast, Option.getD_none]
    omega
  | some d =>
    have hsum := Dict.sumOf_replace (f := f) hlast ((s.last r.1 r.2.life).add r.2.grown)
    rw [hc.add, last, hlast, Option.getD_some] at hsum
    rw [last, hlast, Option.getD_some]
    omega

theorem kept_readDelays {s : DelayRun} {r : Nat × TaskDelays} {pid : Nat} (h : pid ≠ r.1) :
    (s.readDelays r).kept pid = s.kept pid ∧ ∀ life, (s.readDelays r).last pid life =
      s.last pid life := by
  refine ⟨congrArg (Option.getD · _) (AList.lookup_insert_ne h), fun life => ?_⟩
  refine congrArg (Option.getD · _) (AList.lookup_insert_ne fun heq => h ?_)
  exact (Prod.mk.inj heq).1

theorem kept_readDelays_self (s : DelayRun) (r : Nat × TaskDelays) :
    (s.readDelays r).kept r.1 = (s.readDelays r).last r.1 r.2.life := by
  simp [kept, last, readDelays]

theorem Component.foldl_readDelays (hc : Component f get) : ∀ (rs : List (Nat × TaskDelays))
    (s : DelayRun), (rs.map Prod.fst).Nodup →
    get (rs.foldl readDelays s) + (rs.map fun r => f (s.kept r.1)).sum +
        Dict.sumOf f s.lastRead =
      get s + (rs.map fun r => f (s.last r.1 r.2.life)).sum +
        Dict.sumOf f (rs.foldl readDelays s).lastRead ∧
      Dict.sumOf f s.lastRead ≤ Dict.sumOf f (rs.foldl readDelays s).lastRead
  | [], s, _ => by simp
  | r :: rs, s, h => by
    obtain ⟨hr, hnodup⟩ := List.nodup_cons.mp h
    obtain ⟨hsum, hle⟩ := hc.foldl_readDelays rs (s.readDelays r) hnodup
    have hother : ∀ x ∈ rs, x.1 ≠ r.1 := fun x hx heq => hr (heq ▸ List.mem_map_of_mem hx)
    rw [List.map_congr_left fun x hx => congrArg f (kept_readDelays (hother x hx)).1,
      List.map_congr_left fun x hx => congrArg f ((kept_readDelays (hother x hx)).2 x.2.life),
      hc.read, hc.add] at hsum
    have hread := hc.sumOf_readDelays s r
    simp only [List.foldl_cons, List.map_cons, List.sum_cons]
    constructor <;> omega

theorem Component.update (hc : Component f get) {s : DelayRun}
    (taskstats : Nat → Option TaskDelays) (h : get s = Dict.sumOf f s.lastRead) :
    (get (s.updateDelays taskstats) = Dict.sumOf f (s.updateDelays taskstats).lastRead ∧
      get s ≤ get (s.updateDelays taskstats)) ↔ s.Current f taskstats := by
  obtain ⟨hsum, hle⟩ := hc.foldl_readDelays _ s (s.nodup_readings taskstats)
  rw [updateDelays, Current]
  constructor
  · rintro ⟨hkeep, -⟩
    omega
  · intro hcurrent
    constructor <;> omega

theorem step_addUp {s : DelayRun} (h : AddUp s) (e : DelayEvent) :
    ((next s e).AddUp ∧ s.cpu ≤ (next s e).cpu ∧ s.disk ≤ (next s e).disk) ↔ Untouched s e := by
  cases e with
  | start pid beginTime => exact iff_of_true ⟨h, le_refl _, le_refl _⟩ trivial
  | exit pid oomKill now => exact iff_of_true ⟨h, le_refl _, le_refl _⟩ trivial
  | update taskstats =>
    rw [Untouched, ← cpuComponent.update taskstats h.1, ← diskComponent.update taskstats h.2]
    exact and_and_and_comm

/-! ## Which process the table is about -/

/-- An update reads a process of this pid. -/
def Reads (pid life : Nat) (s : DelayRun) (e : DelayEvent) : Prop :=
  ∃ taskstats grown, e = .update taskstats ∧ (pid, ⟨life, grown⟩) ∈ s.readings taskstats

/-- The exit of the process of a pid is handled. -/
def Exits (pid : Nat) (_ : DelayRun) (e : DelayEvent) : Prop :=
  ∃ oomKill now, e = .exit pid oomKill now

def Never (_ : DelayRun) (_ : DelayEvent) : Prop := False

section

variable {s : DelayRun} {p pid life : Nat} {beginTime : Option Time} {oomKill : Bool} {now : Time}
  {taskstats : Nat → Option TaskDelays}

@[simp] theorem not_reads_start : ¬ Reads p life s (.start pid beginTime) :=
  fun ⟨_, _, he, _⟩ => nomatch he

@[simp] theorem not_reads_exit : ¬ Reads p life s (.exit pid oomKill now) :=
  fun ⟨_, _, he, _⟩ => nomatch he

@[simp] theorem reads_update : Reads p life s (.update taskstats) ↔
    ∃ grown, (p, ⟨life, grown⟩) ∈ s.readings taskstats :=
  ⟨fun ⟨_, grown, he, hr⟩ => ⟨grown, DelayEvent.update.inj he ▸ hr⟩,
    fun ⟨grown, hr⟩ => ⟨taskstats, grown, rfl, hr⟩⟩

@[simp] theorem not_exits_start : ¬ Exits p s (.start pid beginTime) :=
  fun ⟨_, _, he⟩ => nomatch he

@[simp] theorem exits_exit : Exits p s (.exit pid oomKill now) ↔ p = pid :=
  ⟨fun ⟨_, _, he⟩ => (DelayEvent.exit.inj he).1.symm, fun he => ⟨oomKill, now, by rw [he]⟩⟩

@[simp] theorem not_exits_update : ¬ Exits p s (.update taskstats) := fun ⟨_, _, he⟩ => nomatch he

@[simp] theorem not_never {e : DelayEvent} : ¬ Never s e := id

end

/-- Between the readings of two processes with one pid an exit of the pid is handled, and between
two readings of one process none is. -/
def Orderly (start : DelayRun) (pre : List DelayEvent) (e : DelayEvent) : Prop :=
  ∀ pid life, Reads pid life (pre.foldl next start) e →
    (∀ other, Since next (Reads pid other) (Exits pid) start pre → other = life) ∧
    (Since next (Reads pid life) Never start pre →
      Since next (Reads pid life) (Exits pid) start pre)

theorem foldl_readDelays_other {pid : Nat} : ∀ (rs : List (Nat × TaskDelays)) (s : DelayRun),
    pid ∉ rs.map Prod.fst → (rs.foldl readDelays s).kept pid = s.kept pid ∧
      ∀ life, (rs.foldl readDelays s).last pid life = s.last pid life
  | [], _, _ => ⟨rfl, fun _ => rfl⟩
  | r :: rs, s, h => by
    rw [List.map_cons, List.mem_cons, not_or] at h
    obtain ⟨hkept, hlast⟩ := foldl_readDelays_other rs (s.readDelays r) h.2
    obtain ⟨hkept', hlast'⟩ := kept_readDelays (s := s) h.1
    exact ⟨hkept.trans hkept', fun life => (hlast life).trans (hlast' life)⟩

theorem foldl_readDelays_read {pid : Nat} {task : TaskDelays} :
    ∀ (rs : List (Nat × TaskDelays)) (s : DelayRun), (rs.map Prod.fst).Nodup → (pid, task) ∈ rs →
      (rs.foldl readDelays s).kept pid = (rs.foldl readDelays s).last pid task.life ∧
      ∀ life, life ≠ task.life → (rs.foldl readDelays s).last pid life = s.last pid life
  | [], _, _, h => nomatch h
  | r :: rs, s, hnodup, h => by
    obtain ⟨hr, hrest⟩ := List.nodup_cons.mp hnodup
    rcases List.mem_cons.mp h with rfl | h
    · obtain ⟨hkept, hlast⟩ := foldl_readDelays_other rs (s.readDelays (pid, task)) hr
      rw [List.foldl_cons, hkept]
      refine ⟨?_, fun life hne => ?_⟩
      · rw [hlast]
        exact kept_readDelays_self s (pid, task)
      · rw [hlast]
        refine congrArg (Option.getD · _) (AList.lookup_insert_ne fun heq => hne ?_)
        exact (Prod.mk.inj heq).2
    · obtain ⟨hkept, hlast⟩ := foldl_readDelays_read rs (s.readDelays r) hrest h
      have hne : pid ≠ r.1 := fun heq => hr (heq ▸ List.mem_map_of_mem (f := Prod.fst) h)
      exact ⟨hkept, fun life hlife => (hlast life hlife).trans ((kept_readDelays hne).2 life)⟩

/-- The table has what was last read of the process that was read last, unless its exit was
handled. -/
structure Tallied (start : DelayRun) (pre : List DelayEvent) : Prop where
  addUp : (pre.foldl next start).AddUp
  read : ∀ pid life, Since next (Reads pid life) (Exits pid) start pre →
    (pre.foldl next start).kept pid = (pre.foldl next start).last pid life
  gone : ∀ pid, (∀ life, ¬ Since next (Reads pid life) (Exits pid) start pre) →
    (pre.foldl next start).kept pid = ⟨0, 0⟩
  unread : ∀ pid life, ¬ Since next (Reads pid life) Never start pre →
    (pre.foldl next start).last pid life = ⟨0, 0⟩

theorem Tallied.untouched {start : DelayRun} {pre : List DelayEvent} {e : DelayEvent}
    (h : Tallied start pre) (ho : Orderly start pre e) : Untouched (pre.foldl next start) e := by
  have hcurrent : ∀ taskstats, e = .update taskstats →
      ∀ r ∈ (pre.foldl next start).readings taskstats,
        (pre.foldl next start).kept r.1 = (pre.foldl next start).last r.1 r.2.life := by
    intro taskstats he r hr
    obtain ⟨hother, hself⟩ := ho r.1 r.2.life ⟨taskstats, r.2.grown, he, hr⟩
    by_cases hread : ∃ life, Since next (Reads r.1 life) (Exits r.1) start pre
    · obtain ⟨life, hlife⟩ := hread
      rw [h.read r.1 life hlife, hother life hlife]
    · have hnone := not_exists.mp hread
      rw [h.gone r.1 hnone, h.unread r.1 r.2.life fun hbefore => hnone _ (hself hbefore)]
  cases e with
  | start pid beginTime => trivial
  | exit pid oomKill now => trivial
  | update taskstats =>
    refine ⟨?_, ?_⟩ <;>
      exact congrArg List.sum (List.map_congr_left fun r hr => by rw [hcurrent taskstats rfl r hr])

theorem kept_start (s : DelayRun) (pid : Nat) (beginTime : Option Time) :
    (next s (.start pid beginTime)).container.delaysByPid = s.container.delaysByPid := by
  simp only [next, onProcessStart]
  split
  · rfl
  · split
    · rfl
    · split <;> rfl

theorem kept_exit (s : DelayRun) (pid p : Nat) (oomKill : Bool) (now : Time) :
    (next s (.exit pid oomKill now)).kept p = if p = pid then ⟨0, 0⟩ else s.kept p := by
  show (AList.lookup p (s.container.delaysByPid.erase pid)).getD _ = _
  split
  · next h => rw [h, AList.lookup_erase, Option.getD_none]
  · next h => rw [AList.lookup_erase_ne h, kept]

theorem Tallied.start {start : DelayRun} {pre : List DelayEvent} {pid : Nat}
    {beginTime : Option Time} (h : Tallied start pre) :
    Tallied start (pre ++ [.start pid beginTime]) := by
  have hkept : ∀ s p, (next s (.start pid beginTime)).kept p = s.kept p := fun s p => by
    rw [kept, kept_start, kept]
  refine ⟨?_, ?_, ?_, ?_⟩
  all_goals simp only [List.foldl_concat, since_concat, not_reads_start, not_exits_start, hkept,
    false_or, not_false_eq_true, and_true, not_never]
  · exact h.addUp
  · exact h.read
  · exact h.gone
  · exact h.unread

theorem Tallied.exit {start : DelayRun} {pre : List DelayEvent} {pid : Nat} {oomKill : Bool}
    {now : Time} (h : Tallied start pre) : Tallied start (pre ++ [.exit pid oomKill now]) := by
  refine ⟨?_, ?_, ?_, ?_⟩
  all_goals simp only [List.foldl_concat, since_concat, not_reads_exit, exits_exit, kept_exit,
    false_or, not_false_eq_true, and_true, not_never]
  · exact h.addUp
  · rintro p life ⟨hsince, hne⟩
    rw [if_neg hne]
    exact h.read p life hsince
  · intro p hnone
    split
    · rfl
    · next hne => exact h.gone p fun life hsince => hnone life ⟨hsince, hne⟩
  · exact h.unread

theorem Tallied.update {start : DelayRun} {pre : List DelayEvent}
    {taskstats : Nat → Option TaskDelays} (h : Tallied start pre)
    (ho : Orderly start pre (.update taskstats))
    (hadd : (next (pre.foldl next start) (.update taskstats)).AddUp) :
    Tallied start (pre ++ [.update taskstats]) := by
  have hnodup := (pre.foldl next start).nodup_readings taskstats
  -- a pid is read once or not at all
  have hcases : ∀ p, (∃ task, (p, task) ∈ (pre.foldl next start).readings taskstats) ∨
      p ∉ ((pre.foldl next start).readings taskstats).map Prod.fst := fun p => by
    by_cases hp : p ∈ ((pre.foldl next start).readings taskstats).map Prod.fst
    · obtain ⟨⟨p, task⟩, hr, rfl⟩ := List.mem_map.mp hp
      exact .inl ⟨task, hr⟩
    · exact .inr hp
  have hone : ∀ {p task task'}, (p, task) ∈ (pre.foldl next start).readings taskstats →
      (p, task') ∈ (pre.foldl next start).readings taskstats → task = task' := fun hr hr' =>
    (Prod.mk.inj (List.inj_on_of_nodup_map hnodup hr hr' rfl)).2
  refine ⟨?_, ?_, ?_, ?_⟩
  all_goals simp only [List.foldl_concat, since_concat, reads_update, not_exits_update,
    not_false_eq_true, and_true, not_never]
  · exact hadd
  · intro p life hsince
    rcases hcases p with ⟨task, hr⟩ | hp
    · have hlife : life = task.life := by
        rcases hsince with ⟨grown, hr'⟩ | hsince
        · rw [hone hr hr']
        · exact (ho p task.life (reads_update.mpr ⟨task.grown, hr⟩)).1 life hsince
      rw [hlife]
      exact (foldl_readDelays_read _ _ hnodup hr).1
    · obtain ⟨hkept, hlast⟩ := foldl_readDelays_other _ (pre.foldl next start) hp
      rcases hsince with ⟨grown, hr'⟩ | hsince
      · exact absurd (List.mem_map_of_mem (f := Prod.fst) hr') hp
      · exact (hkept.trans (h.read p life hsince)).trans (hlast life).symm
  · intro p hnone
    rcases hcases p with ⟨task, hr⟩ | hp
    · exact absurd (.inl ⟨task.grown, hr⟩) (hnone task.life)
    · refine (foldl_readDelays_other _ (pre.foldl next start) hp).1.trans (h.gone p ?_)
      exact fun life hsince => hnone life (.inr hsince)
  · intro p life hnone
    rw [not_or] at hnone
    have hlast := h.unread p life hnone.2
    rcases hcases p with ⟨task, hr⟩ | hp
    · refine ((foldl_readDelays_read _ _ hnodup hr).2 life fun he => ?_).trans hlast
      exact hnone.1 ⟨task.grown, by rw [he]; exact hr⟩
    · exact ((foldl_readDelays_other _ _ hp).2 life).trans hlast

theorem Tallied.next {start : DelayRun} {pre : List DelayEvent} {e : DelayEvent}
    (h : Tallied start pre) (ho : Orderly start pre e) : Tallied start (pre ++ [e]) := by
  cases e with
  | start pid beginTime => exact h.start
  | exit pid oomKill now => exact h.exit
  | update taskstats =>
    exact h.update ho ((step_addUp h.addUp _).mpr (h.untouched ho)).1

/-- **The delays add up and never decrease**, whatever is read, if each process is read between the
exits of its pid that are handled. -/
theorem delays_add_up (id : String) (cg : Cgroup) (events : List DelayEvent)
    (horderly : ∀ pre e rest, events = pre ++ e :: rest → Orderly (init id cg) pre e) :
    EveryStep next (fun s e => (next s e).AddUp ∧ s.cpu ≤ (next s e).cpu ∧
        s.disk ≤ (next s e).disk) (init id cg) events := by
  rw [everyStep_iff_split]
  intro pre e rest hsplit
  have htallied : Tallied (init id cg) pre := by
    refine holds_of_history ⟨⟨rfl, rfl⟩, fun _ _ => False.elim, fun _ _ => rfl, fun _ _ _ => rfl⟩
      (fun pre e h => h.next) horderly pre _ hsplit
  exact (step_addUp htallied.addUp e).mpr (htallied.untouched (horderly pre e rest hsplit))

/-- Every process that is read is the one of this number. -/
def readsAll (life cpu : Nat) : DelayEvent := .update fun _ => some ⟨life, ⟨cpu, 0⟩⟩

theorem reads_readsAll {pid life l cpu : Nat} {s : DelayRun} :
    Reads pid life s (readsAll l cpu) ↔ pid ∈ s.container.processes.keys ∧ life = l := by
  simp only [readsAll, reads_update, readings, Option.map_some, List.mem_filterMap,
    Option.some.injEq, Prod.mk.injEq, TaskDelays.mk.injEq]
  constructor
  · rintro ⟨grown, p, hp, rfl, rfl, rfl⟩
    exact ⟨hp, rfl⟩
  · rintro ⟨hp, rfl⟩
    exact ⟨_, pid, hp, rfl, rfl, rfl⟩

/-- A process waits for 100; its exit is handled, and another one with its pid waits for 10 and
then for 5. -/
def handledExit : List DelayEvent :=
  [.start 7 (some 1), readsAll 0 100, .exit 7 false 2, .start 7 (some 3), readsAll 1 10,
    readsAll 1 5]

theorem delays_add_up_handled :
    EveryStep next (fun s e => (next s e).AddUp ∧ s.cpu ≤ (next s e).cpu ∧
        s.disk ≤ (next s e).disk) (init "c" ⟨"c", 0⟩) handledExit ∧
      (handledExit.foldl next (init "c" ⟨"c", 0⟩)).cpu = 115 := by
  refine ⟨delays_add_up "c" ⟨"c", 0⟩ handledExit ?_, by decide⟩
  simp only [handledExit, forall_split_cons]
  refine ⟨fun _ _ hr => absurd hr not_reads_start, ?_, fun _ _ hr => absurd hr not_reads_exit,
    fun _ _ hr => absurd hr not_reads_start, ?_, ?_, forall_split_nil⟩
  all_goals
    intro pid life hr
    obtain ⟨hpid, rfl⟩ := reads_readsAll.mp hr
    obtain rfl : pid = 7 := List.mem_singleton.mp hpid
    simp [Since, EveryStep, reads_readsAll]

/-- A process waits for 100; its exit is missed, and another one with its pid waits for 10. -/
def missedExit : List DelayEvent :=
  [.start 7 (some 1), readsAll 0 100, .start 7 (some 2), readsAll 1 10]

theorem delays_decrease :
    ((missedExit.take 3).foldl next (init "c" ⟨"c", 0⟩)).cpu = 100 ∧
      (missedExit.foldl next (init "c" ⟨"c", 0⟩)).cpu = 10 := by
  decide

end DelayRun

end Containers
