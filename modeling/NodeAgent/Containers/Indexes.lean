import NodeAgent.Infra.Sequences
import NodeAgent.Containers.Registry

/-!
# The indexes of the registry

Three maps refer to the containers, and every container knows its processes. What one event can do
to them is said once, by `Change`; what holds in all reachable states is proved from it.

* `Indexed` — how the maps and the tables of processes agree
* `indexes_agree` — they agree in every state that events lead to
-/

namespace Containers

open Infra Relation

variable {f : Container → Container} {j : Nat} {cg : Cgroup} {id : String} {k : Container}

/-! ## What an event can do -/

structure SameIndex (r r' : Registry) : Prop where
  containers : r'.containers = r.containers
  byId : r'.containersById = r.containersById
  byCgroup : r'.containersByCgroupId = r.containersByCgroupId
  byPid : r'.containersByPid = r.containersByPid

/-- A change of a container that has nothing to do with its processes. -/
structure Quiet (k k' : Container) : Prop where
  id : k'.id = k.id
  processes : k'.processes = k.processes
  closes : k'.closes = k.closes
  zombieAt : k'.zombieAt = k.zombieAt

/-- What can happen to the indexes before a process is started. -/
inductive Change (env : Env) : Registry → Registry → Prop
  | other {r r' : Registry} (h : SameIndex r r') : Change env r r'
  | quiet {r : Registry} (c : Nat) {f : Container → Container} (hf : ∀ k, Quiet k (f k)) :
      Change env r (r.modify c f)
  -- a pid without a container
  | unmap {r : Registry} {pid : Nat} (hpid : r.byPid pid = none) :
      Change env r { r with containersByPid := r.containersByPid.erase pid }
  -- a pid in a cgroup that is known
  | assign {r : Registry} {pid c : Nat} {cg : Cgroup} (hpid : r.byPid pid = none)
      (hcg : env.readCgroup pid = some cg) (hc : r.containersByCgroupId.lookup cg.id = some c) :
      Change env r { r with containersByPid := r.containersByPid.insert pid (some c) }
  -- a pid in another cgroup of a container that is known
  | join {r : Registry} {pid c : Nat} {cg : Cgroup} {id : String} (hpid : r.byPid pid = none)
      (hc : r.containersById.lookup id = some c) :
      Change env r { r.modify c (fun k =>
          if cg.createdAt > k.cgroup.createdAt then { k with cgroup := cg } else k) with
        containersByPid := r.containersByPid.insert pid (some c)
        containersByCgroupId := r.containersByCgroupId.insert cg.id c }
  | create {r : Registry} {pid : Nat} {cg : Cgroup} {id : String} (hpid : r.byPid pid = none)
      (hid : r.containersById.lookup id = none) :
      Change env r { r with
        containers := r.containers ++ [newContainer id cg]
        containersByPid := r.containersByPid.insert pid (some r.containers.length)
        containersByCgroupId := r.containersByCgroupId.insert cg.id r.containers.length
        containersById := r.containersById.insert id r.containers.length }
  | exit {r : Registry} {pid c : Nat} (hpid : r.byPid pid = some c) (oomKill : Bool) :
      Change env r { r.modify c (fun k => onProcessExit k pid oomKill env.now) with
        containersByPid := r.containersByPid.erase pid }
  | reap {r : Registry} {id : String} {c : Nat} (hid : r.containersById.lookup id = some c)
      (hdead : isDead env r c = true) :
      Change env r { r with
        containersByCgroupId := r.containersByCgroupId.filter (fun _ c' => decide (c' ≠ c))
        containersByPid := r.containersByPid.filter (fun _ c' => decide (c' ≠ some c))
        containersById := r.containersById.erase id }

abbrev Changes (env : Env) : Registry → Registry → Prop := ReflTransGen (Change env)

theorem Changes.other {env : Env} {r r' : Registry} (h : SameIndex r r') : Changes env r r' :=
  .single (.other h)

section

variable {env : Env} {r : Registry} {pid : Nat}

theorem byPid_eq_some {c : Nat} :
    r.byPid pid = some c ↔ r.containersByPid.lookup pid = some (some c) := by
  rw [Registry.byPid, Option.join_eq_some_iff]

/-! ## Finding the container -/

/-- The registry after a container was looked for. At most the process itself is mapped anew. -/
structure Found (env : Env) (r : Registry) (pid : Nat) (o : Option Nat × Registry) : Prop where
  changes : Changes env r o.2
  own : o.2.byPid pid = o.1
  others : ∀ pid', pid' ≠ pid → o.2.byPid pid' = r.byPid pid'
  containers : ∀ (j : Nat) k', o.2.containers[j]? = some k' →
    (∃ k, r.containers[j]? = some k ∧ Quiet k k') ∨ ∃ id cg, k' = newContainer id cg

theorem found_none {r' : Registry} (hpid : r.byPid pid = none) (h : SameIndex r r') :
    Found env r pid (none, r') := by
  have hbyPid : ∀ pid', r'.byPid pid' = r.byPid pid' := fun pid' => by
    simp only [Registry.byPid, h.byPid]
  refine ⟨.other h, (hbyPid pid).trans hpid, fun pid' _ => hbyPid pid', fun j k' hk' => ?_⟩
  exact .inl ⟨k', h.containers ▸ hk', rfl, rfl, rfl, rfl⟩

theorem found_some {r' : Registry} {c : Nat} (hchange : Change env r r')
    (hm : r'.containersByPid = r.containersByPid.insert pid (some c))
    (hk : ∀ (j : Nat) k', r'.containers[j]? = some k' →
      (∃ k, r.containers[j]? = some k ∧ Quiet k k') ∨ ∃ id cg, k' = newContainer id cg) :
    Found env r pid (some c, r') := by
  refine ⟨.single hchange, ?_, fun pid' hne => ?_, hk⟩
  · simp only [Registry.byPid, hm, AList.lookup_insert, Option.join_some]
  · simp only [Registry.byPid, hm, AList.lookup_insert_ne hne]

theorem getElem?_modify_some {c : Nat} {k' : Container}
    (h : (r.modify c f).containers[j]? = some k') :
    ∃ k, r.containers[j]? = some k ∧ k' = if c = j then f k else k := by
  simp only [Registry.modify, List.getElem?_modify, Option.map_eq_map,
    Option.map_eq_some_iff] at h
  obtain ⟨k, hk, hk'⟩ := h
  exact ⟨k, hk, hk'.symm⟩

theorem createContainer_found (hpid : r.byPid pid = none) :
    Found env r pid (createContainer env r pid cg id) := by
  unfold createContainer
  cases hid : r.containersById.lookup id with
  | some c =>
    refine found_some (.join hpid hid) rfl fun j k' hk' => ?_
    obtain ⟨k, hk, rfl⟩ := getElem?_modify_some hk'
    refine .inl ⟨k, hk, ?_⟩
    split
    · split <;> exact ⟨rfl, rfl, rfl, rfl⟩
    · exact ⟨rfl, rfl, rfl, rfl⟩
  | none =>
    simp only
    split
    · refine found_some (.create hpid hid) rfl fun j k' hk' => ?_
      rcases of_getElem?_concat hk' with hk | ⟨-, rfl⟩
      · exact .inl ⟨k', hk, rfl, rfl, rfl, rfl⟩
      · exact .inr ⟨id, cg, rfl⟩
    · exact found_none hpid ⟨rfl, rfl, rfl, rfl⟩

theorem containerByCgroup_found (hpid : r.byPid pid = none) (hcg : env.readCgroup pid = some cg) :
    Found env r pid (containerByCgroup env r pid cg) := by
  unfold containerByCgroup
  cases hc : r.containersByCgroupId.lookup cg.id with
  | some c =>
    refine found_some (.assign hpid hcg hc) rfl fun j k' hk' => ?_
    exact .inl ⟨k', hk', rfl, rfl, rfl, rfl⟩
  | none =>
    simp only
    cases env.identify pid cg with
    | none => exact found_none hpid ⟨rfl, rfl, rfl, rfl⟩
    | some id =>
      simp only
      split
      · split
        · exact found_none hpid ⟨rfl, rfl, rfl, rfl⟩
        · exact found_none hpid ⟨rfl, rfl, rfl, rfl⟩
      split
      · exact found_none hpid ⟨rfl, rfl, rfl, rfl⟩
      · exact createContainer_found hpid

/-- **What looking for the container of a process does.** -/
theorem getOrCreateContainer_found (env : Env) (r : Registry) (pid : Nat) :
    Found env r pid (getOrCreateContainer env r pid) := by
  unfold getOrCreateContainer
  cases hpid : r.byPid pid with
  | some c =>
    exact ⟨.refl, hpid, fun _ _ => rfl, fun j k' hk' => .inl ⟨k', hk', rfl, rfl, rfl, rfl⟩⟩
  | none =>
    simp only
    split
    · exact found_none hpid ⟨rfl, rfl, rfl, rfl⟩
    · cases hcg : env.readCgroup pid with
      | none => exact found_none hpid ⟨rfl, rfl, rfl, rfl⟩
      | some cg =>
        let r' : Registry :=
          { r with containersByPidIgnored := r.containersByPidIgnored.erase pid }
        have hother : Changes env r r' := .other ⟨rfl, rfl, rfl, rfl⟩
        have h : Found env r' pid (containerByCgroup env r' pid cg) :=
          containerByCgroup_found hpid hcg
        exact ⟨hother.trans h.changes, h.own, h.others, h.containers⟩

/-! ## Events of a process -/

theorem evict_changes {c : Nat} (hpid : r.byPid pid = some c) :
    Changes env r (evict env r pid (some c)) :=
  .single (.exit hpid false)

theorem revalidate_changes (env : Env) (r : Registry) (pid : Nat) :
    Changes env r (revalidate env r pid) := by
  unfold revalidate
  cases hlookup : r.containersByPid.lookup pid with
  | none => exact .refl
  | some c =>
    cases c with
    | none => exact .single (.unmap (by rw [Registry.byPid, hlookup]; rfl))
    | some c =>
      have hpid := byPid_eq_some.mpr hlookup
      simp only
      split
      · exact evict_changes hpid
      split
      · exact evict_changes hpid
      · exact .refl

theorem handleProcessStart_cases (env : Env) (r : Registry) (pid : Nat) :
    let found := getOrCreateContainer env (revalidate env r pid) pid
    Changes env r found.2 ∧
      ((found.1 = none ∧ handleProcessStart env r pid = found.2) ∨
        ∃ c, found.1 = some c ∧ handleProcessStart env r pid =
          found.2.modify c fun k => onProcessStart k pid (env.beginTime pid)) := by
  intro found
  have hfound := getOrCreateContainer_found env (revalidate env r pid) pid
  refine ⟨(revalidate_changes env r pid).trans hfound.changes, ?_⟩
  unfold handleProcessStart
  cases hget : getOrCreateContainer env (revalidate env r pid) pid with
  | mk o r' =>
    simp only [found, hget]
    cases o with
    | none => exact .inl ⟨rfl, rfl⟩
    | some c => exact .inr ⟨c, rfl, rfl⟩

theorem processExit_changes [Netaddr] (env : Env) (r : Registry) (pid : Nat) (oomKill : Bool) :
    Changes env r (handleEvent env r (.processExit pid oomKill)) := by
  show Changes env r { exitProcess env r (r.byPid pid) pid oomKill with
    containersByPid := (exitProcess env r (r.byPid pid) pid oomKill).containersByPid.erase pid }
  cases hpid : r.byPid pid with
  | none => exact .single (.unmap hpid)
  | some c => exact .single (.exit hpid oomKill)

/-! ## Connections -/

theorem quiet_updateConnectionTrafficStats (k : Container) (ref : Option Nat)
    (sent received : Nat) : Quiet k (updateConnectionTrafficStats k ref sent received) := by
  unfold updateConnectionTrafficStats
  split
  · exact ⟨rfl, rfl, rfl, rfl⟩
  split
  · exact ⟨rfl, rfl, rfl, rfl⟩
  · exact ⟨rfl, rfl, rfl, rfl⟩

theorem quiet_onConnectionClose (k : Container) (pid fd timestamp : Nat)
    (stats : Option (Nat × Nat)) (now : Time) :
    Quiet k (onConnectionClose k pid fd timestamp stats now) := by
  unfold onConnectionClose
  split
  · exact ⟨rfl, rfl, rfl, rfl⟩
  · rename_i ref _
    cases stats with
    | none => exact ⟨rfl, rfl, rfl, rfl⟩
    | some counters =>
      obtain ⟨h1, h2, h3, h4⟩ :=
        quiet_updateConnectionTrafficStats k (some ref) counters.1 counters.2
      exact ⟨h1, h2, h3, h4⟩

theorem quiet_onConnectionOpen [Netaddr] (filters : Filters) (k : Container) (e : ConnectionOpen)
    (now : Time) : Quiet k (onConnectionOpen filters k e now).2 := by
  unfold onConnectionOpen
  split
  · exact ⟨rfl, rfl, rfl, rfl⟩
  · simp only
    split
    · exact ⟨rfl, rfl, rfl, rfl⟩
    · unfold openConnection
      split <;> exact ⟨rfl, rfl, rfl, rfl⟩

theorem handleConnectionOpen_changes [Netaddr] (env : Env) (r : Registry) (e : ConnectionOpen) :
    Changes env r (handleConnectionOpen env r e) := by
  have hfound := getOrCreateContainer_found env r e.pid
  unfold handleConnectionOpen
  cases hget : getOrCreateContainer env r e.pid with
  | mk o r' =>
    rw [hget] at hfound
    cases o with
    | none => exact hfound.changes
    | some c =>
      simp only
      split
      · rename_i k hk
        set e' : ConnectionOpen := { e with
          domain := r'.ip2fqdn.lookup e.dst.ip
          timestamp := if e.failed then 0 else e.timestamp }
        -- one container changes, and maybe the filters
        have hquiet : Changes env r'
            (r'.modify c fun k => (onConnectionOpen r'.filters k e' env.now).2) :=
          .single (.quiet c fun k => quiet_onConnectionOpen r'.filters k e' env.now)
        refine hfound.changes.trans (hquiet.trans (Changes.other ⟨?_, rfl, rfl, rfl⟩))
        simp only [Registry.modify]
        rw [List.modify_eq_set_getElem?]
        simp [hk]
      · exact hfound.changes

end

/-! ## The gc tick -/

theorem byPid_evict {env : Env} {r : Registry} {pid : Nat} (c : Option Nat) :
    (evict env r pid c).containersByPid = r.containersByPid.erase pid := by
  cases c <;> rfl

theorem sweep_changes (env : Env) (r : Registry) : Changes env r (sweep env r) := by
  refine Dict.foldl_chain (P := fun (r : Registry) e => r.containersByPid.lookup e.1 = some e.2)
    ?_ ?_ _ r r.containersByPid.nodupKeys fun e he => Dict.lookup_of_mem he
  · rintro r ⟨pid, c⟩ hlook
    have hevict : Changes env r (evict env r pid c) := by
      cases c with
      | some c => exact evict_changes (byPid_eq_some.mpr hlook)
      | none => exact .single (.unmap (by rw [Registry.byPid, hlook]; rfl))
    simp only [sweepPid]
    split
    · exact hevict
    split
    · split
      · exact hevict
      · exact .refl
    · exact .refl
  · rintro r ⟨pid, c⟩ ⟨pid', c'⟩ _ hlook' hne
    have hevict : (evict env r pid c).containersByPid.lookup pid' = some c' := by
      rw [byPid_evict, AList.lookup_erase_ne hne]
      exact hlook'
    simp only [sweepPid]
    split
    · exact hevict
    split
    · split
      · exact hevict
      · exact hlook'
    · exact hlook'

theorem reap_changes (env : Env) (r : Registry) : Changes env r (reap env r) := by
  refine Dict.foldl_chain (P := fun (r : Registry) e => r.containersById.lookup e.1 = some e.2)
    ?_ ?_ _ r r.containersById.nodupKeys fun e he => Dict.lookup_of_mem he
  · rintro r ⟨id, c⟩ hlook
    simp only [reapContainer]
    split
    · rename_i hdead
      exact .single (.reap hlook hdead)
    · exact .refl
  · rintro r ⟨id, c⟩ ⟨id', c'⟩ _ hlook' hne
    simp only [reapContainer]
    split
    · exact (AList.lookup_erase_ne hne).trans hlook'
    · exact hlook'

theorem gcTick_changes (env : Env) (r : Registry) : Changes env r (gcTick env r) := by
  let swept : Registry := { sweep env r with containersByPidIgnored := ∅ }
  have hswept : Changes env r swept :=
    (sweep_changes env r).trans (Changes.other ⟨rfl, rfl, rfl, rfl⟩)
  refine (hswept.trans (reap_changes env swept)).trans (Changes.other ⟨rfl, rfl, rfl, rfl⟩)

/-- **What an event does is a chain of changes**, and at its end maybe the start of a process. -/
theorem handleEvent_changes [Netaddr] (env : Env) (r : Registry) (event : RegistryEvent)
    (hstart : ∀ pid, event ≠ .processStart pid) : Changes env r (handleEvent env r event) := by
  cases event with
  | gcTick => exact gcTick_changes env r
  | processStart pid => exact absurd rfl (hstart pid)
  | processExit pid oomKill => exact processExit_changes env r pid oomKill
  | fileOpen pid => exact (getOrCreateContainer_found env r pid).changes
  | listenOpen pid => exact (getOrCreateContainer_found env r pid).changes
  | connectionOpen e => exact handleConnectionOpen_changes env r e
  | connectionClose pid fd timestamp stats =>
    simp only [handleEvent]
    split
    · exact .single (.quiet _ fun k => quiet_onConnectionClose k pid fd timestamp stats env.now)
    · exact .refl
  | trafficStats pid fd sent received =>
    simp only [handleEvent]
    split
    · exact .single (.quiet _ fun k => quiet_updateConnectionTrafficStats k _ sent received)
    · exact .refl
  | l7Request pid domains =>
    simp only [handleEvent]
    split
    · exact Changes.other ⟨rfl, rfl, rfl, rfl⟩
    · exact .refl

/-! ## How the indexes agree -/

def Registry.Registered (r : Registry) (c : Nat) : Prop :=
  ∃ k, r.containers[c]? = some k ∧ r.containersById.lookup k.id = some c

/-- A container without processes may be a zombie, one with processes is not. -/
def Container.Settled (k : Container) : Prop := ∀ t, k.zombieAt = some t → k.processes = ∅

structure Indexed (r : Registry) : Prop where
  byId : ∀ id c, r.containersById.lookup id = some c → ∃ k, r.containers[c]? = some k ∧ k.id = id
  byCgroup : ∀ cg c, r.containersByCgroupId.lookup cg = some c → r.Registered c
  byPid : ∀ pid v, r.containersByPid.lookup pid = some v → ∃ c, v = some c ∧ r.Registered c
  processes : ∀ c k pid p, r.containers[c]? = some k → k.processes.lookup pid = some p →
    r.byPid pid = some c
  settled : ∀ (c : Nat) (k : Container), r.containers[c]? = some k → k.Settled

theorem indexed_new (filters : Filters) : Indexed (.new filters) where
  byId := fun _ _ h => by cases h
  byCgroup := fun _ _ h => by cases h
  byPid := fun _ _ h => by cases h
  processes := fun _ _ _ _ h => by cases h
  settled := fun _ _ h => by cases h

section

variable {env : Env} {r r' : Registry} {pid c : Nat}

theorem Indexed.congr (h : Indexed r) (hs : SameIndex r r') : Indexed r' := by
  obtain ⟨hcontainers, hbyId, hbyCgroup, hbyPid⟩ := hs
  have hreg : ∀ c, r.Registered c → r'.Registered c := fun c hc => by
    unfold Registry.Registered
    rw [hcontainers, hbyId]
    exact hc
  constructor
  · rw [hcontainers, hbyId]
    exact h.byId
  · rw [hbyCgroup]
    exact fun cg c hc => hreg c (h.byCgroup cg c hc)
  · rw [hbyPid]
    intro pid v hv
    obtain ⟨c, hvc, hc⟩ := h.byPid pid v hv
    exact ⟨c, hvc, hreg c hc⟩
  · unfold Registry.byPid
    rw [hcontainers, hbyPid]
    exact h.processes
  · rw [hcontainers]
    exact h.settled

theorem getElem?_modify_of_some (h : r.containers[j]? = some k) :
    (r.modify c f).containers[j]? = some (if c = j then f k else k) := by
  simp only [Registry.modify, List.getElem?_modify, h, Option.map_eq_map, Option.map_some]

theorem id_ite (hf : ∀ k, (f k).id = k.id) (j : Nat) (k : Container) :
    (if c = j then f k else k).id = k.id := by
  split
  · exact hf k
  · rfl

theorem Registry.Registered.modify (hf : ∀ k, (f k).id = k.id) (h : r.Registered j) :
    (r.modify c f).Registered j := by
  obtain ⟨k, hk, hid⟩ := h
  refine ⟨_, getElem?_modify_of_some hk, ?_⟩
  rw [id_ite hf]
  exact hid

theorem Indexed.modify (h : Indexed r) (hf : ∀ k, (f k).id = k.id)
    (hproc : ∀ k, r.containers[c]? = some k → ∀ pid p, (f k).processes.lookup pid = some p →
      r.byPid pid = some c) (hset : ∀ k, r.containers[c]? = some k → (f k).Settled) :
    Indexed (r.modify c f) where
  byId := fun id j hj => by
    obtain ⟨k, hk, hid⟩ := h.byId id j hj
    refine ⟨_, getElem?_modify_of_some hk, ?_⟩
    rw [id_ite hf]
    exact hid
  byCgroup := fun cg j hj => (h.byCgroup cg j hj).modify hf
  byPid := fun pid v hv => by
    obtain ⟨j, hvj, hj⟩ := h.byPid pid v hv
    exact ⟨j, hvj, hj.modify hf⟩
  processes := fun j k' pid p hk' hp => by
    obtain ⟨k, hk, rfl⟩ := getElem?_modify_some hk'
    split at hp
    · rename_i hj
      subst hj
      exact hproc k hk pid p hp
    · exact h.processes j k pid p hk hp
  settled := fun j k' hk' => by
    obtain ⟨k, hk, rfl⟩ := getElem?_modify_some hk'
    split
    · rename_i hj
      subst hj
      exact hset k hk
    · exact h.settled j k hk

/-! ## One change -/

theorem settled_onProcessStart (h : k.Settled) (beginTime : Option Time) :
    (onProcessStart k pid beginTime).Settled := by
  unfold onProcessStart
  split
  · exact h
  simp only
  split
  · exact fun t ht => by cases ht
  split
  · exact fun t ht => by cases ht
  · exact fun t ht => by cases ht

theorem settled_onProcessExit (h : k.Settled) (oomKill : Bool) (now : Time) :
    (onProcessExit k pid oomKill now).Settled := by
  intro t ht
  simp only [onProcessExit] at ht ⊢
  split at ht
  · rename_i hempty
    exact AList.ext hempty
  · rw [h t ht]
    rfl

theorem id_onProcessStart (k : Container) (beginTime : Option Time) :
    (onProcessStart k pid beginTime).id = k.id := by
  unfold onProcessStart
  split
  · rfl
  simp only
  split
  · rfl
  split <;> rfl

theorem lookup_onProcessStart {beginTime : Option Time} {pid' : Nat} (hne : pid' ≠ pid) :
    (onProcessStart k pid beginTime).processes.lookup pid' = k.processes.lookup pid' := by
  unfold onProcessStart
  split
  · rfl
  simp only
  split
  · exact AList.lookup_insert_ne hne
  split
  · exact AList.lookup_insert_ne hne
  · exact AList.lookup_insert_ne hne

theorem Indexed.quiet (h : Indexed r) (hf : ∀ k, Quiet k (f k)) : Indexed (r.modify c f) := by
  refine h.modify (fun k => (hf k).id) (fun k hk pid p hp => ?_) fun k hk t ht => ?_
  · rw [(hf k).processes] at hp
    exact h.processes c k pid p hk hp
  · rw [(hf k).zombieAt] at ht
    rw [(hf k).processes]
    exact h.settled c k hk t ht

theorem Indexed.start (h : Indexed r) (hpid : r.byPid pid = some c) (beginTime : Option Time) :
    Indexed (r.modify c fun k => onProcessStart k pid beginTime) := by
  refine h.modify (fun k => id_onProcessStart k _) (fun k hk pid' p hp => ?_)
    fun k hk => settled_onProcessStart (h.settled c k hk) _
  by_cases hne : pid' = pid
  · rw [hne]
    exact hpid
  · rw [lookup_onProcessStart hne] at hp
    exact h.processes c k pid' p hk hp

theorem Indexed.remap (h : Indexed r) {m : Dict Nat (Option Nat)}
    (hm : ∀ pid' v, m.lookup pid' = some v →
      r.containersByPid.lookup pid' = some v ∨ ∃ c, v = some c ∧ r.Registered c)
    (hkeep : ∀ (c : Nat) (k : Container) pid' p, r.containers[c]? = some k →
      k.processes.lookup pid' = some p → m.lookup pid' = r.containersByPid.lookup pid') :
    Indexed { r with containersByPid := m } where
  byId := h.byId
  byCgroup := h.byCgroup
  byPid := fun pid' v hv => (hm pid' v hv).elim (fun hv => h.byPid pid' v hv) id
  processes := fun c k pid' p hk hp => by
    have := h.processes c k pid' p hk hp
    simp only [Registry.byPid, hkeep c k pid' p hk hp]
    exact this
  settled := h.settled

theorem ne_of_unmapped (h : Indexed r) (hpid : r.byPid pid = none) {pid' : Nat} {p : Process}
    (hk : r.containers[c]? = some k) (hp : k.processes.lookup pid' = some p) : pid' ≠ pid := by
  rintro rfl
  rw [h.processes c k pid' p hk hp] at hpid
  cases hpid

theorem Indexed.unmap (h : Indexed r) (hpid : r.byPid pid = none) :
    Indexed { r with containersByPid := r.containersByPid.erase pid } := by
  refine h.remap (fun pid' v hv => .inl ?_) fun c k pid' p hk hp => ?_
  · exact (Dict.of_lookup_erase hv).2
  · exact AList.lookup_erase_ne (ne_of_unmapped h hpid hk hp)

theorem Indexed.map (h : Indexed r) (hpid : r.byPid pid = none) (hc : r.Registered c) :
    Indexed { r with containersByPid := r.containersByPid.insert pid (some c) } := by
  refine h.remap (fun pid' v hv => ?_) fun c' k pid' p hk hp => ?_
  · rcases Dict.of_lookup_insert hv with ⟨-, rfl⟩ | ⟨-, hv⟩
    · exact .inr ⟨c, rfl, hc⟩
    · exact .inl hv
  · exact AList.lookup_insert_ne (ne_of_unmapped h hpid hk hp)

theorem Indexed.cgroup (h : Indexed r) (cg : String) (hc : r.Registered c) :
    Indexed { r with containersByCgroupId := r.containersByCgroupId.insert cg c } where
  byId := h.byId
  byCgroup := fun cg' c' hc' => by
    rcases Dict.of_lookup_insert hc' with ⟨-, rfl⟩ | ⟨-, hc'⟩
    · exact hc
    · exact h.byCgroup cg' c' hc'
  byPid := h.byPid
  processes := h.processes
  settled := h.settled

theorem Indexed.create (h : Indexed r) (hid : r.containersById.lookup id = none) :
    let r' : Registry := { r with
      containers := r.containers ++ [newContainer id cg]
      containersById := r.containersById.insert id r.containers.length }
    Indexed r' ∧ r'.Registered r.containers.length := by
  intro r'
  have hold : ∀ {j k}, r.containers[j]? = some k → r'.containers[j]? = some k :=
    getElem?_concat_of_some
  have hnew : r'.containers[r.containers.length]? = some (newContainer id cg) :=
    List.getElem?_concat_length
  have hcases : ∀ {j k}, r'.containers[j]? = some k →
      r.containers[j]? = some k ∨ k = newContainer id cg :=
    fun hk => (of_getElem?_concat hk).imp_right And.right
  have hreg : ∀ {j}, r.Registered j → r'.Registered j := fun {j} hj => by
    obtain ⟨k, hk, hkid⟩ := hj
    refine ⟨k, hold hk, (AList.lookup_insert_ne fun heq => ?_).trans hkid⟩
    rw [heq, hid] at hkid
    cases hkid
  refine ⟨⟨?_, ?_, ?_, ?_, ?_⟩, _, hnew, AList.lookup_insert _⟩
  · intro id' j hj
    have hj : (r.containersById.insert id r.containers.length).lookup id' = some j := hj
    rcases Dict.of_lookup_insert hj with ⟨rfl, rfl⟩ | ⟨-, hj⟩
    · exact ⟨_, hnew, rfl⟩
    · obtain ⟨k, hk, hkid⟩ := h.byId id' j hj
      exact ⟨k, hold hk, hkid⟩
  · exact fun cg' j hj => hreg (h.byCgroup cg' j hj)
  · intro pid v hv
    obtain ⟨j, hvj, hj⟩ := h.byPid pid v hv
    exact ⟨j, hvj, hreg hj⟩
  · intro j k pid p hk hp
    rcases hcases hk with hk | rfl
    · exact h.processes j k pid p hk hp
    · cases hp
  · intro j k hk
    rcases hcases hk with hk | rfl
    · exact h.settled j k hk
    · exact fun t ht => by cases ht

theorem Indexed.exit (h : Indexed r) (hpid : r.byPid pid = some c) (oomKill : Bool) (now : Time) :
    Indexed { r.modify c (fun k => onProcessExit k pid oomKill now) with
      containersByPid := r.containersByPid.erase pid } := by
  have hmod : Indexed (r.modify c fun k => onProcessExit k pid oomKill now) := by
    refine h.modify (fun k => rfl) (fun k hk pid' p hp => ?_)
      fun k hk => settled_onProcessExit (h.settled c k hk) oomKill now
    by_cases hne : pid' = pid
    · rw [hne]
      exact hpid
    · rw [show (onProcessExit k pid oomKill now).processes.lookup pid' =
        k.processes.lookup pid' from AList.lookup_erase_ne hne] at hp
      exact h.processes c k pid' p hk hp
  refine hmod.remap (fun pid' v hv => .inl ?_) fun j k' pid' p hk' hp => ?_
  · exact (Dict.of_lookup_erase hv).2
  · refine AList.lookup_erase_ne ?_
    rintro rfl
    -- the pid was among the processes of its own container only, and left it
    obtain ⟨k, hk, rfl⟩ := getElem?_modify_some hk'
    split at hp
    · rw [show (onProcessExit k pid' oomKill now).processes.lookup pid' = none from
        AList.lookup_erase _ _] at hp
      cases hp
    · rename_i hne
      have := h.processes j k pid' p hk hp
      rw [hpid, Option.some.injEq] at this
      exact hne this

theorem processes_of_dead (h : Indexed r) (hk : r.containers[c]? = some k)
    (hdead : isDead env r c = true) : k.processes = ∅ := by
  simp only [isDead, hk, Container.dead] at hdead
  split at hdead
  · cases hdead
  · rename_i t ht
    exact h.settled c k hk t ht

theorem Indexed.reap (h : Indexed r) (hid : r.containersById.lookup id = some c)
    (hdead : isDead env r c = true) :
    Indexed { r with
      containersByCgroupId := r.containersByCgroupId.filter (fun _ c' => decide (c' ≠ c))
      containersByPid := r.containersByPid.filter (fun _ c' => decide (c' ≠ some c))
      containersById := r.containersById.erase id } := by
  have hreg : ∀ {j}, r.Registered j → j ≠ c →
      ∃ k, r.containers[j]? = some k ∧ (r.containersById.erase id).lookup k.id = some j := by
    rintro j ⟨k, hk, hkid⟩ hj
    refine ⟨k, hk, (AList.lookup_erase_ne fun heq => hj ?_).trans hkid⟩
    rw [heq, hid, Option.some.injEq] at hkid
    exact hkid.symm
  refine ⟨?_, ?_, ?_, ?_, h.settled⟩
  · intro id' j hj
    exact h.byId id' j (Dict.of_lookup_erase hj).2
  · intro cg j hj
    rw [Dict.lookup_filter, Option.filter_eq_some_iff, decide_eq_true_eq] at hj
    exact hreg (h.byCgroup cg j hj.1) hj.2
  · intro pid v hv
    rw [Dict.lookup_filter, Option.filter_eq_some_iff, decide_eq_true_eq] at hv
    obtain ⟨j, rfl, hj⟩ := h.byPid pid v hv.1
    exact ⟨j, rfl, hreg hj fun heq => hv.2 (heq ▸ rfl)⟩
  · intro j k pid p hk hp
    have hlookup := byPid_eq_some.mp (h.processes j k pid p hk hp)
    refine byPid_eq_some.mpr ?_
    rw [Dict.lookup_filter, Option.filter_eq_some_iff, decide_eq_true_eq]
    refine ⟨hlookup, fun heq => ?_⟩
    -- a dead container has no processes
    cases heq
    rw [processes_of_dead h hk hdead] at hp
    cases hp

/-- **A change keeps the indexes in agreement.** -/
theorem Indexed.change (h : Indexed r) (hchange : Change env r r') : Indexed r' := by
  cases hchange with
  | other hs => exact h.congr hs
  | quiet c hf => exact h.quiet hf
  | unmap hpid => exact h.unmap hpid
  | assign hpid _ hc => exact h.map hpid (h.byCgroup _ _ hc)
  | @join pid c cg id hpid hc =>
    obtain ⟨k, hk, rfl⟩ := h.byId _ _ hc
    have hreg : r.Registered c := ⟨k, hk, hc⟩
    have hid : ∀ k : Container,
        (if cg.createdAt > k.cgroup.createdAt then { k with cgroup := cg } else k).id = k.id :=
      fun k => by split <;> rfl
    have hmod := h.modify (c := c) hid
      (fun k hk pid p hp => h.processes c k pid p hk (by split at hp <;> exact hp))
      (fun k hk => by split <;> exact h.settled c k hk)
    exact (hmod.map hpid (hreg.modify hid)).cgroup cg.id (hreg.modify hid)
  | create hpid hid =>
    obtain ⟨hnew, hreg⟩ := h.create hid
    exact (hnew.map hpid hreg).cgroup _ hreg
  | exit hpid oomKill => exact h.exit hpid oomKill env.now
  | reap hid hdead => exact h.reap hid hdead

theorem Indexed.changes (h : Indexed r) (hchanges : Changes env r r') : Indexed r' := by
  induction hchanges with
  | refl => exact h
  | tail _ hlast ih => exact ih.change hlast

/-- **An event keeps the indexes in agreement.** -/
theorem Indexed.event [Netaddr] (h : Indexed r) (event : RegistryEvent) :
    Indexed (handleEvent env r event) := by
  by_cases hstart : ∃ pid, event = .processStart pid
  · obtain ⟨pid, rfl⟩ := hstart
    show Indexed (handleProcessStart env r pid)
    obtain ⟨hchanges, ⟨_, heq⟩ | ⟨c, hc, heq⟩⟩ := handleProcessStart_cases env r pid
    · rw [heq]
      exact h.changes hchanges
    · have hown := (getOrCreateContainer_found env (revalidate env r pid) pid).own.trans hc
      rw [heq]
      exact (h.changes hchanges).start hown _
  · exact h.changes (handleEvent_changes env r event fun pid hpid => hstart ⟨pid, hpid⟩)

end

/-! ## Runs -/

/-- Every event meets a condition, in the state it is handled in. -/
abbrev EveryStep [Netaddr] (P : Env → Registry → RegistryEvent → Prop) :
    Registry → List (Env × RegistryEvent) → Prop :=
  Infra.EveryStep (fun r e => handleEvent e.1 r e.2) fun r e => P e.1 r e.2

theorem Indexed.run [Netaddr] : ∀ (events : List (Env × RegistryEvent)) {r : Registry}, Indexed r →
    Indexed (handleEvents r events)
  | [], _, h => h
  | (_, event) :: events, _, h => Indexed.run events (h.event event)

theorem indexed_reachable [Netaddr] (filters : Filters) (events : List (Env × RegistryEvent)) :
    Indexed (handleEvents (.new filters) events) :=
  Indexed.run events (indexed_new filters)

/-! ## Deleting a dead container -/

theorem containers_reapContainer (env : Env) (r : Registry) (id : String) (c : Nat) :
    (reapContainer env r id c).containers = r.containers := by
  unfold reapContainer
  split <;> rfl

theorem isDead_reapContainer (env : Env) (r : Registry) (id : String) (c j : Nat) :
    isDead env (reapContainer env r id c) j = isDead env r j := by
  simp only [isDead, containers_reapContainer]

theorem byId_reap (env : Env) (r : Registry) :
    (reap env r).containersById =
      r.containersById.filter (fun _ c => !isDead env r c) := by
  have : ∀ (l : List (Sigma fun _ : String => Nat)) (r : Registry),
      (l.foldl (fun r e => reapContainer env r e.1 e.2) r).containersById =
        l.foldl (fun m e => if !isDead env r e.2 then m else m.erase e.1) r.containersById := by
    intro l
    induction l with
    | nil => exact fun _ => rfl
    | cons e l ih =>
      intro r
      rw [List.foldl_cons, List.foldl_cons, ih]
      simp only [isDead_reapContainer]
      congr 1
      unfold reapContainer
      by_cases hd : isDead env r e.2 = true <;> simp [hd]
  exact this _ r

/-- Some map of the registry refers to the container. -/
def Registry.Refers (r : Registry) (c : Nat) : Prop :=
  (∃ id, r.containersById.lookup id = some c) ∨
    (∃ cg, r.containersByCgroupId.lookup cg = some c) ∨
    ∃ pid, r.containersByPid.lookup pid = some (some c)

theorem Indexed.exists_byId {r : Registry} {c : Nat} (h : Indexed r) (hr : r.Refers c) :
    ∃ id, r.containersById.lookup id = some c := by
  rcases hr with hid | ⟨cg, hcg⟩ | ⟨pid, hpid⟩
  · exact hid
  · obtain ⟨k, _, hk⟩ := h.byCgroup cg c hcg
    exact ⟨k.id, hk⟩
  · obtain ⟨c', hc', k, _, hk⟩ := h.byPid pid _ hpid
    cases hc'
    exact ⟨k.id, hk⟩

theorem not_refers_of_dead {env : Env} {r : Registry} {c : Nat} (h : Indexed r)
    (hdead : isDead env (sweep env r) c = true) : ¬ (gcTick env r).Refers c := by
  intro hr
  obtain ⟨id, hid⟩ := (h.changes (gcTick_changes env r)).exists_byId hr
  have hreap : (gcTick env r).containersById = (reap env
      { sweep env r with containersByPidIgnored := ∅ }).containersById := rfl
  rw [hreap, byId_reap, Dict.lookup_filter, Option.filter_eq_some_iff] at hid
  have hdead' : isDead env { sweep env r with containersByPidIgnored := ∅ } c = true := hdead
  rw [hdead'] at hid
  exact absurd hid.2 (by decide)

/-- **The indexes agree in every state that events lead to**: what they refer to is stored in
`containersById` under its own id, the processes of a container are mapped to it, and a container
that a tick finds dead is in none of the maps after it. -/
theorem indexes_agree [Netaddr] (filters : Filters) (events : List (Env × RegistryEvent)) :
    let r := handleEvents (.new filters) events
    (∀ pid v, r.containersByPid.lookup pid = some v → ∃ c, v = some c ∧ r.Registered c) ∧
    (∀ cg c, r.containersByCgroupId.lookup cg = some c → r.Registered c) ∧
    (∀ (c : Nat) (k : Container) pid p, r.containers[c]? = some k →
      k.processes.lookup pid = some p → r.containersByPid.lookup pid = some (some c)) ∧
    ∀ env c, isDead env (sweep env r) c = true → ¬ (gcTick env r).Refers c := by
  intro r
  have h := indexed_reachable filters events
  refine ⟨h.byPid, h.byCgroup, fun c k pid p hk hp => ?_, fun env c => not_refers_of_dead h⟩
  exact byPid_eq_some.mp (h.processes c k pid p hk hp)

end Containers
