import NodeAgent.Containers.Indexes

/-!
# Which processes the gc tick drops

The tick compares the cgroup of a process with the one that its container was seen in last. A
container may be known under several cgroups.

* `live_processes_kept_iff` — when the ticks of a run drop no process of a container
-/

namespace Containers

open Infra

/-! ## The first loop -/

def leaves (env : Env) (r : Registry) (pid : Nat) (c : Option Nat) : Bool :=
  match env.readCgroup pid with
  | none => true
  | some cg =>
    match c with
    | some k => decide (r.cgroupId k ≠ some cg.id)
    | none => false

theorem sweepPid_eq (env : Env) (r : Registry) (pid : Nat) (c : Option Nat) :
    sweepPid env r pid c = if leaves env r pid c then evict env r pid c else r := by
  unfold sweepPid leaves
  cases env.readCgroup pid with
  | none => rfl
  | some cg =>
    cases c with
    | none => rfl
    | some k => simp only [decide_eq_true_eq]

theorem revalidate_eq {env : Env} {r : Registry} {pid c : Nat} (hpid : r.byPid pid = some c) :
    revalidate env r pid =
      if leaves env r pid (some c) then evict env r pid (some c) else r := by
  rw [byPid_eq_some] at hpid
  unfold revalidate leaves
  rw [hpid]
  cases env.readCgroup pid with
  | none => rfl
  | some cg =>
    show (if r.cgroupId c ≠ some cg.id then _ else _) = _
    by_cases h : r.cgroupId c = some cg.id
    · simp [h]
    · simp [h]

def Registry.processOf (r : Registry) (c pid : Nat) : Option Process :=
  (r.containers[c]?).bind (fun k => k.processes.lookup pid)

section

variable {env : Env} {r : Registry} {pid : Nat}

theorem containers_evict (c : Option Nat) :
    (evict env r pid c).containers = match c with
      | some k => r.containers.modify k (fun k => onProcessExit k pid false env.now)
      | none => r.containers := by
  cases c <;> rfl

theorem byId_evict (c : Option Nat) :
    (evict env r pid c).containersById = r.containersById := by
  cases c <;> rfl

theorem cgroupId_evict (c : Option Nat) (k : Nat) :
    (evict env r pid c).cgroupId k = r.cgroupId k := by
  simp only [Registry.cgroupId, containers_evict]
  cases c with
  | none => rfl
  | some c =>
    simp only [List.getElem?_modify]
    cases r.containers[k]? with
    | none => rfl
    | some k' =>
      simp only [Option.map_eq_map, Option.map_some]
      split <;> rfl

theorem leaves_evict (c c' : Option Nat) (pid' : Nat) :
    leaves env (evict env r pid c) pid' c' = leaves env r pid' c' := by
  simp only [leaves, cgroupId_evict]

theorem processOf_evict (c : Option Nat) {k pid' : Nat} (hne : pid' ≠ pid) :
    (evict env r pid c).processOf k pid' = r.processOf k pid' := by
  simp only [Registry.processOf, containers_evict]
  cases c with
  | none => rfl
  | some c =>
    simp only [List.getElem?_modify]
    cases r.containers[k]? with
    | none => rfl
    | some k' =>
      simp only [Option.map_eq_map, Option.map_some, Option.bind_some]
      split
      · exact AList.lookup_erase_ne hne
      · rfl

end

theorem leaves_sweepPid (env : Env) (r : Registry) (pid : Nat) (c : Option Nat) (pid' : Nat)
    (c' : Option Nat) : leaves env (sweepPid env r pid c) pid' c' = leaves env r pid' c' := by
  rw [sweepPid_eq]
  split
  · exact leaves_evict c c' pid'
  · rfl

theorem byId_sweepPid (env : Env) (r : Registry) (pid : Nat) (c : Option Nat) :
    (sweepPid env r pid c).containersById = r.containersById := by
  rw [sweepPid_eq]
  split
  · exact byId_evict c
  · rfl

theorem byId_sweep (env : Env) (r : Registry) :
    (sweep env r).containersById = r.containersById := by
  have : ∀ (l : List (Sigma fun _ : Nat => Option Nat)) (r : Registry),
      (l.foldl (fun r e => sweepPid env r e.1 e.2) r).containersById = r.containersById := by
    intro l
    induction l with
    | nil => exact fun _ => rfl
    | cons e l ih => exact fun r => (ih _).trans (byId_sweepPid env r e.1 e.2)
  exact this _ r

theorem foldl_sweep_keeps (env : Env) (pid : Nat) :
    ∀ (l : List (Sigma fun _ : Nat => Option Nat)) (r : Registry),
      (∀ e ∈ l, e.1 = pid → leaves env r e.1 e.2 = false) →
      (l.foldl (fun r e => sweepPid env r e.1 e.2) r).containersByPid.lookup pid =
          r.containersByPid.lookup pid ∧
        ∀ c, (l.foldl (fun r e => sweepPid env r e.1 e.2) r).processOf c pid = r.processOf c pid
  | [], _, _ => ⟨rfl, fun _ => rfl⟩
  | e :: l, r, h => by
    obtain ⟨ih, ihp⟩ := foldl_sweep_keeps env pid l (sweepPid env r e.1 e.2) fun e' he' hpid =>
      (leaves_sweepPid env r e.1 e.2 _ _).trans (h e' (List.mem_cons_of_mem _ he') hpid)
    have hstep : (sweepPid env r e.1 e.2).containersByPid.lookup pid =
          r.containersByPid.lookup pid ∧
        ∀ c, (sweepPid env r e.1 e.2).processOf c pid = r.processOf c pid := by
      rw [sweepPid_eq]
      split
      · rename_i hleaves
        have hne : pid ≠ e.1 := by
          rintro rfl
          rw [h e List.mem_cons_self rfl] at hleaves
          cases hleaves
        rw [byPid_evict]
        exact ⟨AList.lookup_erase_ne hne, fun c => processOf_evict e.2 hne⟩
      · exact ⟨rfl, fun _ => rfl⟩
    rw [List.foldl_cons]
    exact ⟨ih.trans hstep.1, fun c => (ihp c).trans (hstep.2 c)⟩

theorem foldl_sweep_gone (env : Env) (pid : Nat) :
    ∀ (l : List (Sigma fun _ : Nat => Option Nat)) (r : Registry),
      r.containersByPid.lookup pid = none →
      (l.foldl (fun r e => sweepPid env r e.1 e.2) r).containersByPid.lookup pid = none
  | [], _, h => h
  | e :: l, r, h => by
    refine foldl_sweep_gone env pid l _ ?_
    simp only [sweepPid_eq]
    split
    · rw [byPid_evict]
      by_cases hp : pid = e.1
      · rw [hp]
        exact AList.lookup_erase e.1 _
      · rw [AList.lookup_erase_ne hp]
        exact h
    · exact h

theorem foldl_sweep_drops (env : Env) {pid : Nat} {c : Option Nat} :
    ∀ (l : List (Sigma fun _ : Nat => Option Nat)) (r : Registry), ⟨pid, c⟩ ∈ l →
      leaves env r pid c = true →
      (l.foldl (fun r e => sweepPid env r e.1 e.2) r).containersByPid.lookup pid = none
  | e :: l, r, hmem, h => by
    rw [List.foldl_cons]
    rcases List.mem_cons.mp hmem with rfl | hmem
    · refine foldl_sweep_gone env pid l _ ?_
      simp only [sweepPid_eq, h, if_true, byPid_evict]
      exact AList.lookup_erase pid _
    · exact foldl_sweep_drops env l _ hmem ((leaves_sweepPid env r e.1 e.2 _ _).trans h)

/-- **The first loop keeps a process that is in the latest cgroup of its container.** -/
theorem sweep_keeps {env : Env} {r : Registry} {pid : Nat} {c : Option Nat}
    (hlookup : r.containersByPid.lookup pid = some c) (h : leaves env r pid c = false) :
    (sweep env r).containersByPid.lookup pid = some c ∧
      ∀ k, (sweep env r).processOf k pid = r.processOf k pid := by
  rw [← hlookup]
  refine foldl_sweep_keeps env pid _ r fun e he hpid => ?_
  have hentry := AList.mem_lookup_iff.mpr he
  rw [Option.mem_def, hpid, hlookup, Option.some.injEq] at hentry
  rw [hpid, ← hentry]
  exact h

/-- **Any other process is dropped.** -/
theorem sweep_drops {env : Env} {r : Registry} {pid : Nat} {c : Option Nat}
    (hlookup : r.containersByPid.lookup pid = some c) (h : leaves env r pid c = true) :
    (sweep env r).containersByPid.lookup pid = none :=
  foldl_sweep_drops env _ r (AList.mem_lookup_iff.mp (Option.mem_def.mpr hlookup)) h

theorem isDead_evict {env : Env} {r : Registry} {c : Nat}
    (hs : ∀ k, r.containers[c]? = some k → k.Settled) (pid : Nat) (o : Option Nat) :
    isDead env (evict env r pid o) c = (isDead env r c && decide (o ≠ some c)) := by
  simp only [isDead, containers_evict]
  cases o with
  | none => simp
  | some j =>
    simp only [List.getElem?_modify]
    cases hk : r.containers[c]? with
    | none => simp
    | some k =>
      by_cases hj : j = c
      · subst hj
        simp only [if_true, Option.map_eq_map, Option.map_some, ne_eq, not_true, decide_false,
          Bool.and_false, Container.dead, onProcessExit]
        by_cases hempty : (k.processes.erase pid).entries = []
        · simp only [hempty, if_true, decide_eq_false_iff_not]
          exact Nat.not_lt.mpr (Nat.le_add_right _ _)
        · simp only [hempty, if_false]
          cases hz : k.zombieAt with
          | none => rfl
          | some t =>
            rw [hs k hk t hz] at hempty
            exact absurd rfl hempty
      · simp [hj]

theorem foldl_sweep_dead (env : Env) (c : Nat) :
    ∀ (l : List (Sigma fun _ : Nat => Option Nat)) (r : Registry),
      (∀ k, r.containers[c]? = some k → k.Settled) →
      isDead env (l.foldl (fun r e => sweepPid env r e.1 e.2) r) c =
        (isDead env r c && l.all (fun e => !(leaves env r e.1 e.2 && decide (e.2 = some c))))
  | [], _, _ => by simp
  | e :: l, r, hs => by
    have hs' : ∀ k, (sweepPid env r e.1 e.2).containers[c]? = some k → k.Settled := by
      intro k hk
      rw [sweepPid_eq] at hk
      split at hk
      · rw [containers_evict] at hk
        cases he : e.2 with
        | none =>
          rw [he] at hk
          exact hs k hk
        | some j =>
          rw [he] at hk
          obtain ⟨k', hk', rfl⟩ := getElem?_modify_some (r := r) hk
          split
          · exact settled_onProcessExit (hs k' hk') false env.now
          · exact hs k' hk'
      · exact hs k hk
    rw [List.foldl_cons, foldl_sweep_dead env c l _ hs', List.all_cons, ← Bool.and_assoc]
    simp only [leaves_sweepPid]
    congr 1
    rw [sweepPid_eq]
    split
    · rename_i hleaves
      rw [isDead_evict hs, hleaves, Bool.true_and]
      simp
    · rename_i hstays
      simp [hstays]

/-- **A container is dead after the first loop when it was dead before and no process leaves
it.** -/
theorem isDead_sweep {env : Env} {r : Registry} {c : Nat} (h : Indexed r) :
    isDead env (sweep env r) c = true ↔
      isDead env r c = true ∧ ∀ pid, r.byPid pid = some c → leaves env r pid (some c) = false := by
  rw [sweep, foldl_sweep_dead env c _ r (h.settled c), Bool.and_eq_true, List.all_eq_true]
  refine and_congr_right fun _ => ⟨fun hall pid hpid => ?_, fun hall e he => ?_⟩
  · have := hall ⟨pid, some c⟩
      (AList.mem_lookup_iff.mp (Option.mem_def.mpr (byPid_eq_some.mp hpid)))
    simpa using this
  · by_cases hc : e.2 = some c
    · have := hall e.1 (byPid_eq_some.mpr (hc ▸ Dict.lookup_of_mem he))
      rw [hc, this]
      rfl
    · simp [hc]

/-! ## The loop over the containers -/

theorem foldl_reap (env : Env) (pid : Nat) :
    ∀ (l : List (Sigma fun _ : String => Nat)) (r : Registry),
      (l.foldl (fun r e => reapContainer env r e.1 e.2) r).containers = r.containers ∧
      (l.foldl (fun r e => reapContainer env r e.1 e.2) r).containersByPid.lookup pid =
        (r.containersByPid.lookup pid).filter
          (fun c => l.all (fun e => !(isDead env r e.2 && decide (c = some e.2))))
  | [], r => ⟨rfl, by
      rw [List.foldl_nil]
      cases r.containersByPid.lookup pid <;> rfl⟩
  | e :: l, r => by
    have hsame := containers_reapContainer env r e.1 e.2
    have hdead : ∀ c, isDead env (reapContainer env r e.1 e.2) c = isDead env r c := fun c => by
      simp only [isDead, hsame]
    obtain ⟨ihc, ih⟩ := foldl_reap env pid l (reapContainer env r e.1 e.2)
    rw [List.foldl_cons]
    refine ⟨ihc.trans hsame, ih.trans ?_⟩
    simp only [hdead, List.all_cons]
    by_cases hd : isDead env r e.2 = true
    · simp only [reapContainer, hd, if_true, Dict.lookup_filter, Option.filter_filter,
        Bool.true_and]
      congr 1
      funext c
      by_cases hc : c = some e.2 <;> simp [hc]
    · simp only [reapContainer, hd, Bool.false_eq_true, if_false, Bool.false_and, Bool.not_false,
        Bool.true_and]

def Reaped (env : Env) (r : Registry) (c : Nat) : Prop :=
  (∃ id, r.containersById.lookup id = some c) ∧ isDead env (sweep env r) c = true

/-! ## The tick -/

theorem containers_gcTick (env : Env) (r : Registry) :
    (gcTick env r).containers = (sweep env r).containers :=
  (foldl_reap env 0 (sweep env r).containersById.entries
    { sweep env r with containersByPidIgnored := ∅ }).1

theorem processOf_gcTick (env : Env) (r : Registry) (c pid : Nat) :
    (gcTick env r).processOf c pid = (sweep env r).processOf c pid := by
  simp only [Registry.processOf, containers_gcTick]

/-- **A process that the first loop keeps is kept by the tick unless its container is dead.** -/
theorem lookup_gcTick (env : Env) (r : Registry) (pid c : Nat) :
    (gcTick env r).containersByPid.lookup pid = some (some c) ↔
      (sweep env r).containersByPid.lookup pid = some (some c) ∧ ¬ Reaped env r c := by
  have h := (foldl_reap env pid (sweep env r).containersById.entries
    { sweep env r with containersByPidIgnored := ∅ }).2
  rw [show (gcTick env r).containersByPid.lookup pid = _ from h, Option.filter_eq_some_iff]
  refine and_congr_right fun _ => ?_
  simp only [List.all_eq_true, Bool.not_eq_true', Bool.and_eq_false_iff, decide_eq_false_iff_not,
    Option.some.injEq, Reaped, ← byId_sweep env r, not_and, forall_exists_index]
  constructor
  · intro hall id hid hdead
    rcases hall ⟨id, c⟩ (AList.mem_lookup_iff.mp (Option.mem_def.mpr hid)) with hd | hne
    · rw [show isDead env (sweep env r) c = false from hd] at hdead
      cases hdead
    · exact hne rfl
  · rintro hreaped ⟨id, c'⟩ hmem
    by_cases hc : c = c'
    · subst hc
      left
      have := hreaped id (Option.mem_def.mp (AList.mem_lookup_iff.mpr hmem))
      exact Bool.not_eq_true _ ▸ this
    · exact .inr hc

/-- The process is mapped to the container, and its cgroup is known for the container. -/
structure Live (env : Env) (r : Registry) (pid c : Nat) (cg : Cgroup) : Prop where
  byPid : r.byPid pid = some c
  cgroup : env.readCgroup pid = some cg
  known : r.containersByCgroupId.lookup cg.id = some c

/-- The process is no longer mapped to the container, or no longer in it. -/
def Dropped (r r' : Registry) (pid c : Nat) : Prop :=
  r'.byPid pid ≠ some c ∨ r'.processOf c pid ≠ r.processOf c pid

/-- The tick drops no process whose cgroup is known for its container. -/
def KeepsLive (env : Env) (r : Registry) : Prop :=
  ∀ pid c cg, Live env r pid c cg → ¬ Dropped r (gcTick env r) pid c

theorem keepsLive_iff (env : Env) (r : Registry) :
    KeepsLive env r ↔
      ∀ pid c cg, Live env r pid c cg → r.cgroupId c = some cg.id ∧ ¬ Reaped env r c := by
  constructor
  · intro hkeep pid c cg hlive
    obtain ⟨hbyPid, _⟩ := not_or.mp (hkeep pid c cg hlive)
    obtain ⟨hswept, hreaped⟩ := (lookup_gcTick env r pid c).mp
      (byPid_eq_some.mp (not_not.mp hbyPid))
    refine ⟨?_, hreaped⟩
    by_contra hne
    have hleaves : leaves env r pid (some c) = true := by
      simp only [leaves, hlive.cgroup, decide_eq_true_eq]
      exact hne
    rw [sweep_drops (byPid_eq_some.mp hlive.byPid) hleaves] at hswept
    cases hswept
  · intro hcond pid c cg hlive hdropped
    obtain ⟨hcg, hreaped⟩ := hcond pid c cg hlive
    have hstays : leaves env r pid (some c) = false := by
      simp only [leaves, hlive.cgroup, decide_eq_false_iff_not, not_not]
      exact hcg
    obtain ⟨hswept, hprocess⟩ := sweep_keeps (byPid_eq_some.mp hlive.byPid) hstays
    rcases hdropped with hgone | hleft
    · exact hgone (byPid_eq_some.mpr ((lookup_gcTick env r pid c).mpr ⟨hswept, hreaped⟩))
    · exact hleft ((processOf_gcTick env r c pid).trans (hprocess c))

/-- Every process whose cgroup is known for its container is in the cgroup that the container was
seen in last, and the container is not dead before the tick. -/
def AllCurrent (env : Env) (r : Registry) : Prop :=
  ∀ pid c cg, Live env r pid c cg → r.cgroupId c = some cg.id ∧
    ¬ (isDead env r c = true ∧ ∀ pid', r.byPid pid' = some c → leaves env r pid' (some c) = false)

theorem keepsLive_iff_allCurrent {env : Env} {r : Registry} (h : Indexed r) :
    KeepsLive env r ↔ AllCurrent env r := by
  rw [keepsLive_iff]
  refine forall_congr' fun pid => forall_congr' fun c => forall_congr' fun cg =>
    imp_congr_right fun hlive => and_congr_right fun _ => not_congr ?_
  rw [Reaped, isDead_sweep h]
  exact and_iff_right (h.exists_byId (.inr (.inr ⟨pid, byPid_eq_some.mp hlive.byPid⟩)))

/-- **Over every sequence of events, the ticks drop no process whose cgroup is known for its
container exactly when, at every tick, each such process is in the cgroup that its container was
seen in last, and its container is not dead.** -/
theorem live_processes_kept_iff [Netaddr] (filters : Filters)
    (events : List (Env × RegistryEvent)) :
    EveryStep (fun env r event => event = .gcTick → KeepsLive env r) (.new filters) events ↔
      EveryStep (fun env r event => event = .gcTick → AllCurrent env r) (.new filters) events :=
  everyStep_congr (I := Indexed) (fun _ e h _ => h.event e.2)
    (fun _ _ h => imp_congr_right fun _ => keepsLive_iff_allCurrent h) events
    (indexed_new filters)

/-! ## Two runs of a cron job -/

def firstPod : Cgroup := ⟨"/kubepods/pod1", 100⟩

def secondPod : Cgroup := ⟨"/kubepods/pod2", 200⟩

/-- Process 10 is in the first pod, process 11 in the second. The container id is that of the
cron job. -/
def cronJobEnv (now : Time) : Env where
  now := now
  readCgroup := fun pid =>
    if pid = 10 then some firstPod else if pid = 11 then some secondPod else none
  identify := fun _ _ => some "/k8s-cronjob/default/backup/main"
  skipped := fun _ => false
  made := true
  registered := true
  beginTime := fun pid => some (100 + pid)

def cronJobRegistry : Registry :=
  handleEvents (.new ⟨none, []⟩)
    [(cronJobEnv 1000, .processStart 10), (cronJobEnv 2000, .processStart 11)]

/-- The process of the first pod is dropped while it runs. -/
theorem older_pod_dropped : ∃ cg, Live (cronJobEnv 3000) cronJobRegistry 10 0 cg ∧
    (cronJobRegistry.processOf 0 10).isSome = true ∧
    (gcTick (cronJobEnv 3000) cronJobRegistry).byPid 10 = none ∧
    (gcTick (cronJobEnv 3000) cronJobRegistry).processOf 0 10 = none ∧
    Dropped cronJobRegistry (gcTick (cronJobEnv 3000) cronJobRegistry) 10 0 := by
  have hgone : (gcTick (cronJobEnv 3000) cronJobRegistry).byPid 10 = none := by decide +kernel
  exact ⟨firstPod, ⟨by decide +kernel, by decide +kernel, by decide +kernel⟩, by decide +kernel,
    hgone, by decide +kernel, .inl (by rw [hgone]; simp)⟩

end Containers
