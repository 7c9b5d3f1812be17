import NodeAgent.Containers.Eviction

/-!
# Dead containers and running processes

A container is deleted some time after its last process has exited. That its last process has
exited is read off the table of its processes, but the table has only the processes whose start was
seen and whose taskstats lookup succeeded; more of them may be mapped to the container.

* `running_not_dead` — no container with a running process is found dead
-/

namespace Containers

open Infra

/-! ## Zombies -/

/-- All known processes of the container have exited. -/
def Registry.Zombie (r : Registry) (c : Nat) : Prop :=
  ∃ k t, r.containers[c]? = some k ∧ k.zombieAt = some t

/-- The processes of a zombie have left the maps, too. -/
def NoneMapped (r : Registry) : Prop := ∀ pid c, r.byPid pid = some c → ¬ r.Zombie c

theorem noneMapped_new (filters : Filters) : NoneMapped (.new filters) :=
  fun _ _ h => by cases h

theorem isDead_eq_false {env : Env} {r : Registry} {c : Nat} (h : ¬ r.Zombie c) :
    isDead env r c = false := by
  simp only [isDead]
  split
  · rename_i k hk
    simp only [Container.dead]
    split
    · rfl
    · rename_i t ht
      exact absurd ⟨k, t, hk, ht⟩ h
  · rfl

theorem not_zombie_of_process {r : Registry} {c q : Nat} {p : Process} (h : Indexed r)
    (hp : r.processOf c q = some p) : ¬ r.Zombie c := by
  rintro ⟨k, t, hk, ht⟩
  rw [Registry.processOf, hk, Option.bind_some, h.settled c k hk t ht] at hp
  cases hp

section

variable {env : Env} {r r' : Registry} {pid c : Nat}

theorem zombie_of_modify {f : Container → Container}
    (hf : ∀ k, (f k).zombieAt = k.zombieAt) {j : Nat} (h : (r.modify c f).Zombie j) :
    r.Zombie j := by
  obtain ⟨k', t, hk', ht⟩ := h
  obtain ⟨k, hk, rfl⟩ := getElem?_modify_some hk'
  refine ⟨k, t, hk, ?_⟩
  split at ht
  · rw [hf] at ht
    exact ht
  · exact ht

theorem NoneMapped.quiet (h : NoneMapped r) {f : Container → Container}
    (hf : ∀ k, Quiet k (f k)) : NoneMapped (r.modify c f) :=
  fun pid j hpid hz => h pid j hpid (zombie_of_modify (fun k => (hf k).zombieAt) hz)

/-! ## Starts -/

theorem Found.zombie {o : Option Nat × Registry} (h : Found env r pid o) {j : Nat}
    (hz : o.2.Zombie j) : r.Zombie j := by
  obtain ⟨k', t, hk', ht⟩ := hz
  rcases h.containers j k' hk' with ⟨k, hk, hquiet⟩ | ⟨id, cg, rfl⟩
  · exact ⟨k, t, hk, hquiet.zombieAt ▸ ht⟩
  · cases ht

theorem zombieAt_onProcessStart {k : Container} {beginTime : Option Time}
    (h : beginTime.isSome = true) : (onProcessStart k pid beginTime).zombieAt = none := by
  obtain ⟨b, rfl⟩ := Option.isSome_iff_exists.mp h
  unfold onProcessStart
  simp only
  split
  · rfl
  split <;> rfl

theorem zombie_of_start {beginTime : Option Time} {j : Nat}
    (h : (r.modify c fun k => onProcessStart k pid beginTime).Zombie j) : r.Zombie j := by
  cases beginTime with
  | none => exact zombie_of_modify (fun _ => rfl) h
  | some b =>
    obtain ⟨k', t, hk', ht⟩ := h
    obtain ⟨k, hk, rfl⟩ := getElem?_modify_some hk'
    split at ht
    · rw [zombieAt_onProcessStart rfl] at ht
      cases ht
    · exact ⟨k, t, hk, ht⟩

/-! ## The events -/

/-- When the process leaves, another one is among the processes of its container, or no other one
is mapped to it. -/
def LastOut (r : Registry) (pid c : Nat) : Prop :=
  ∀ pid', pid' ≠ pid → r.byPid pid' = some c →
    ∃ q p, q ≠ pid ∧ r.processOf c q = some p

/-- The container that is found for the process is no zombie. -/
def Welcomed (env : Env) (r : Registry) (pid : Nat) : Prop :=
  ∀ c, (getOrCreateContainer env r pid).1 = some c → ¬ r.Zombie c

/-- A container is left without known processes only when no other process is mapped to it, and only
a start with taskstats maps a process to a zombie. -/
def Attended (env : Env) (r : Registry) : RegistryEvent → Prop
  | .gcTick => ∀ c pid pid', r.byPid pid = some c → leaves env r pid (some c) = true →
      r.byPid pid' = some c → leaves env r pid' (some c) = false →
      ∃ q p, r.processOf c q = some p ∧ leaves env r q (some c) = false
  | .processStart pid =>
    (∀ c, r.byPid pid = some c → leaves env r pid (some c) = true → LastOut r pid c) ∧
      ((env.beginTime pid).isSome = true ∨ Welcomed env (revalidate env r pid) pid)
  | .processExit pid _ => ∀ c, r.byPid pid = some c → LastOut r pid c
  | .fileOpen pid => Welcomed env r pid
  | .listenOpen pid => Welcomed env r pid
  | .connectionOpen e => Welcomed env r e.pid
  | _ => True

theorem byPid_of_erase (h : r'.containersByPid = r.containersByPid.erase pid) {pid' j : Nat}
    (hj : r'.byPid pid' = some j) : pid' ≠ pid ∧ r.byPid pid' = some j := by
  rw [Registry.byPid, h, Option.join_eq_some_iff] at hj
  obtain ⟨hne, hj⟩ := Dict.of_lookup_erase hj
  exact ⟨hne, Option.join_eq_some_iff.mpr hj⟩

theorem NoneMapped.unmap (h : NoneMapped r) :
    NoneMapped { r with containersByPid := r.containersByPid.erase pid } :=
  fun pid' j hpid' => h pid' j (byPid_of_erase rfl hpid').2

theorem NoneMapped.exit (h : NoneMapped r) (hi : Indexed r) (hpid : r.byPid pid = some c)
    (hlast : LastOut r pid c) (oomKill : Bool) (now : Time) :
    NoneMapped { r.modify c (fun k => onProcessExit k pid oomKill now) with
      containersByPid := r.containersByPid.erase pid } := by
  intro pid' j hpid' hz
  obtain ⟨hne, hbefore⟩ := byPid_of_erase (r := r) rfl hpid'
  by_cases hj : j = c
  · -- another process of the same container
    subst hj
    obtain ⟨q, p, hq, hp⟩ := hlast pid' hne hbefore
    refine not_zombie_of_process (q := q) (p := p) (hi.exit hpid oomKill now) ?_ hz
    obtain ⟨k, hk, hkq⟩ := Option.bind_eq_some_iff.mp hp
    rw [Registry.processOf, show (Registry.containers _)[j]? = _ from
      getElem?_modify_of_some hk, Option.bind_some, if_pos rfl]
    exact (AList.lookup_erase_ne hq).trans hkq
  · obtain ⟨k', t, hk', ht⟩ := hz
    obtain ⟨k, hk, rfl⟩ := getElem?_modify_some hk'
    rw [if_neg (Ne.symm hj)] at ht
    exact h pid' j hbefore ⟨k, t, hk, ht⟩

theorem NoneMapped.join (h : NoneMapped r) {o : Option Nat × Registry} (hj : Found env r pid o)
    (hw : ∀ c, o.1 = some c → ¬ r.Zombie c) : NoneMapped o.2 := by
  intro pid' c hc hz
  by_cases hne : pid' = pid
  · subst hne
    exact hw c (hj.own.symm.trans hc) (hj.zombie hz)
  · rw [hj.others pid' hne] at hc
    exact h pid' c hc (hj.zombie hz)

/-! ## The tick -/

theorem byPid_sweep (h : (sweep env r).byPid pid = some c) :
    r.byPid pid = some c ∧ leaves env r pid (some c) = false := by
  rw [byPid_eq_some] at h
  cases hlookup : r.containersByPid.lookup pid with
  | none =>
    rw [show (sweep env r).containersByPid.lookup pid = none from
      foldl_sweep_gone env pid _ r hlookup] at h
    cases h
  | some o =>
    cases hl : leaves env r pid o with
    | true =>
      rw [sweep_drops hlookup hl] at h
      cases h
    | false =>
      rw [(sweep_keeps hlookup hl).1, Option.some.injEq] at h
      subst h
      exact ⟨byPid_eq_some.mpr hlookup, hl⟩

theorem foldl_sweep_same (env : Env) (c : Nat) :
    ∀ (l : List (Sigma fun _ : Nat => Option Nat)) (r : Registry),
      (∀ e ∈ l, e.2 = some c → leaves env r e.1 e.2 = false) →
      (l.foldl (fun r e => sweepPid env r e.1 e.2) r).containers[c]? = r.containers[c]?
  | [], _, _ => rfl
  | e :: l, r, h => by
    rw [List.foldl_cons, foldl_sweep_same env c l _ fun e' he' hc =>
      (leaves_sweepPid env r e.1 e.2 _ _).trans (h e' (List.mem_cons_of_mem _ he') hc), sweepPid_eq]
    split
    · rename_i hleaves
      rw [containers_evict]
      cases ho : e.2 with
      | none => rfl
      | some j =>
        have hj : j ≠ c := by
          rintro rfl
          rw [h e List.mem_cons_self ho] at hleaves
          cases hleaves
        simp only [List.getElem?_modify, hj, if_false, Option.map_eq_map, Option.map_id']
    · rfl

theorem NoneMapped.sweep (h : NoneMapped r) (hi : Indexed r) (ha : Attended env r .gcTick) :
    NoneMapped (sweep env r) := by
  intro pid' c hpid' hz
  obtain ⟨hbefore, hstays⟩ := byPid_sweep hpid'
  by_cases hsome : ∃ pid, r.byPid pid = some c ∧ leaves env r pid (some c) = true
  · obtain ⟨pid, hpid, hleaves⟩ := hsome
    obtain ⟨q, p, hp, hq⟩ := ha c pid pid' hpid hleaves hbefore hstays
    -- one that stays is still among the processes
    obtain ⟨k, hk, hkq⟩ := Option.bind_eq_some_iff.mp hp
    have hlookup := byPid_eq_some.mp (hi.processes c k q p hk hkq)
    have hkept := (sweep_keeps hlookup hq).2 c
    exact not_zombie_of_process (hi.changes (sweep_changes env r)) (hkept.trans hp) hz
  · have hsame : (Containers.sweep env r).containers[c]? = r.containers[c]? := by
      refine foldl_sweep_same env c _ r fun e he hc => ?_
      by_contra hl
      exact hsome ⟨e.1, byPid_eq_some.mpr (hc ▸ Dict.lookup_of_mem he),
        by rw [← hc]; exact Bool.not_eq_false _ ▸ hl⟩
    obtain ⟨k, t, hk, ht⟩ := hz
    exact h pid' c hbefore ⟨k, t, hsame ▸ hk, ht⟩

theorem NoneMapped.gcTick (h : NoneMapped r) (hi : Indexed r) (ha : Attended env r .gcTick) :
    NoneMapped (gcTick env r) := by
  intro pid c hpid hz
  have hswept := ((lookup_gcTick env r pid c).mp (byPid_eq_some.mp hpid)).1
  refine h.sweep hi ha pid c (byPid_eq_some.mpr hswept) ?_
  obtain ⟨k, t, hk, ht⟩ := hz
  exact ⟨k, t, containers_gcTick env r ▸ hk, ht⟩

/-! ## Runs -/

theorem NoneMapped.processStart (h : NoneMapped r) (hi : Indexed r)
    (ha : Attended env r (.processStart pid)) : NoneMapped (handleProcessStart env r pid) := by
  obtain ⟨hout, hin⟩ := ha
  have hval : NoneMapped (revalidate env r pid) := by
    cases hpid : r.byPid pid with
    | none =>
      unfold revalidate
      split
      · exact h.unmap
      · rename_i c hc
        rw [byPid_eq_some.mpr hc] at hpid
        cases hpid
      · exact h
    | some c =>
      rw [revalidate_eq hpid]
      split
      · rename_i hleaves
        exact h.exit hi hpid (hout c hpid hleaves) false env.now
      · exact h
  have hfound := getOrCreateContainer_found env (revalidate env r pid) pid
  unfold handleProcessStart
  rcases hin with hbegin | hw
  · -- the start clears the mark of a zombie
    cases hget : getOrCreateContainer env (revalidate env r pid) pid with
    | mk o r' =>
      rw [hget] at hfound
      cases o with
      | none => exact hval.join hfound fun _ hc => by cases hc
      | some c =>
        intro pid' j hj hz
        obtain ⟨k', t, hk', ht⟩ := hz
        obtain ⟨k, hk, rfl⟩ := getElem?_modify_some hk'
        split at ht
        · rw [zombieAt_onProcessStart hbegin] at ht
          cases ht
        · rename_i hne
          have hpid' : pid' ≠ pid := by
            rintro rfl
            exact hne (Option.some.inj (hfound.own.symm.trans hj))
          have hbefore := (hfound.others pid' hpid').symm.trans hj
          exact hval pid' j hbefore (hfound.zombie ⟨k, t, hk, ht⟩)
  · have hj := hval.join hfound hw
    cases hget : getOrCreateContainer env (revalidate env r pid) pid with
    | mk o r' =>
      rw [hget] at hj
      cases o with
      | none => exact hj
      | some c => exact fun pid' j hpid' hz => hj pid' j hpid' (zombie_of_start hz)

theorem NoneMapped.connectionOpen [Netaddr] (h : NoneMapped r) {e : ConnectionOpen}
    (ha : Attended env r (.connectionOpen e)) : NoneMapped (handleConnectionOpen env r e) := by
  have hj := h.join (getOrCreateContainer_found env r e.pid) ha
  unfold handleConnectionOpen
  cases hget : getOrCreateContainer env r e.pid with
  | mk o r' =>
    rw [hget] at hj
    cases o with
    | none => exact hj
    | some c =>
      simp only
      split
      · rename_i k hk
        intro pid j hpid hz
        obtain ⟨k', t, hk', ht⟩ := hz
        simp only [getElem?_set_of_some hk] at hk'
        split at hk'
        · rename_i hcj
          subst hcj
          cases hk'
          rw [(quiet_onConnectionOpen r'.filters k _ env.now).zombieAt] at ht
          exact hj pid j hpid ⟨k, t, hk, ht⟩
        · exact hj pid j hpid ⟨k', t, hk', ht⟩
      · exact hj

/-- **An event that is attended to leaves no process mapped to a zombie.** -/
theorem NoneMapped.step [Netaddr] (h : NoneMapped r) (hi : Indexed r) {event : RegistryEvent}
    (ha : Attended env r event) : NoneMapped (handleEvent env r event) := by
  cases event with
  | gcTick => exact h.gcTick hi ha
  | processStart pid => exact h.processStart hi ha
  | processExit pid oomKill =>
    simp only [handleEvent]
    cases hpid : r.byPid pid with
    | none => exact h.unmap
    | some c => exact h.exit hi hpid (ha c hpid) oomKill env.now
  | fileOpen pid => exact h.join (getOrCreateContainer_found env r pid) ha
  | listenOpen pid => exact h.join (getOrCreateContainer_found env r pid) ha
  | connectionOpen e => exact h.connectionOpen ha
  | connectionClose pid fd timestamp stats =>
    simp only [handleEvent]
    split
    · exact h.quiet fun k => quiet_onConnectionClose k pid fd timestamp stats env.now
    · exact h
  | trafficStats pid fd sent received =>
    simp only [handleEvent]
    split
    · exact h.quiet fun k => quiet_updateConnectionTrafficStats k _ sent received
    · exact h
  | l7Request pid domains =>
    simp only [handleEvent]
    split
    · exact h
    · exact h

/-- At a tick, no container that a running process is mapped to is found dead. -/
def RunningNotDead (env : Env) (r : Registry) : Prop :=
  ∀ pid c, r.byPid pid = some c → (env.readCgroup pid).isSome = true →
    isDead env (sweep env r) c = false

theorem NoneMapped.runningNotDead (h : NoneMapped r) (hi : Indexed r) : RunningNotDead env r := by
  intro pid c hpid _
  by_contra hdead
  rw [Bool.not_eq_false, isDead_sweep hi, isDead_eq_false (h pid c hpid)] at hdead
  exact absurd hdead.1 (by decide)

end

/-- **In every run whose events are attended to, no container with a running process is found dead
at a tick.** -/
theorem running_not_dead [Netaddr] (filters : Filters) {events : List (Env × RegistryEvent)}
    (h : EveryStep Attended (.new filters) events) :
    EveryStep (fun env r event => event = .gcTick → RunningNotDead env r) (.new filters) events :=
  -- the invariant: the indexes agree, and no process is mapped to a zombie
  everyStep_imp (I := fun r => Indexed r ∧ NoneMapped r)
    (fun _ e hr hattended => ⟨hr.1.event e.2, hr.2.step hr.1 hattended⟩)
    (fun _ _ hr _ _ => hr.2.runningNotDead hr.1) events
    ⟨indexed_new filters, noneMapped_new filters⟩ h

/-! ## A process that was not seen to start -/

/-- All processes are in one cgroup. The taskstats lookup fails for process 11. -/
def webEnv (now : Time) : Env where
  now := now
  readCgroup := fun pid => if pid = 10 ∧ now > 2000 then none else some ⟨"/docker/web", 100⟩
  identify := fun _ _ => some "/docker/web"
  skipped := fun _ => false
  made := true
  registered := true
  beginTime := fun pid => if pid = 11 then none else some (100 + pid)

/-- Of two processes, the first one exits, and a tick comes long after that. -/
def webExited : List (Env × RegistryEvent) :=
  [(webEnv 1000, .processStart 10), (webEnv 1500, .processStart 12),
   (webEnv 2000, .processExit 10 false), (webEnv (2001 + gcInterval), .gcTick)]

theorem webExited_attended : EveryStep Attended (.new ⟨none, []⟩) webExited := by
  refine ⟨⟨fun c hc => (by cases hc), .inl rfl⟩, ⟨fun c hc => ?_, .inl rfl⟩, fun c hc => ?_, ?_,
    trivial⟩
  · cases hc.symm.trans (by decide +kernel : _ = none)
  · obtain rfl : 0 = c := Option.some.inj ((by decide +kernel : some 0 = _).trans hc)
    exact fun _ _ _ => ⟨12, ⟨112, 1⟩, by decide, by decide +kernel⟩
  · -- process 12 is the only one that is mapped
    intro c pid _ hpid hleaves _ _
    have hentries : (handleEvents (.new ⟨none, []⟩) (webExited.take 3)).containersByPid.entries =
        [⟨12, some 0⟩] := by decide +kernel
    have hmem := hentries ▸ Dict.mem_entries (e := ⟨pid, some c⟩).mpr (byPid_eq_some.mp hpid)
    rw [List.mem_singleton] at hmem
    cases hmem
    exact absurd hleaves (by decide +kernel)

/-- Its container is not dead at the tick. -/
theorem running_not_dead_web : isDead (webEnv (2001 + gcInterval))
    (sweep (webEnv (2001 + gcInterval)) (handleEvents (.new ⟨none, []⟩) (webExited.take 3))) 0 =
      false :=
  (running_not_dead ⟨none, []⟩ webExited_attended).2.2.2.1 rfl 12 0 (by decide +kernel)
    (by decide +kernel)

/-- Process 11 starts while process 10 runs, but its taskstats lookup fails. Process 10 exits. -/
def webUntracked : List (Env × RegistryEvent) :=
  [(webEnv 1000, .processStart 10), (webEnv 1500, .processStart 11),
   (webEnv 2000, .processExit 10 false), (webEnv (2001 + gcInterval), .gcTick)]

/-- The container of process 11 is found dead while the process runs. -/
theorem untracked_process_dead :
    ¬ EveryStep (fun env r event => event = .gcTick → RunningNotDead env r) (.new ⟨none, []⟩)
      webUntracked := by
  intro h
  have := h.2.2.2.1 rfl 11 0 (by decide +kernel) (by decide +kernel)
  exact absurd this (by decide +kernel)

end Containers
