import NodeAgent.Containers.Eviction

/-!
# The processes that are instrumented

`onProcessStart` makes a process, whose uprobes stay attached until it is closed; `onProcessExit`
closes the one in the table. A start under a pid that is in the table already replaces the entry and
closes nothing.

* `processes_released_iff` — all are released if and only if no start replaces an entry
-/

namespace Containers

open Infra

/-! ## One container -/

namespace Container

def Current (k : Container) (serial : Nat) : Prop :=
  ∃ pid p, k.processes.lookup pid = some p ∧ p.serial = serial

/-- A process that was made is in the table or was closed, and closed at most once. -/
def Released (k : Container) : Prop :=
  ∀ (serial n : Nat), k.closes[serial]? = some n → (k.Current serial ∨ 1 ≤ n) ∧ n ≤ 1

/-- The table has different processes, none of them closed. -/
structure Owned (k : Container) : Prop where
  current : ∀ pid p, k.processes.lookup pid = some p → k.closes[p.serial]? = some 0
  distinct : ∀ pid pid' p p', k.processes.lookup pid = some p →
    k.processes.lookup pid' = some p' → p.serial = p'.serial → pid = pid'
  once : ∀ (serial n : Nat), k.closes[serial]? = some n → n ≤ 1

end Container

section

variable {k k' : Container} {pid : Nat}

theorem Quiet.current (h : Quiet k k') {serial : Nat} : k'.Current serial ↔ k.Current serial := by
  unfold Container.Current
  rw [h.processes]

theorem Container.Released.quiet (h : k.Released) (hq : Quiet k k') : k'.Released := by
  intro serial n hn
  rw [hq.closes] at hn
  rw [hq.current]
  exact h serial n hn

theorem Container.Owned.quiet (h : k.Owned) (hq : Quiet k k') : k'.Owned := by
  obtain ⟨hcurrent, hdistinct, honce⟩ := h
  rw [← hq.processes] at hcurrent hdistinct
  rw [← hq.closes] at hcurrent honce
  exact ⟨hcurrent, hdistinct, honce⟩

theorem processes_onProcessStart (beginTime : Time) :
    (onProcessStart k pid (some beginTime)).processes =
      k.processes.insert pid ⟨beginTime, k.closes.length⟩ := by
  unfold onProcessStart
  simp only
  split
  · rfl
  · split <;> rfl

theorem closes_onProcessStart (beginTime : Time) :
    (onProcessStart k pid (some beginTime)).closes = k.closes ++ [0] := by
  unfold onProcessStart
  simp only
  split
  · rfl
  · split <;> rfl

theorem Container.Owned.start (h : k.Owned) (beginTime : Option Time) :
    (onProcessStart k pid beginTime).Owned := by
  cases beginTime with
  | none => exact h
  | some beginTime =>
    -- the serial of an older process is below the number of processes that were made
    have hlt : ∀ {pid' p}, k.processes.lookup pid' = some p → p.serial < k.closes.length :=
      fun {pid' p} hp => (List.getElem?_eq_some_iff.mp (h.current pid' p hp)).1
    refine ⟨fun pid' p hp => ?_, fun pid₁ pid₂ p₁ p₂ h₁ h₂ hserial => ?_, fun serial n hn => ?_⟩
    · rw [processes_onProcessStart] at hp
      rw [closes_onProcessStart]
      rcases Dict.of_lookup_insert hp with ⟨-, rfl⟩ | ⟨-, hp⟩
      · exact List.getElem?_concat_length
      · exact getElem?_concat_of_some (h.current pid' p hp)
    · rw [processes_onProcessStart] at h₁ h₂
      rcases Dict.of_lookup_insert h₁ with ⟨rfl, rfl⟩ | ⟨-, hold₁⟩ <;>
        rcases Dict.of_lookup_insert h₂ with ⟨rfl, rfl⟩ | ⟨-, hold₂⟩
      · rfl
      · have := hlt hold₂
        rw [← hserial] at this
        exact absurd this (lt_irrefl _)
      · have := hlt hold₁
        rw [hserial] at this
        exact absurd this (lt_irrefl _)
      · exact h.distinct pid₁ pid₂ p₁ p₂ hold₁ hold₂ hserial
    · rw [closes_onProcessStart] at hn
      rcases of_getElem?_concat hn with hn | ⟨-, rfl⟩
      · exact h.once serial n hn
      · exact Nat.zero_le 1

theorem closes_onProcessExit (oomKill : Bool) (now : Time) (serial : Nat) :
    (onProcessExit k pid oomKill now).closes[serial]? =
      if ∃ p, k.processes.lookup pid = some p ∧ p.serial = serial
      then k.closes[serial]?.map (· + 1) else k.closes[serial]? := by
  simp only [onProcessExit]
  cases hp : k.processes.lookup pid with
  | none => simp
  | some p =>
    simp only [List.getElem?_modify, Option.some.injEq, exists_eq_left', Option.map_eq_map]
    split
    · rfl
    · exact Option.map_id'

theorem Container.Owned.exit (h : k.Owned) (oomKill : Bool) (now : Time) :
    (onProcessExit k pid oomKill now).Owned := by
  -- the table without the pid
  have hbefore : ∀ {pid' p}, (onProcessExit k pid oomKill now).processes.lookup pid' = some p →
      pid' ≠ pid ∧ k.processes.lookup pid' = some p := fun {pid' p} hp => by
    change (k.processes.erase pid).lookup pid' = some p at hp
    exact Dict.of_lookup_erase hp
  refine ⟨fun pid' p hp => ?_, fun pid₁ pid₂ p₁ p₂ h₁ h₂ hserial => ?_, fun serial n hn => ?_⟩
  · obtain ⟨hne, hp⟩ := hbefore hp
    rw [closes_onProcessExit, if_neg]
    · exact h.current pid' p hp
    · rintro ⟨q, hq, hserial⟩
      exact hne (h.distinct pid' pid p q hp hq hserial.symm)
  · exact h.distinct pid₁ pid₂ p₁ p₂ (hbefore h₁).2 (hbefore h₂).2 hserial
  · rw [closes_onProcessExit] at hn
    split at hn
    · rename_i hclosed
      obtain ⟨p, hp, rfl⟩ := hclosed
      rw [h.current pid p hp, Option.map_some, Option.some.injEq] at hn
      exact hn.ge
    · exact h.once serial n hn

theorem Container.Released.exit (h : k.Released) (ho : k.Owned) (oomKill : Bool) (now : Time) :
    (onProcessExit k pid oomKill now).Released := by
  intro serial n hn
  refine ⟨?_, (ho.exit oomKill now).once serial n hn⟩
  rw [closes_onProcessExit] at hn
  split at hn
  · rename_i hclosed
    obtain ⟨p, hp, rfl⟩ := hclosed
    rw [ho.current pid p hp, Option.map_some, Option.some.injEq] at hn
    exact .inr hn.le
  · rename_i hother
    rcases (h serial n hn).1 with ⟨pid', p, hp, hserial⟩ | hclosed
    · have hne : pid' ≠ pid := by
        rintro rfl
        exact hother ⟨p, hp, hserial⟩
      exact .inl ⟨pid', p, (AList.lookup_erase_ne hne).trans hp, hserial⟩
    · exact .inr hclosed

theorem Container.Released.start (h : k.Released) (hpid : k.processes.lookup pid = none)
    (beginTime : Time) : (onProcessStart k pid (some beginTime)).Released := by
  intro serial n hn
  unfold Container.Current
  rw [processes_onProcessStart]
  rw [closes_onProcessStart] at hn
  by_cases hlt : serial < k.closes.length
  · rw [List.getElem?_append_left hlt] at hn
    obtain ⟨⟨pid', p, hp, hserial⟩ | hclosed, honce⟩ := h serial n hn
    · have hne : pid' ≠ pid := by
        rintro rfl
        rw [hpid] at hp
        cases hp
      exact ⟨.inl ⟨pid', p, (AList.lookup_insert_ne hne).trans hp, hserial⟩, honce⟩
    · exact ⟨.inr hclosed, honce⟩
  · rw [List.getElem?_append_right (by omega)] at hn
    obtain ⟨hzero, rfl⟩ := List.getElem?_eq_some_iff.mp hn
    have hserial : k.closes.length = serial := by
      simp only [List.length_singleton] at hzero
      omega
    refine ⟨.inl ⟨pid, _, AList.lookup_insert _, hserial⟩, ?_⟩
    rw [List.getElem_singleton]
    exact Nat.zero_le 1

theorem not_released_start {p : Process} (ho : k.Owned) (hp : k.processes.lookup pid = some p)
    (beginTime : Time) : ¬ (onProcessStart k pid (some beginTime)).Released := by
  intro h
  have hcount : (onProcessStart k pid (some beginTime)).closes[p.serial]? = some 0 := by
    rw [closes_onProcessStart]
    exact getElem?_concat_of_some (ho.current pid p hp)
  obtain ⟨⟨pid', p', hp', hserial⟩ | hclosed, -⟩ := h p.serial 0 hcount
  · rw [processes_onProcessStart] at hp'
    rcases Dict.of_lookup_insert hp' with ⟨-, rfl⟩ | ⟨hne, hp'⟩
    · -- the new process has another serial
      have hlt := (List.getElem?_eq_some_iff.mp (ho.current pid p hp)).1
      rw [← hserial] at hlt
      exact lt_irrefl _ hlt
    · exact hne (ho.distinct pid' pid p' p hp' hp hserial)
  · exact absurd hclosed (by decide)

end

/-! ## The registry -/

section

variable {env : Env} {r r' : Registry} {pid c : Nat} {Q : Container → Prop}

/-- All containers that were made have a property, also those that were deleted since. -/
def Registry.Each (r : Registry) (Q : Container → Prop) : Prop :=
  ∀ (c : Nat) (k : Container), r.containers[c]? = some k → Q k

theorem Registry.Each.modify (h : r.Each Q) {f : Container → Container}
    (hf : ∀ k, r.containers[c]? = some k → Q (f k)) : (r.modify c f).Each Q := by
  intro j k' hk'
  obtain ⟨k, hk, rfl⟩ := getElem?_modify_some hk'
  split
  · rename_i hj
    exact hf k (hj ▸ hk)
  · exact h j k hk

/-- What exits and changes that have nothing to do with the processes keep. -/
structure Kept (Q : Container → Prop) : Prop where
  quiet : ∀ {k k'}, Q k → Quiet k k' → Q k'
  new : ∀ id cg, Q (newContainer id cg)
  exit : ∀ {k}, Q k → ∀ pid oomKill now, Q (onProcessExit k pid oomKill now)

theorem Kept.change (hQ : Kept Q) (h : r.Each Q) (hchange : Change env r r') : r'.Each Q := by
  cases hchange with
  | other hs => exact fun j k hk => h j k (hs.containers ▸ hk)
  | quiet c hf => exact h.modify fun k hk => hQ.quiet (h c k hk) (hf k)
  | unmap => exact h
  | assign => exact h
  | @join pid c cg id =>
    exact h.modify fun k hk => hQ.quiet (h c k hk) (by split <;> exact ⟨rfl, rfl, rfl, rfl⟩)
  | create =>
    intro j k hk
    rcases of_getElem?_concat hk with hk | ⟨-, rfl⟩
    · exact h j k hk
    · exact hQ.new _ _
  | @exit pid c hpid oomKill => exact h.modify fun k hk => hQ.exit (h c k hk) pid oomKill env.now
  | reap => exact h

theorem Kept.changes (hQ : Kept Q) (h : r.Each Q) (hchanges : Changes env r r') : r'.Each Q := by
  induction hchanges with
  | refl => exact h
  | tail _ hlast ih => exact hQ.change ih hlast

theorem kept_owned : Kept Container.Owned where
  quiet h hq := h.quiet hq
  new _ _ := ⟨fun _ _ h => (by cases h), fun _ _ _ _ h => (by cases h), fun _ _ h => (by cases h)⟩
  exit h _ oomKill now := h.exit oomKill now

theorem kept_released : Kept fun k => k.Owned ∧ k.Released where
  quiet h hq := ⟨h.1.quiet hq, h.2.quiet hq⟩
  new id cg := ⟨kept_owned.new id cg, fun _ _ h => by cases h⟩
  exit h _ oomKill now := ⟨h.1.exit oomKill now, h.2.exit h.1 oomKill now⟩

/-- The start of a process that is in the table of the container it is found in again. -/
def Replaces (env : Env) (r : Registry) (pid : Nat) : Prop :=
  ∃ c, r.byPid pid = some c ∧ leaves env r pid (some c) = false ∧
    (r.processOf c pid).isSome = true ∧ (env.beginTime pid).isSome = true

def NotReplacing (env : Env) (r : Registry) : RegistryEvent → Prop
  | .processStart pid => ¬ Replaces env r pid
  | _ => True

theorem byPid_revalidate (hpid : r.byPid pid = none) : (revalidate env r pid).byPid pid = none := by
  unfold revalidate
  split
  · simp only [Registry.byPid, AList.lookup_erase, Option.join_none]
  · rename_i c hc
    rw [byPid_eq_some.mpr hc] at hpid
    cases hpid
  · exact hpid

theorem processOf_found (hi : Indexed r) {p : Process}
    (hp : (getOrCreateContainer env (revalidate env r pid) pid).2.processOf c pid = some p) :
    r.byPid pid = some c ∧ leaves env r pid (some c) = false ∧ r.processOf c pid = some p := by
  have hval : (revalidate env r pid).processOf c pid = some p := by
    obtain ⟨k', hk', hlookup⟩ := Option.bind_eq_some_iff.mp hp
    rcases (getOrCreateContainer_found env (revalidate env r pid) pid).containers c k' hk' with
      ⟨k, hk, hquiet⟩ | ⟨id, cg, rfl⟩
    · rw [hquiet.processes] at hlookup
      rw [Registry.processOf, hk]
      exact hlookup
    · cases hlookup
  have hmapped : (revalidate env r pid).byPid pid = some c := by
    obtain ⟨k, hk, hlookup⟩ := Option.bind_eq_some_iff.mp hval
    exact (hi.changes (revalidate_changes env r pid)).processes c k pid p hk hlookup
  cases hpid : r.byPid pid with
  | none =>
    rw [byPid_revalidate hpid] at hmapped
    cases hmapped
  | some c' =>
    rw [revalidate_eq hpid] at hval hmapped
    split at hmapped
    · -- the process was evicted
      rw [Registry.byPid, byPid_evict, AList.lookup_erase] at hmapped
      cases hmapped
    · rename_i hleaves
      rw [if_neg hleaves] at hval
      obtain rfl : c' = c := Option.some.inj (hpid.symm.trans hmapped)
      exact ⟨rfl, Bool.not_eq_true _ ▸ hleaves, hval⟩

theorem Kept.event [Netaddr] (hQ : Kept Q) (h : r.Each Q) (event : RegistryEvent)
    (hstart : ∀ pid, event = .processStart pid →
      ∀ (c : Nat) k,
        (getOrCreateContainer env (revalidate env r pid) pid).2.containers[c]? = some k → Q k →
        Q (onProcessStart k pid (env.beginTime pid))) :
    (handleEvent env r event).Each Q := by
  by_cases hevent : ∃ pid, event = .processStart pid
  · obtain ⟨pid, rfl⟩ := hevent
    show (handleProcessStart env r pid).Each Q
    obtain ⟨hchanges, ⟨_, heq⟩ | ⟨c, _, heq⟩⟩ := handleProcessStart_cases env r pid
    · rw [heq]
      exact hQ.changes h hchanges
    · rw [heq]
      have hfound := hQ.changes h hchanges
      exact hfound.modify fun k hk => hstart pid rfl c k hk (hfound c k hk)
  · exact hQ.changes h (handleEvent_changes env r event fun pid hpid => hevent ⟨pid, hpid⟩)

theorem owned_event [Netaddr] (h : r.Each Container.Owned) (event : RegistryEvent) :
    (handleEvent env r event).Each Container.Owned :=
  kept_owned.event h event fun _ _ _ _ _ ho => ho.start _

/-- **An event that replaces no entry leaves every process released.** -/
theorem released_event [Netaddr] (hi : Indexed r) (h : r.Each fun k => k.Owned ∧ k.Released)
    {event : RegistryEvent} (hnot : NotReplacing env r event) :
    (handleEvent env r event).Each fun k => k.Owned ∧ k.Released := by
  refine kept_released.event h event ?_
  rintro pid rfl c k hk ⟨ho, hr⟩
  cases hbegin : env.beginTime pid with
  | none => exact ⟨ho, hr⟩
  | some beginTime =>
    refine ⟨ho.start _, hr.start ?_ beginTime⟩
    by_contra hp
    obtain ⟨p, hp⟩ := Option.ne_none_iff_exists'.mp hp
    have hfound : Registry.processOf _ c pid = some p := Option.bind_eq_some_iff.mpr ⟨k, hk, hp⟩
    obtain ⟨hpid, hleaves, hbefore⟩ := processOf_found hi hfound
    exact hnot ⟨c, hpid, hleaves, Option.isSome_of_eq_some hbefore,
      Option.isSome_of_eq_some hbegin⟩

theorem not_released_event [Netaddr] (h : r.Each Container.Owned) (hreplaces : Replaces env r pid) :
    ¬ (handleEvent env r (.processStart pid)).Each Container.Released := by
  obtain ⟨c, hpid, hleaves, hp, hbegin⟩ := hreplaces
  obtain ⟨p, hp⟩ := Option.isSome_iff_exists.mp hp
  obtain ⟨beginTime, hbegin⟩ := Option.isSome_iff_exists.mp hbegin
  obtain ⟨k, hk, hp⟩ := Option.bind_eq_some_iff.mp hp
  have hval : revalidate env r pid = r := by
    rw [revalidate_eq hpid, hleaves]
    rfl
  have hget : getOrCreateContainer env r pid = (some c, r) := by
    unfold getOrCreateContainer
    rw [hpid]
  intro hreleased
  refine not_released_start (h c k hk) hp beginTime (hreleased c _ ?_)
  show (handleProcessStart env r pid).containers[c]? = _
  rw [handleProcessStart, hval, hget, hbegin]
  exact (getElem?_modify_of_some hk).trans (congrArg some (if_pos rfl))

end

/-! ## Runs -/

abbrev EveryState [Netaddr] (P : Registry → Prop) : Registry → List (Env × RegistryEvent) → Prop :=
  Infra.EveryState (fun r e => handleEvent e.1 r e.2) P

theorem released_event_iff [Netaddr] {env : Env} {r : Registry} (event : RegistryEvent)
    (hinv : Indexed r ∧ r.Each Container.Owned) (h : r.Each Container.Released) :
    (handleEvent env r event).Each Container.Released ↔ NotReplacing env r event := by
  obtain ⟨hi, ho⟩ := hinv
  refine ⟨fun hnext => ?_, fun hnot c k hk => ?_⟩
  · cases event with
    | processStart pid => exact fun hreplaces => not_released_event ho hreplaces hnext
    | _ => trivial
  · exact (released_event hi (fun c k hk => ⟨ho c k hk, h c k hk⟩) hnot c k hk).2

/-- **The processes of a run are released in all of its states if and only if no start replaces a
process that is in the table.** -/
theorem processes_released_iff [Netaddr] (filters : Filters) (events : List (Env × RegistryEvent)) :
    EveryState (·.Each Container.Released) (.new filters) events ↔
      EveryStep NotReplacing (.new filters) events :=
  everyState_iff_everyStep (I := fun r => Indexed r ∧ r.Each Container.Owned)
    (fun _ e hr => ⟨hr.1.event e.2, owned_event hr.2 e.2⟩)
    (fun _ e hr h => released_event_iff e.2 hr h) events
    ⟨indexed_new filters, fun _ _ hk => by cases hk⟩ fun _ _ hk => by cases hk

/-! ## A process that is seen twice -/

def scanEnv (now : Time) : Env where
  now := now
  readCgroup := fun _ => some ⟨"/docker/web", 100⟩
  identify := fun _ _ => some "/docker/web"
  skipped := fun _ => false
  made := true
  registered := true
  beginTime := fun _ => some 100

/-- The scan at the start of the agent finds process 10, and the kernel reports its start. -/
def scannedAndReported : List (Env × RegistryEvent) :=
  [(scanEnv 1000, .processStart 10), (scanEnv 1001, .processStart 10),
   (scanEnv 1002, .processExit 10 false)]

/-- The first of its two processes is never closed, not even when it has exited. -/
theorem scanned_process_leaks :
    (handleEvents (.new ⟨none, []⟩) scannedAndReported).containers.map
        (fun k => (k.processes.entries.length, k.closes)) = [(0, [0, 1])] ∧
      ¬ EveryState (·.Each Container.Released) (.new ⟨none, []⟩) scannedAndReported := by
  refine ⟨by decide +kernel, fun h => ?_⟩
  have hreleased := h.2.2.2 0 _ rfl
  exact absurd (hreleased 0 0 rfl).1 (by
    rintro (⟨pid, p, hp, -⟩ | hclosed)
    · cases hp
    · exact absurd hclosed (by decide))

end Containers
