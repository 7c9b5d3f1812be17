import NodeAgent.Containers.Eviction

/-!
# The names of destinations

A connection to an external address is accounted under the name of the address, when the registry
has seen a DNS answer with several addresses for it. The tick of the registry forgets the names of
all addresses that are in no `lastConnectionAttempts`, where a destination that is known by its name
does not count.

* `naming_stable_iff` — when two connections to one destination have the same key
-/

namespace Containers

open Infra

variable {e : ConnectionOpen} {actualDst : IPPort} {ip : IP}

/-! ## Events -/

/-- The end of `onDNSRequest`: the addresses of a name. -/
def dnsDomains [Netaddr] (fqdn : String) (ips : List IP) : List (IP × Domain) :=
  if fqdn = "" then [] else ips.map (fun ip => (ip, newDomain fqdn ips))

/-- What can happen to the names: an event of the registry, or the gc of a container. -/
inductive NamingEvent where
  | registry (env : Env) (event : RegistryEvent)
  | containerGc (c : Nat) (env : GcEnv)

namespace NamingEvent

def apply [Netaddr] (r : Registry) : NamingEvent → Registry
  | .registry env event => handleEvent env r event
  | .containerGc c env => r.modify c (fun k => k.gc env)

def Mentions (ip : IP) : NamingEvent → Prop
  | .registry _ (.l7Request _ domains) => ip ∈ domains.map Prod.fst
  | _ => False

end NamingEvent

/-- A connection that is opened and kept: its container, its actual destination and its key. -/
def opened [Netaddr] (env : Env) (r : Registry) (e : ConnectionOpen) :
    Option (Nat × IPPort × DestinationKey) :=
  match getOrCreateContainer env r e.pid with
  | (some c, r) =>
    match r.containers[c]? with
    | some k =>
      match (filterConnection r.filters k e).1 with
      | some actualDst =>
        if e.failed then none
        else some (c, actualDst, newDestinationKey e.dst actualDst (r.ip2fqdn.lookup e.dst.ip))
      | none => none
    | none => none
  | (none, _) => none

theorem key_openConnection (k : Container) (e : ConnectionOpen) (key : DestinationKey)
    (now : Time) : ∃ conn, (openConnection k e key now).connections[k.connections.length]? =
      some conn ∧ conn.destinationKey = key := by
  have hadd : (addConnection k e key).connections[k.connections.length]? = _ :=
    List.getElem?_concat_length
  unfold openConnection
  split
  · rw [closeConnection, List.getElem?_modify, hadd]
    refine ⟨_, rfl, ?_⟩
    split <;> rfl
  · exact ⟨_, hadd, rfl⟩

/-- **The container has a new connection with this key, and an attempt to its destination.** -/
theorem opened_recorded [Netaddr] {env : Env} {r : Registry} {c : Nat} {key : DestinationKey}
    (h : opened env r e = some (c, actualDst, key)) :
    ∃ k k' conn, (getOrCreateContainer env r e.pid).2.containers[c]? = some k ∧
      (handleConnectionOpen env r e).containers[c]? = some k' ∧
      k'.connections[k.connections.length]? = some conn ∧ conn.destinationKey = key ∧
      key.destination ∈ k'.lastConnectionAttempts := by
  revert h
  unfold opened handleConnectionOpen
  rcases getOrCreateContainer env r e.pid with ⟨found, r'⟩
  cases found with
  | none => exact fun h => by cases h
  | some c' =>
    simp only
    cases hk : r'.containers[c']? with
    | none => exact fun h => by cases h
    | some k =>
      simp only
      -- the filters look neither at the domain nor at the time
      have hfilter : filterConnection r'.filters k { e with
          domain := r'.ip2fqdn.lookup e.dst.ip, timestamp := if e.failed then 0 else e.timestamp } =
            filterConnection r'.filters k e := rfl
      unfold onConnectionOpen
      rw [hfilter]
      rcases filterConnection r'.filters k e with ⟨kept, filters⟩
      cases kept with
      | none => exact fun h => by cases h
      | some actualDst =>
        intro h
        simp only at h
        by_cases hfailed : e.failed = true
        · rw [if_pos hfailed] at h
          cases h
        · rw [if_neg hfailed] at h
          cases h
          simp only [if_neg hfailed]
          have hlt := (List.getElem?_eq_some_iff.mp hk).1
          obtain ⟨conn, hconn, hkey⟩ := key_openConnection k
            { e with domain := r'.ip2fqdn.lookup e.dst.ip, timestamp := e.timestamp } _ env.now
          refine ⟨k, _, conn, hk, List.getElem?_set_self hlt, hconn, hkey, ?_⟩
          exact AList.mem_insert _ |>.mpr (.inl rfl)

/-! ## What does not touch the names -/

section

variable (env : Env) (r : Registry)

theorem ip2fqdn_createContainer (pid : Nat) (cg : Cgroup) (id : String) :
    (createContainer env r pid cg id).2.ip2fqdn = r.ip2fqdn := by
  unfold createContainer
  split
  · rfl
  · split <;> rfl

theorem ip2fqdn_getOrCreateContainer (pid : Nat) :
    (getOrCreateContainer env r pid).2.ip2fqdn = r.ip2fqdn := by
  unfold getOrCreateContainer
  split
  · rfl
  split
  · rfl
  simp only
  split
  · rfl
  unfold containerByCgroup
  split
  · rfl
  split
  · rfl
  split
  · split <;> rfl
  split
  · rfl
  · exact ip2fqdn_createContainer env _ pid _ _

theorem ip2fqdn_exitProcess (c : Option Nat) (pid : Nat) (oomKill : Bool) :
    (exitProcess env r c pid oomKill).ip2fqdn = r.ip2fqdn := by
  unfold exitProcess
  split <;> rfl

theorem ip2fqdn_evict (pid : Nat) (c : Option Nat) : (evict env r pid c).ip2fqdn = r.ip2fqdn :=
  ip2fqdn_exitProcess env _ c pid false

theorem ip2fqdn_revalidate (pid : Nat) : (revalidate env r pid).ip2fqdn = r.ip2fqdn := by
  unfold revalidate
  split
  · rfl
  · split
    · exact ip2fqdn_evict env r pid _
    · split
      · exact ip2fqdn_evict env r pid _
      · rfl
  · rfl

theorem ip2fqdn_sweep : (sweep env r).ip2fqdn = r.ip2fqdn := by
  refine List.foldlRecOn (motive := fun r' : Registry => r'.ip2fqdn = r.ip2fqdn) _ _ rfl
    fun r' h entry _ => ?_
  rw [sweepPid_eq]
  split
  · exact (ip2fqdn_evict env r' entry.1 entry.2).trans h
  · exact h

theorem ip2fqdn_reap : (reap env r).ip2fqdn = r.ip2fqdn := by
  refine List.foldlRecOn (motive := fun r' : Registry => r'.ip2fqdn = r.ip2fqdn) _ _ rfl
    fun r' h entry _ => ?_
  rw [reapContainer]
  split
  · exact h
  · exact h

end

/-! ## The addresses that a tick keeps -/

/-- Some container that is known by its id has tried to connect to this very address. -/
def Contacted (r : Registry) (ip : IP) : Prop :=
  ∃ id c k dst, r.containersById.lookup id = some c ∧ r.containers[c]? = some k ∧
    dst ∈ k.lastConnectionAttempts ∧ dst.ip = ip

theorem mem_activeIPs {r : Registry} : ip ∈ activeIPs r ↔ Contacted r ip := by
  rw [activeIPs, List.mem_flatMap]
  constructor
  · rintro ⟨⟨id, c⟩, hentry, hip⟩
    have hid : r.containersById.lookup id = some c := AList.mem_lookup_iff.mpr hentry
    simp only at hip
    cases hk : r.containers[c]? with
    | none =>
      rw [hk] at hip
      cases hip
    | some k =>
      rw [hk] at hip
      obtain ⟨⟨dst, at'⟩, hdst, rfl⟩ := List.mem_map.mp hip
      exact ⟨id, c, k, dst, hid, hk, AList.mem_keys.mpr (List.mem_keys_of_mem hdst), rfl⟩
  · rintro ⟨id, c, k, dst, hid, hk, hdst, rfl⟩
    obtain ⟨at', hat⟩ := List.exists_of_mem_keys (AList.mem_keys.mp hdst)
    refine ⟨⟨id, c⟩, AList.mem_lookup_iff.mp hid, ?_⟩
    simp only [hk]
    exact List.mem_map.mpr ⟨⟨dst, at'⟩, hat, rfl⟩

def attempts (r : Registry) (c : Nat) : Option (Dict HostPort Time) :=
  (r.containers[c]?).map Container.lastConnectionAttempts

theorem attempts_modify {r : Registry} {f : Container → Container}
    (hf : ∀ k, (f k).lastConnectionAttempts = k.lastConnectionAttempts) (j c : Nat) :
    attempts (r.modify j f) c = attempts r c := by
  simp only [attempts, Registry.modify, List.getElem?_modify]
  cases r.containers[c]? with
  | none => rfl
  | some k =>
    simp only [Option.map_eq_map, Option.map_some]
    split
    · rw [hf]
    · rfl

theorem attempts_sweep (env : Env) (r : Registry) (c : Nat) :
    attempts (sweep env r) c = attempts r c := by
  refine List.foldlRecOn (motive := fun r' : Registry => attempts r' c = attempts r c) _ _ rfl
    fun r' h entry _ => ?_
  rw [sweepPid_eq]
  split
  · cases hc : entry.2 with
    | none => exact h
    | some j =>
      have hexit : ∀ k, (onProcessExit k entry.1 false env.now).lastConnectionAttempts =
          k.lastConnectionAttempts := fun _ => rfl
      exact (attempts_modify hexit j c).trans h
  · exact h

theorem contacted_congr {r r' : Registry} (hid : r'.containersById = r.containersById)
    (hattempts : ∀ c, attempts r' c = attempts r c) (h : Contacted r ip) : Contacted r' ip := by
  obtain ⟨id, c, k, dst, hlookup, hk, hdst, hip⟩ := h
  have hc : attempts r' c = some k.lastConnectionAttempts := by
    rw [hattempts, attempts, hk]
    rfl
  obtain ⟨k', hk', heq⟩ := Option.map_eq_some_iff.mp hc
  exact ⟨id, c, k', dst, by rw [hid]; exact hlookup, hk', by rw [heq]; exact hdst, hip⟩

theorem contacted_sweep {env : Env} {r : Registry} : Contacted (sweep env r) ip ↔ Contacted r ip :=
  ⟨contacted_congr (byId_sweep env r).symm fun c => (attempts_sweep env r c).symm,
    contacted_congr (byId_sweep env r) (attempts_sweep env r)⟩

/-! ## Names -/

/-- The event does not make the registry forget the address. -/
def Remembers (ip : IP) (r : Registry) : NamingEvent → Prop
  | .registry _ .gcTick => Contacted r ip
  | _ => True

theorem lookup_gcTick_ip {env : Env} {r : Registry} :
    (Contacted r ip → (gcTick env r).ip2fqdn.lookup ip = r.ip2fqdn.lookup ip) ∧
      (¬ Contacted r ip → (gcTick env r).ip2fqdn.lookup ip = none) := by
  let swept : Registry := { sweep env r with containersByPidIgnored := ∅ }
  have hactive : ip ∈ activeIPs swept ↔ Contacted r ip := mem_activeIPs.trans contacted_sweep
  have hnames : (reap env swept).ip2fqdn = r.ip2fqdn :=
    (ip2fqdn_reap env swept).trans (ip2fqdn_sweep env r)
  have hlookup : (gcTick env r).ip2fqdn.lookup ip =
      (r.ip2fqdn.lookup ip).filter (fun _ => decide (ip ∈ activeIPs swept)) := by
    show ((reap env swept).ip2fqdn.filter _).lookup ip = _
    rw [hnames, Dict.lookup_filter]
  rw [hlookup]
  constructor
  · intro hcontacted
    rw [decide_eq_true (hactive.mpr hcontacted)]
    cases r.ip2fqdn.lookup ip <;> rfl
  · intro hnot
    rw [decide_eq_false fun hmem => hnot (hactive.mp hmem)]
    cases r.ip2fqdn.lookup ip <;> rfl

theorem ip2fqdn_handleConnectionOpen [Netaddr] (env : Env) (r : Registry) (e : ConnectionOpen) :
    (handleConnectionOpen env r e).ip2fqdn = r.ip2fqdn := by
  rw [← ip2fqdn_getOrCreateContainer env r e.pid]
  unfold handleConnectionOpen
  split
  · next hfound =>
    rw [hfound]
    simp only
    split <;> rfl
  · next hfound => rw [hfound]

theorem ip2fqdn_handleProcessStart (env : Env) (r : Registry) (pid : Nat) :
    (handleProcessStart env r pid).ip2fqdn = r.ip2fqdn := by
  rw [← ip2fqdn_revalidate env r pid,
    ← ip2fqdn_getOrCreateContainer env (revalidate env r pid) pid]
  unfold handleProcessStart
  split
  · next hfound =>
    rw [hfound]
    rfl
  · next hfound => rw [hfound]

/-- **An event that does not mention an address keeps its name, or forgets it.** -/
theorem lookup_naming [Netaddr] {r : Registry} {event : NamingEvent} (h : ¬ event.Mentions ip) :
    (Remembers ip r event → (event.apply r).ip2fqdn.lookup ip = r.ip2fqdn.lookup ip) ∧
      (¬ Remembers ip r event → (event.apply r).ip2fqdn.lookup ip = none) := by
  have hsame : ∀ {event : NamingEvent}, Remembers ip r event →
      (event.apply r).ip2fqdn.lookup ip = r.ip2fqdn.lookup ip →
      (Remembers ip r event → (event.apply r).ip2fqdn.lookup ip = r.ip2fqdn.lookup ip) ∧
        (¬ Remembers ip r event → (event.apply r).ip2fqdn.lookup ip = none) :=
    fun hremembers heq => ⟨fun _ => heq, fun hnot => absurd hremembers hnot⟩
  cases event with
  | containerGc c env => exact hsame trivial rfl
  | registry env event =>
    cases event with
    | gcTick => exact lookup_gcTick_ip
    | processStart pid =>
      exact hsame trivial (congrArg (AList.lookup ip) (ip2fqdn_handleProcessStart env r pid))
    | processExit pid oomKill =>
      exact hsame trivial
        (congrArg (AList.lookup ip) (ip2fqdn_exitProcess env r (r.byPid pid) pid oomKill))
    | fileOpen pid =>
      exact hsame trivial (congrArg (AList.lookup ip) (ip2fqdn_getOrCreateContainer env r pid))
    | listenOpen pid =>
      exact hsame trivial (congrArg (AList.lookup ip) (ip2fqdn_getOrCreateContainer env r pid))
    | connectionOpen e =>
      exact hsame trivial (congrArg (AList.lookup ip) (ip2fqdn_handleConnectionOpen env r e))
    | connectionClose pid fd timestamp stats =>
      refine hsame trivial ?_
      simp only [NamingEvent.apply, handleEvent]
      split <;> rfl
    | trafficStats pid fd sent received =>
      refine hsame trivial ?_
      simp only [NamingEvent.apply, handleEvent]
      split <;> rfl
    | l7Request pid domains =>
      refine hsame trivial ?_
      simp only [NamingEvent.apply, handleEvent]
      split
      · exact Dict.lookup_foldl_insert_cases.2 h
      · rfl

theorem lookup_run [Netaddr] {ip : IP} : ∀ (events : List NamingEvent) {r : Registry},
    (∀ event ∈ events, ¬ event.Mentions ip) →
    (Infra.EveryStep NamingEvent.apply (Remembers ip) r events →
      (events.foldl NamingEvent.apply r).ip2fqdn.lookup ip = r.ip2fqdn.lookup ip) ∧
    (¬ Infra.EveryStep NamingEvent.apply (Remembers ip) r events →
      (events.foldl NamingEvent.apply r).ip2fqdn.lookup ip = none)
  | [], _, _ => ⟨fun _ => rfl, fun h => absurd trivial h⟩
  | event :: events, r, hquiet => by
    obtain ⟨hevent, hevents⟩ := List.forall_mem_cons.mp hquiet
    obtain ⟨hkept, hforgot⟩ := lookup_naming (r := r) hevent
    obtain ⟨ihkept, ihforgot⟩ := lookup_run events (r := event.apply r) hevents
    constructor
    · rintro ⟨hfirst, hrest⟩
      exact (ihkept hrest).trans (hkept hfirst)
    · intro hnot
      by_cases hrest : Infra.EveryStep NamingEvent.apply (Remembers ip) (event.apply r) events
      · exact (ihkept hrest).trans (hforgot fun hfirst => hnot ⟨hfirst, hrest⟩)
      · exact ihforgot hrest

/-! ## Two connections -/

/-- The registry has a name for the destination, and the key is made with it. -/
def NamedByDomain [Netaddr] (r : Registry) (dst actualDst : IPPort) : Prop :=
  ∃ d, r.ip2fqdn.lookup dst.ip = some d ∧ isIpExternal actualDst.ip = true ∧ d.specifyIP = false

theorem filterConnection_ip [Netaddr] {f : Filters} {k : Container}
    (h : (filterConnection f k e).1 = some actualDst) (hdst : e.dst.ip = .zero) :
    actualDst.ip ≠ .zero := by
  have hskipped : ∀ ip, ip = IP.zero → (connectionShouldBeSkipped f .zero ip).1 = true := by
    rintro ip rfl
    have hcontains : f.whitelist.any (fun p => Netaddr.contains p .zero) = false :=
      List.any_eq_false.mpr fun p _ => by simp [Netaddr.contains_zero]
    simp [connectionShouldBeSkipped, isIpPrivate, Netaddr.isLoopback_zero, Netaddr.isPrivate_zero,
      hcontains]
  revert h
  unfold filterConnection
  rw [hdst]
  split
  · exact fun h => by cases h
  split
  · exact fun h => by cases h
  split
  · exact fun h => by cases h
  simp only
  generalize (if e.actualDst.port = 0 then e.conntrack.getD e.dst else e.actualDst) = actual
  split
  · exact fun h => by cases h
  split
  · exact fun h => by cases h
  · next hkept =>
    intro h hzero
    cases h
    exact hkept (hskipped _ hzero)

theorem opened_key [Netaddr] {env : Env} {r : Registry} {c : Nat} {key : DestinationKey}
    (h : opened env r e = some (c, actualDst, key)) :
    key = newDestinationKey e.dst actualDst (r.ip2fqdn.lookup e.dst.ip) ∧
      (e.dst.ip = .zero → actualDst.ip ≠ .zero) := by
  have hnames := ip2fqdn_getOrCreateContainer env r e.pid
  revert h hnames
  unfold opened
  rcases getOrCreateContainer env r e.pid with ⟨found, r'⟩
  cases found with
  | none => exact fun h => by cases h
  | some c' =>
    simp only
    split
    · split
      · next hfilter =>
        split
        · exact fun h => by cases h
        · intro h hnames
          cases h
          rw [hnames]
          exact ⟨rfl, filterConnection_ip hfilter⟩
      · exact fun h => by cases h
    · exact fun h => by cases h

theorem newDestinationKey_ne [Netaddr] {dst : IPPort} {d : Domain}
    (hnamed : isIpExternal actualDst.ip = true ∧ d.specifyIP = false)
    (hip : dst.ip = .zero → actualDst.ip ≠ .zero) :
    newDestinationKey dst actualDst (some d) ≠ newDestinationKey dst actualDst none := by
  have hkey : newDestinationKey dst actualDst (some d) =
      ⟨.withEmptyIP d.fqdn dst.port, ⟨"", .zero, 0⟩⟩ := if_pos hnamed
  rw [hkey]
  intro heq
  obtain ⟨hdestination, hactual⟩ := DestinationKey.mk.inj heq
  have hdst : dst.ip = .zero := (congrArg HostPort.ip hdestination).symm
  exact hip hdst (congrArg HostPort.ip hactual).symm

/-- **Two connections of one container to the same destination, with no DNS answer for its address
between them, have the same key if and only if every tick between them finds an attempt to the
address, when the first connection is known by the name.** -/
theorem naming_stable_iff [Netaddr] {r : Registry} {env₁ env₂ : Env} {e₁ e₂ : ConnectionOpen}
    {c : Nat} {actualDst : IPPort} {key₁ key₂ : DestinationKey} {events : List NamingEvent}
    (hfirst : opened env₁ r e₁ = some (c, actualDst, key₁))
    (hsecond : opened env₂ (events.foldl NamingEvent.apply
      (handleEvent env₁ r (.connectionOpen e₁))) e₂ = some (c, actualDst, key₂))
    (hdst : e₂.dst = e₁.dst) (hquiet : ∀ event ∈ events, ¬ event.Mentions e₁.dst.ip) :
    key₁ = key₂ ↔ (NamedByDomain r e₁.dst actualDst →
      Infra.EveryStep NamingEvent.apply (Remembers e₁.dst.ip)
        (handleEvent env₁ r (.connectionOpen e₁)) events) := by
  obtain ⟨rfl, hip⟩ := opened_key hfirst
  obtain ⟨rfl, _⟩ := opened_key hsecond
  have hopened : (handleEvent env₁ r (.connectionOpen e₁)).ip2fqdn = r.ip2fqdn :=
    ip2fqdn_handleConnectionOpen env₁ r e₁
  obtain ⟨hkept, hforgot⟩ := lookup_run (r := handleEvent env₁ r (.connectionOpen e₁)) events hquiet
  rw [hopened] at hkept
  rw [hdst]
  by_cases hremembers : Infra.EveryStep NamingEvent.apply (Remembers e₁.dst.ip)
      (handleEvent env₁ r (.connectionOpen e₁)) events
  · rw [hkept hremembers]
    exact iff_of_true rfl fun _ => hremembers
  · rw [hforgot hremembers]
    by_cases hnamed : NamedByDomain r e₁.dst actualDst
    · obtain ⟨d, hd, hexternal⟩ := hnamed
      rw [hd]
      exact iff_of_false (newDestinationKey_ne hexternal hip)
        fun h => hremembers (h ⟨d, hd, hexternal⟩)
    · refine iff_of_true ?_ fun h => absurd h hnamed
      cases hd : r.ip2fqdn.lookup e₁.dst.ip with
      | none => rfl
      | some d => exact if_neg fun hexternal => hnamed ⟨d, hd, hexternal⟩

/-! ### A service with two addresses -/

def serviceEnv (now : Time) : Env where
  now := now
  readCgroup := fun _ => some ⟨"/docker/app", 1⟩
  identify := fun _ _ => some "/docker/app"
  skipped := fun _ => false
  made := true
  registered := true
  beginTime := fun _ => some 1

def serviceAddr : IPPort := ⟨.v4 203 0 113 1, 443⟩

def serviceOpen : ConnectionOpen :=
  ⟨10, 3, ⟨.v4 10 0 0 1, 50000⟩, serviceAddr, ⟨.zero, 0⟩, 1, false, 0, false, none, none⟩

def serviceAnswer : RegistryEvent :=
  .l7Request 10 (dnsDomains "api.example.com" [.v4 203 0 113 1, .v4 203 0 113 2])

/-- The addresses of the service are not private, so that they have to be in the whitelist. -/
def serviceFilters : Filters := ⟨none, [⟨.v4 203 0 113 0, 24⟩]⟩

def serviceRegistry : Registry :=
  handleEvents (.new serviceFilters)
    [(serviceEnv 1, .processStart 10), (serviceEnv 2, serviceAnswer)]

def serviceByName : DestinationKey := ⟨.withEmptyIP "api.example.com" 443, ⟨"", .zero, 0⟩⟩

def serviceByAddress : DestinationKey := ⟨.ofIPPort serviceAddr, .ofIPPort serviceAddr⟩

/-- The process has connected to the service before it learnt its addresses. -/
def contactedRegistry : Registry :=
  handleEvents (.new serviceFilters)
    [(serviceEnv 1, .processStart 10), (serviceEnv 1, .connectionOpen serviceOpen),
      (serviceEnv 2, serviceAnswer)]

theorem naming_stable_contacted :
    ∃ key, opened (serviceEnv 3) contactedRegistry serviceOpen = some (0, serviceAddr, key) ∧
      opened (serviceEnv 5) ([NamingEvent.registry (serviceEnv 4) .gcTick].foldl NamingEvent.apply
        (handleEvent (serviceEnv 3) contactedRegistry (.connectionOpen serviceOpen))) serviceOpen =
          some (0, serviceAddr, key) := by
  have hfirst : opened (serviceEnv 3) contactedRegistry serviceOpen =
      some (0, serviceAddr, serviceByName) := by decide +kernel
  have hsecond : opened (serviceEnv 5) ([NamingEvent.registry (serviceEnv 4) .gcTick].foldl
      NamingEvent.apply (handleEvent (serviceEnv 3) contactedRegistry
        (.connectionOpen serviceOpen))) serviceOpen = some (0, serviceAddr, serviceByName) := by
    decide +kernel
  have hcontacted : Contacted (handleEvent (serviceEnv 3) contactedRegistry
      (.connectionOpen serviceOpen)) serviceAddr.ip := mem_activeIPs.mp (by decide +kernel)
  have hquiet : ∀ event ∈ [NamingEvent.registry (serviceEnv 4) .gcTick],
      ¬ event.Mentions serviceOpen.dst.ip := by
    intro event hevent
    rw [List.mem_singleton.mp hevent]
    exact id
  have hkeys := (naming_stable_iff hfirst hsecond rfl hquiet).mpr fun _ => ⟨hcontacted, trivial⟩
  exact ⟨serviceByName, hfirst, hkeys ▸ hsecond⟩

/-- **After a tick, the service is known by its address.** -/
theorem name_forgotten :
    let r := handleEvent (serviceEnv 3) serviceRegistry (.connectionOpen serviceOpen)
    opened (serviceEnv 3) serviceRegistry serviceOpen = some (0, serviceAddr, serviceByName) ∧
    (attempts r 0).any (fun m => (m.lookup serviceByName.destination).isSome) = true ∧
    opened (serviceEnv 5) (handleEvent (serviceEnv 4) r .gcTick) serviceOpen =
      some (0, serviceAddr, serviceByAddress) ∧
    serviceByName ≠ serviceByAddress := by
  refine ⟨?_, ?_, ?_, ?_⟩ <;> decide +kernel

end Containers
