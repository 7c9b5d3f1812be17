import NodeAgent.Containers.Container

/-!
# The registry of containers (`containers/registry.go`)

The registry maps processes, cgroups and container ids to containers. A `*Container` is an index
into `containers`, the list of all containers that were ever made; several maps may refer to one.

What the registry asks the system for is in `Env`: the cgroup of a process, the id that is derived
from it, and whether calls succeed.
-/

namespace Containers

open Infra

structure Registry where
  containers : List Container
  containersById : Dict String Nat
  containersByCgroupId : Dict String Nat
  /-- a nil container is `some none` -/
  containersByPid : Dict Nat (Option Nat)
  containersByPidIgnored : Dict Nat Time
  ip2fqdn : Dict IP Domain
  /-- the filters of the package `common` -/
  filters : Filters

def Registry.new (filters : Filters) : Registry := ⟨[], ∅, ∅, ∅, ∅, ∅, filters⟩

structure Env where
  now : Time
  /-- `proc.ReadCgroup`, `none` when it fails -/
  readCgroup : Nat → Option Cgroup
  /-- `getContainerMetadata` and `calcId` on the cgroup of a process -/
  identify : Nat → Cgroup → Option String
  /-- `ContainerFilter.ShouldBeSkipped` -/
  skipped : String → Bool
  /-- `NewContainer` succeeds -/
  made : Bool
  /-- the container can be registered as a collector -/
  registered : Bool
  /-- the begin of a process by `TaskstatsPID` -/
  beginTime : Nat → Option Time

/-! ## References -/

namespace Registry

def byPid (r : Registry) (pid : Nat) : Option Nat := (r.containersByPid.lookup pid).join

def modify (r : Registry) (c : Nat) (f : Container → Container) : Registry :=
  { r with containers := r.containers.modify c f }

def cgroupId (r : Registry) (c : Nat) : Option String :=
  (r.containers[c]?).map (fun k => k.cgroup.id)

end Registry

/-! ## Finding the container of a process -/

def ignoredContainersCacheTTL : Time := 15 * 1000000000

/-- The process was found to be one to ignore, a short time ago. -/
def ignored (env : Env) (r : Registry) (pid : Nat) : Bool :=
  match r.containersByPidIgnored.lookup pid with
  | some t => env.now < t + ignoredContainersCacheTTL
  | none => false

def ignore (env : Env) (r : Registry) (pid : Nat) : Registry :=
  { r with containersByPidIgnored := r.containersByPidIgnored.insert pid env.now }

/-- The end of `getOrCreateContainer`, for a process in a cgroup that was not seen before. -/
def createContainer (env : Env) (r : Registry) (pid : Nat) (cg : Cgroup) (id : String) :
    Option Nat × Registry :=
  match r.containersById.lookup id with
  | some c =>
    -- id conflict
    let r := r.modify c
      (fun k => if cg.createdAt > k.cgroup.createdAt then { k with cgroup := cg } else k)
    (some c, { r with
      containersByPid := r.containersByPid.insert pid (some c)
      containersByCgroupId := r.containersByCgroupId.insert cg.id c })
  | none =>
    if env.made ∧ env.registered then
      let c := r.containers.length
      (some c, { r with
        containers := r.containers ++ [newContainer id cg]
        containersByPid := r.containersByPid.insert pid (some c)
        containersByCgroupId := r.containersByCgroupId.insert cg.id c
        containersById := r.containersById.insert id c })
    else (none, r)

/-- The part of `getOrCreateContainer` after the cgroup is read. -/
def containerByCgroup (env : Env) (r : Registry) (pid : Nat) (cg : Cgroup) :
    Option Nat × Registry :=
  match r.containersByCgroupId.lookup cg.id with
  | some c => (some c, { r with containersByPid := r.containersByPid.insert pid (some c) })
  | none =>
    match env.identify pid cg with
    | none => (none, r)
    | some id =>
      if id = "" then
        if cg.id = "/init.scope" ∧ pid ≠ 1 then (none, r) else (none, ignore env r pid)
      else if env.skipped id then (none, ignore env r pid)
      else createContainer env r pid cg id

def getOrCreateContainer (env : Env) (r : Registry) (pid : Nat) : Option Nat × Registry :=
  match r.byPid pid with
  | some c => (some c, r)
  | none =>
    if ignored env r pid then (none, r)
    else
      let r := { r with containersByPidIgnored := r.containersByPidIgnored.erase pid }
      match env.readCgroup pid with
      | none => (none, r)
      | some cg => containerByCgroup env r pid cg

/-! ## The gc tick -/

def exitProcess (env : Env) (r : Registry) (c : Option Nat) (pid : Nat) (oomKill : Bool) :
    Registry :=
  match c with
  | some c => r.modify c (fun k => onProcessExit k pid oomKill env.now)
  | none => r

/-- The process leaves `containersByPid` and the container it was mapped to. -/
def evict (env : Env) (r : Registry) (pid : Nat) (c : Option Nat) : Registry :=
  exitProcess env { r with containersByPid := r.containersByPid.erase pid } c pid false

/-- The first loop of the tick, for one process. -/
def sweepPid (env : Env) (r : Registry) (pid : Nat) (c : Option Nat) : Registry :=
  match env.readCgroup pid with
  | none => evict env r pid c
  | some cg =>
    match c with
    | some k => if r.cgroupId k ≠ some cg.id then evict env r pid c else r
    | none => r

def sweep (env : Env) (r : Registry) : Registry :=
  r.containersByPid.entries.foldl (fun r entry => sweepPid env r entry.1 entry.2) r

def isDead (env : Env) (r : Registry) (c : Nat) : Bool :=
  match r.containers[c]? with
  | some k => k.dead env.now
  | none => false

def reapContainer (env : Env) (r : Registry) (id : String) (c : Nat) : Registry :=
  if isDead env r c then
    { r with
      containersByCgroupId := r.containersByCgroupId.filter (fun _ c' => decide (c' ≠ c))
      containersByPid := r.containersByPid.filter (fun _ c' => decide (c' ≠ some c))
      containersById := r.containersById.erase id }
  else r

def reap (env : Env) (r : Registry) : Registry :=
  r.containersById.entries.foldl (fun r entry => reapContainer env r entry.1 entry.2) r

def activeIPs (r : Registry) : List IP :=
  r.containersById.entries.flatMap (fun entry =>
    match r.containers[entry.2]? with
    | some k => k.lastConnectionAttempts.entries.map (fun e => e.1.ip)
    | none => [])

def gcTick (env : Env) (r : Registry) : Registry :=
  let r := { sweep env r with containersByPidIgnored := ∅ }
  let active := activeIPs r
  let r := reap env r
  { r with ip2fqdn := r.ip2fqdn.filter (fun ip _ => decide (ip ∈ active)) }

/-! ## Events -/

/-- What `handleEvents` receives, as far as it concerns the registry. -/
inductive RegistryEvent where
  | gcTick
  | processStart (pid : Nat)
  | processExit (pid : Nat) (oomKill : Bool)
  | fileOpen (pid : Nat)
  | listenOpen (pid : Nat)
  | connectionOpen (e : ConnectionOpen)
  | connectionClose (pid fd timestamp : Nat) (stats : Option (Nat × Nat))
  | trafficStats (pid fd sent received : Nat)
  -- the addresses of the names that a DNS response has
  | l7Request (pid : Nat) (domains : List (IP × Domain))

/-- A process that starts under a known pid: the exit of the one before may have been missed. -/
def revalidate (env : Env) (r : Registry) (pid : Nat) : Registry :=
  match r.containersByPid.lookup pid with
  | some none => { r with containersByPid := r.containersByPid.erase pid }
  | some (some c) =>
    match env.readCgroup pid with
    | none => evict env r pid (some c)
    | some cg => if r.cgroupId c ≠ some cg.id then evict env r pid (some c) else r
  | none => r

def handleProcessStart (env : Env) (r : Registry) (pid : Nat) : Registry :=
  match getOrCreateContainer env (revalidate env r pid) pid with
  | (some c, r) => r.modify c (fun k => onProcessStart k pid (env.beginTime pid))
  | (none, r) => r

def handleConnectionOpen [Netaddr] (env : Env) (r : Registry) (e : ConnectionOpen) : Registry :=
  match getOrCreateContainer env r e.pid with
  | (some c, r) =>
    let e := { e with
      domain := r.ip2fqdn.lookup e.dst.ip
      timestamp := if e.failed then 0 else e.timestamp }
    match r.containers[c]? with
    | some k =>
      let (filters, k) := onConnectionOpen r.filters k e env.now
      { r with filters, containers := r.containers.set c k }
    | none => r
  | (none, r) => r

def handleEvent [Netaddr] (env : Env) (r : Registry) : RegistryEvent → Registry
  | .gcTick => gcTick env r
  | .processStart pid => handleProcessStart env r pid
  | .processExit pid oomKill =>
    let r := exitProcess env r (r.byPid pid) pid oomKill
    { r with containersByPid := r.containersByPid.erase pid }
  | .fileOpen pid => (getOrCreateContainer env r pid).2
  | .listenOpen pid => (getOrCreateContainer env r pid).2
  | .connectionOpen e => handleConnectionOpen env r e
  | .connectionClose pid fd timestamp stats =>
    match r.byPid pid with
    | some c => r.modify c (fun k => onConnectionClose k pid fd timestamp stats env.now)
    | none => r
  | .trafficStats pid fd sent received =>
    match r.byPid pid with
    | some c => r.modify c (fun k => updateTrafficStats k pid fd sent received)
    | none => r
  | .l7Request pid domains =>
    match r.byPid pid with
    | some _ =>
      { r with ip2fqdn := domains.foldl (fun m entry => m.insert entry.1 entry.2) r.ip2fqdn }
    | none => r

/-- The registry after a sequence of events, each with what the system answers then. -/
def handleEvents [Netaddr] (r : Registry) : List (Env × RegistryEvent) → Registry
  | [] => r
  | (env, event) :: events => handleEvents (handleEvent env r event) events

end Containers
