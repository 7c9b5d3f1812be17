import NodeAgent.Containers.Net
import NodeAgent.Infra.Dict

/-!
# A container (`containers/container.go`)

The processes of a container and the connections they open. An `*ActiveConnection` is an index into
`connections`, the list of all connections that were ever opened; the two tables of connections
share these references.

A zero `time.Time` is `none`.
-/

namespace Containers

open Infra

/-- Nanoseconds. -/
abbrev Time := Nat

/-! ## Records -/

structure Cgroup where
  id : String
  createdAt : Time
  deriving DecidableEq

/-- What is modelled of a `Process`. -/
structure Process where
  startedAt : Time
  /-- which process it is, of all that `onProcessStart` made for the container -/
  serial : Nat
  deriving DecidableEq

structure Delays where
  cpu : Nat
  disk : Nat
  deriving DecidableEq

structure ConnectionKey where
  src : IPPort
  dst : IPPort
  deriving DecidableEq

structure PidFd where
  pid : Nat
  fd : Nat
  deriving DecidableEq

/-- The protocol parsers are left out. -/
structure ActiveConnection where
  destinationKey : DestinationKey
  pid : Nat
  fd : Nat
  timestamp : Nat
  closed : Option Time
  bytesSent : Nat
  bytesReceived : Nat
  deriving DecidableEq

structure ConnectionStats where
  count : Nat
  totalTime : Nat
  retransmissions : Nat
  bytesSent : Nat
  bytesReceived : Nat
  deriving DecidableEq

def ConnectionStats.zero : ConnectionStats := ⟨0, 0, 0, 0, 0⟩

structure Container where
  id : String
  cgroup : Cgroup
  processes : Dict Nat Process
  /-- how often `Close` was called, for each process that was made -/
  closes : List Nat
  startedAt : Option Time
  zombieAt : Option Time
  restarts : Nat
  delaysByPid : Dict Nat Delays
  oomKills : Nat
  connectionStats : Dict DestinationKey ConnectionStats
  failedConnectionAttempts : Dict HostPort Nat
  lastConnectionAttempts : Dict HostPort Time
  connections : List ActiveConnection
  activeConnections : Dict ConnectionKey Nat
  connectionsByPidFd : Dict PidFd Nat

/-- `NewContainer`, when it succeeds. -/
def newContainer (id : String) (cg : Cgroup) : Container where
  id := id
  cgroup := cg
  processes := ∅
  closes := []
  startedAt := none
  zombieAt := none
  restarts := 0
  delaysByPid := ∅
  oomKills := 0
  connectionStats := ∅
  failedConnectionAttempts := ∅
  lastConnectionAttempts := ∅
  connections := []
  activeConnections := ∅
  connectionsByPidFd := ∅

/-! ## Processes -/

def earliestStart (beginTime : Time) (processes : Dict Nat Process) : Time :=
  (processes.entries.map (fun e => e.2.startedAt)).foldl min beginTime

/-- `beginTime` is what `TaskstatsPID` returns. `NewProcess` does not fail. -/
def onProcessStart (c : Container) (pid : Nat) (beginTime : Option Time) : Container :=
  match beginTime with
  | none => c
  | some beginTime =>
    let c := { c with
      zombieAt := none
      processes := c.processes.insert pid ⟨beginTime, c.closes.length⟩
      closes := c.closes ++ [0] }
    match c.startedAt with
    | none => { c with startedAt := some beginTime }
    | some startedAt =>
      let first := earliestStart beginTime c.processes
      if first > startedAt then { c with restarts := c.restarts + 1, startedAt := some first }
      else c

def onProcessExit (c : Container) (pid : Nat) (oomKill : Bool) (now : Time) : Container :=
  let processes := c.processes.erase pid
  { c with
    processes
    closes := match c.processes.lookup pid with
      | some p => c.closes.modify p.serial (· + 1)
      | none => c.closes
    zombieAt := if processes.entries = [] then some now else c.zombieAt
    delaysByPid := c.delaysByPid.erase pid
    oomKills := if oomKill then c.oomKills + 1 else c.oomKills }

def gcInterval : Time := 10 * 60 * 1000000000

def Container.dead (c : Container) (now : Time) : Bool :=
  match c.zombieAt with
  | none => false
  | some t => now > t + gcInterval

/-! ## Connections -/

/-- A connection that was opened, or failed to, with what is read for it: the namespace of its
process, the table of Cilium and the name of the destination. -/
structure ConnectionOpen where
  pid : Nat
  fd : Nat
  src : IPPort
  dst : IPPort
  actualDst : IPPort
  timestamp : Nat
  failed : Bool
  duration : Nat
  isHostNs : Bool
  conntrack : Option IPPort
  domain : Option Domain

/-- The filters of `onConnectionOpen`: the actual destination of a connection that is kept. -/
def filterConnection [Netaddr] (f : Filters) (c : Container) (e : ConnectionOpen) :
    Option IPPort × Filters :=
  if portShouldBeSkipped f e.dst.port then (none, f)
  else
    match c.processes.lookup e.pid with
    | none => (none, f)
    | some _ =>
      if Netaddr.isLoopback e.dst.ip ∧ e.isHostNs = false then (none, f)
      else
        let actualDst := if e.actualDst.port = 0 then e.conntrack.getD e.dst else e.actualDst
        if Netaddr.isLoopback actualDst.ip ∧ e.isHostNs = false then (none, f)
        else
          let (skipped, f) := connectionShouldBeSkipped f e.dst.ip actualDst.ip
          if skipped then (none, f) else (some actualDst, f)

/-- `prev.Closed = time.Now()` -/
def closeConnection (c : Container) (ref : Nat) (now : Time) : Container :=
  { c with connections := c.connections.modify ref (fun conn => { conn with closed := some now }) }

def addConnection (c : Container) (e : ConnectionOpen) (key : DestinationKey) : Container :=
  let stats := (c.connectionStats.lookup key).getD .zero
  let stats := { stats with count := stats.count + 1, totalTime := stats.totalTime + e.duration }
  { c with
    connectionStats := c.connectionStats.insert key stats
    connections := c.connections ++ [⟨key, e.pid, e.fd, e.timestamp, none, 0, 0⟩]
    activeConnections := c.activeConnections.insert ⟨e.src, e.dst⟩ c.connections.length
    connectionsByPidFd := c.connectionsByPidFd.insert ⟨e.pid, e.fd⟩ c.connections.length }

def openConnection (c : Container) (e : ConnectionOpen) (key : DestinationKey) (now : Time) :
    Container :=
  match c.connectionsByPidFd.lookup ⟨e.pid, e.fd⟩ with
  | some prev => closeConnection (addConnection c e key) prev now
  | none => addConnection c e key

def onConnectionOpen [Netaddr] (f : Filters) (c : Container) (e : ConnectionOpen) (now : Time) :
    Filters × Container :=
  match filterConnection f c e with
  | (none, f) => (f, c)
  | (some actualDst, f) =>
    let key := newDestinationKey e.dst actualDst e.domain
    let attempts := (c.failedConnectionAttempts.lookup key.destination).getD 0
    let c :=
      if e.failed then
        { c with
          failedConnectionAttempts :=
            c.failedConnectionAttempts.insert key.destination (attempts + 1) }
      else openConnection c e key now
    (f, { c with lastConnectionAttempts := c.lastConnectionAttempts.insert key.destination now })

/-- What a counter has grown by is added to a sum, which is a `uint64`. -/
def addCounter (sum old new : Nat) : Nat :=
  if new > old then (sum + (new - old)) % 2 ^ 64 else sum

def updateConnectionTrafficStats (c : Container) (ref : Option Nat) (sent received : Nat) :
    Container :=
  match ref with
  | none => c
  | some ref =>
    match c.connections[ref]? with
    | none => c
    | some ac =>
      let stats := (c.connectionStats.lookup ac.destinationKey).getD .zero
      let stats := { stats with
        bytesSent := addCounter stats.bytesSent ac.bytesSent sent
        bytesReceived := addCounter stats.bytesReceived ac.bytesReceived received }
      { c with
        connectionStats := c.connectionStats.insert ac.destinationKey stats
        connections :=
          c.connections.set ref { ac with bytesSent := sent, bytesReceived := received } }

/-- A `TrafficStatsUpdate`. It says nothing about when the connection was opened. -/
def updateTrafficStats (c : Container) (pid fd sent received : Nat) : Container :=
  updateConnectionTrafficStats c (c.connectionsByPidFd.lookup ⟨pid, fd⟩) sent received

/-- The connection that `onConnectionClose` closes. -/
def closeTarget (c : Container) (pid fd timestamp : Nat) : Option Nat :=
  match c.connectionsByPidFd.lookup ⟨pid, fd⟩ with
  | none => none
  | some ref =>
    match c.connections[ref]? with
    | none => none
    | some conn =>
      if conn.timestamp ≠ 0 ∧ conn.timestamp ≠ timestamp then none
      else if conn.closed = none then some ref else none

/-- `stats` are the bytes sent and received, if the event has them. -/
def onConnectionClose (c : Container) (pid fd timestamp : Nat) (stats : Option (Nat × Nat))
    (now : Time) : Container :=
  match closeTarget c pid fd timestamp with
  | none => c
  | some ref =>
    let c := match stats with
      | some (sent, received) => updateConnectionTrafficStats c (some ref) sent received
      | none => c
    closeConnection c ref now

/-! ## The gc of a container -/

structure Sock where
  sAddr : IPPort
  dAddr : IPPort
  listen : Bool

/-- What `gc` reads of the system: the network namespace of a process, and the sockets in it. -/
structure GcEnv where
  now : Time
  netNsId : Nat → String
  getSockets : Nat → Option (List Sock)

/-- The connections in the namespaces of the processes. -/
def establishedKeys (env : GcEnv) (processes : Dict Nat Process) : List ConnectionKey :=
  let scan (found : List ConnectionKey × List String) (pid : Nat) :=
    if env.netNsId pid ∈ found.2 then found
    else
      match env.getSockets pid with
      | none => found
      | some sockets =>
        (found.1 ++ (sockets.filter (fun s => !s.listen)).map (fun s => ⟨s.sAddr, s.dAddr⟩),
          env.netNsId pid :: found.2)
  (processes.keys.foldl scan ([], [])).1

def ActiveConnection.expired (conn : ActiveConnection) (now : Time) : Bool :=
  match conn.closed with
  | none => false
  | some t => now > t + gcInterval

/-- A connection leaves `activeConnections`, and `connectionsByPidFd` if it is the one there. -/
def dropConnection (c : Container) (key : ConnectionKey) (ref : Nat) (pidFd : PidFd) : Container :=
  { c with
    activeConnections := c.activeConnections.erase key
    connectionsByPidFd :=
      if c.connectionsByPidFd.lookup pidFd = some ref then c.connectionsByPidFd.erase pidFd
      else c.connectionsByPidFd }

/-- The loop of `gc` over the connections, for one of them. -/
def gcConnection (established : List ConnectionKey) (now : Time) (c : Container)
    (key : ConnectionKey) (ref : Nat) : Container :=
  match c.connections[ref]? with
  | none => c
  | some conn =>
    if key ∉ established then dropConnection c key ref ⟨conn.pid, conn.fd⟩
    else if conn.expired now then dropConnection c key ref ⟨conn.pid, conn.fd⟩
    else c

def establishedDst (established : List ConnectionKey) (c : Container) : List HostPort :=
  (c.activeConnections.entries.filter (fun e => e.1 ∈ established)).filterMap
    (fun e => (c.connections[e.2]?).map (fun conn => conn.destinationKey.destination))

/-- The loop of `gc` over the attempts, for one destination. -/
def gcAttempt (active : List HostPort) (now : Time) (c : Container) (dst : HostPort)
    (at' : Time) : Container :=
  if dst ∉ active ∧ now > at' + gcInterval then
    { c with
      lastConnectionAttempts := c.lastConnectionAttempts.erase dst
      failedConnectionAttempts := c.failedConnectionAttempts.erase dst
      connectionStats := c.connectionStats.filter (fun d _ => decide (d.destination ≠ dst)) }
  else c

/-- The listening sockets are left out. -/
def Container.gc (c : Container) (env : GcEnv) : Container :=
  let established := establishedKeys env c.processes
  let active := establishedDst established c
  let c := c.activeConnections.entries.foldl
    (fun c entry => gcConnection established env.now c entry.1 entry.2) c
  c.lastConnectionAttempts.entries.foldl
    (fun c entry => gcAttempt active env.now c entry.1 entry.2) c

/-! ## Events -/

/-- What happens to the connections of a container. -/
inductive ConnectionEvent where
  | opened (e : ConnectionOpen)
  | closed (pid fd timestamp : Nat) (stats : Option (Nat × Nat))
  | update (pid fd sent received : Nat)
  -- processes come and go
  | processes (ps : Dict Nat Process)
  | gc (env : GcEnv)

def ConnectionEvent.apply [Netaddr] (f : Filters) (c : Container) (now : Time) :
    ConnectionEvent → Filters × Container
  | .opened e => onConnectionOpen f c e now
  | .closed pid fd timestamp stats => (f, onConnectionClose c pid fd timestamp stats now)
  | .update pid fd sent received => (f, updateTrafficStats c pid fd sent received)
  | .processes ps => (f, { c with processes := ps })
  | .gc env => (f, c.gc env)

end Containers
