import NodeAgent.Infra.Sequences
import NodeAgent.Containers.Container

/-!
# The tables of connections

A connection is kept under its addresses and under its process and file descriptor. Both keys are
used again, independently of each other, and `gc` walks only over the table by addresses: what is
missing there stays in the other one.

* `connections_reclaimed_iff` — when a gc reclaims the connections in all states of a run
-/

namespace Containers

open Infra

/-! ## The invariant -/

structure Linked (c : Container) : Prop where
  /-- a connection that was not closed is found by its process and file descriptor -/
  active : ∀ key (ref : Nat), c.activeConnections.lookup key = some ref →
    ∃ conn, c.connections[ref]? = some conn ∧
      (conn.closed = none → c.connectionsByPidFd.lookup ⟨conn.pid, conn.fd⟩ = some ref)
  byPidFd : ∀ pidFd (ref : Nat), c.connectionsByPidFd.lookup pidFd = some ref →
    ∃ conn, c.connections[ref]? = some conn ∧ pidFd = ⟨conn.pid, conn.fd⟩
  distinct : ∀ key key' ref, c.activeConnections.lookup key = some ref →
    c.activeConnections.lookup key' = some ref → key = key'

/-- Every connection by process and file descriptor is also found by its addresses. -/
def Tracked (c : Container) : Prop :=
  ∀ pidFd ref, c.connectionsByPidFd.lookup pidFd = some ref →
    ∃ key, c.activeConnections.lookup key = some ref

theorem linked_newContainer (id : String) (cg : Cgroup) : Linked (newContainer id cg) :=
  ⟨fun _ _ h => (by cases h), fun _ _ h => (by cases h), fun _ _ _ h => (by cases h)⟩

theorem tracked_newContainer (id : String) (cg : Cgroup) : Tracked (newContainer id cg) :=
  fun _ _ h => by cases h

section

variable {c c' : Container} {e : ConnectionOpen}

/-- The same tables, with connections that may have been closed since. -/
structure SameTables (c c' : Container) : Prop where
  active : c'.activeConnections = c.activeConnections
  byPidFd : c'.connectionsByPidFd = c.connectionsByPidFd
  connections : ∀ (ref : Nat) conn, c.connections[ref]? = some conn →
    ∃ conn', c'.connections[ref]? = some conn' ∧ conn'.pid = conn.pid ∧ conn'.fd = conn.fd ∧
      (conn'.closed = none → conn.closed = none)

theorem SameTables.of_eq (hactive : c'.activeConnections = c.activeConnections)
    (hby : c'.connectionsByPidFd = c.connectionsByPidFd) (hconn : c'.connections = c.connections) :
    SameTables c c' :=
  ⟨hactive, hby, fun _ conn h => ⟨conn, hconn ▸ h, rfl, rfl, id⟩⟩

theorem SameTables.refl (c : Container) : SameTables c c := .of_eq rfl rfl rfl

theorem SameTables.trans {c'' : Container} (h : SameTables c c') (h' : SameTables c' c'') :
    SameTables c c'' := by
  refine ⟨h'.active.trans h.active, h'.byPidFd.trans h.byPidFd, fun ref conn hconn => ?_⟩
  obtain ⟨conn', hconn', hpid, hfd, hclosed⟩ := h.connections ref conn hconn
  obtain ⟨conn'', hconn'', hpid', hfd', hclosed'⟩ := h'.connections ref conn' hconn'
  exact ⟨conn'', hconn'', hpid'.trans hpid, hfd'.trans hfd, hclosed ∘ hclosed'⟩

theorem Linked.same (h : Linked c) (hs : SameTables c c') : Linked c' := by
  obtain ⟨hactive, hby, hconn⟩ := hs
  refine ⟨fun key ref hkey => ?_, fun pidFd ref hpidFd => ?_, ?_⟩
  · rw [hactive] at hkey
    obtain ⟨conn, hc, hopen⟩ := h.active key ref hkey
    obtain ⟨conn', hc', hpid, hfd, hclosed⟩ := hconn ref conn hc
    refine ⟨conn', hc', fun hnone => ?_⟩
    rw [hby, hpid, hfd]
    exact hopen (hclosed hnone)
  · rw [hby] at hpidFd
    obtain ⟨conn, hc, hkey⟩ := h.byPidFd pidFd ref hpidFd
    obtain ⟨conn', hc', hpid, hfd, -⟩ := hconn ref conn hc
    exact ⟨conn', hc', by rw [hkey, hpid, hfd]⟩
  · rw [hactive]
    exact h.distinct

theorem tracked_congr (hs : SameTables c c') : Tracked c' ↔ Tracked c := by
  unfold Tracked
  rw [hs.active, hs.byPidFd]

theorem sameTables_closeConnection (c : Container) (ref : Nat) (now : Time) :
    SameTables c (closeConnection c ref now) := by
  refine ⟨rfl, rfl, fun ref' conn hconn => ?_⟩
  refine ⟨if ref = ref' then { conn with closed := some now } else conn, ?_, ?_⟩
  · simp only [closeConnection, List.getElem?_modify, hconn, Option.map_eq_map, Option.map_some]
  · split
    · exact ⟨rfl, rfl, fun h => by cases h⟩
    · exact ⟨rfl, rfl, id⟩

theorem sameTables_updateConnectionTrafficStats (c : Container) (ref : Option Nat)
    (sent received : Nat) : SameTables c (updateConnectionTrafficStats c ref sent received) := by
  unfold updateConnectionTrafficStats
  split
  · exact .refl c
  split
  · exact .refl c
  · rename_i _ ref _ ac hac
    refine ⟨rfl, rfl, fun ref' conn hconn => ?_⟩
    by_cases heq : ref = ref'
    · subst heq
      obtain rfl : ac = conn := Option.some.inj (hac.symm.trans hconn)
      have hlt := (List.getElem?_eq_some_iff.mp hac).1
      exact ⟨_, List.getElem?_set_self hlt, rfl, rfl, id⟩
    · exact ⟨conn, (List.getElem?_set_ne heq).trans hconn, rfl, rfl, id⟩

theorem sameTables_onConnectionClose (c : Container) (pid fd timestamp : Nat)
    (stats : Option (Nat × Nat)) (now : Time) :
    SameTables c (onConnectionClose c pid fd timestamp stats now) := by
  unfold onConnectionClose
  split
  · exact .refl c
  · split
    · exact (sameTables_updateConnectionTrafficStats ..).trans (sameTables_closeConnection ..)
    · exact sameTables_closeConnection ..

/-! ## A new connection -/

theorem active_openConnection (key : DestinationKey) (now : Time) :
    (openConnection c e key now).activeConnections =
      c.activeConnections.insert ⟨e.src, e.dst⟩ c.connections.length := by
  unfold openConnection
  split <;> rfl

theorem byPidFd_openConnection (key : DestinationKey) (now : Time) :
    (openConnection c e key now).connectionsByPidFd =
      c.connectionsByPidFd.insert ⟨e.pid, e.fd⟩ c.connections.length := by
  unfold openConnection
  split <;> rfl

theorem connections_openConnection (key : DestinationKey) (now : Time) {ref : Nat}
    {conn : ActiveConnection} (hconn : c.connections[ref]? = some conn) :
    (openConnection c e key now).connections[ref]? =
      some (if c.connectionsByPidFd.lookup ⟨e.pid, e.fd⟩ = some ref
        then { conn with closed := some now } else conn) := by
  have hlt := (List.getElem?_eq_some_iff.mp hconn).1
  have hadd : (addConnection c e key).connections[ref]? = some conn :=
    (List.getElem?_append_left hlt).trans hconn
  unfold openConnection
  cases c.connectionsByPidFd.lookup ⟨e.pid, e.fd⟩ with
  | none => exact hadd
  | some prev =>
    simp only [closeConnection, List.getElem?_modify, hadd, Option.map_eq_map, Option.map_some,
      Option.some.injEq]

theorem connections_openConnection_new (key : DestinationKey) (now : Time) :
    ∃ conn, (openConnection c e key now).connections[c.connections.length]? = some conn ∧
      conn.pid = e.pid ∧ conn.fd = e.fd := by
  have hadd : (addConnection c e key).connections[c.connections.length]? = _ :=
    List.getElem?_concat_length
  unfold openConnection
  split
  · rename_i prev hprev
    obtain ⟨conn', hconn', hpid, hfd, -⟩ :=
      (sameTables_closeConnection (addConnection c e key) prev now).connections _ _ hadd
    exact ⟨conn', hconn', hpid, hfd⟩
  · exact ⟨_, hadd, rfl, rfl⟩

theorem Linked.openConnection (h : Linked c) (key : DestinationKey) (now : Time) :
    Linked (openConnection c e key now) := by
  -- what was in a table refers to a connection from before
  have hlt : ∀ {k ref}, c.activeConnections.lookup k = some ref → ref < c.connections.length :=
    fun {k ref} hk => by
      obtain ⟨conn, hconn, -⟩ := h.active k ref hk
      exact (List.getElem?_eq_some_iff.mp hconn).1
  obtain ⟨new, hnew, hpid, hfd⟩ := connections_openConnection_new (c := c) (e := e) key now
  refine ⟨fun k ref hk => ?_, fun pidFd ref hpidFd => ?_, fun k k' ref hk hk' => ?_⟩
  · rw [active_openConnection] at hk
    rw [byPidFd_openConnection]
    rcases Dict.of_lookup_insert hk with ⟨-, rfl⟩ | ⟨-, hk⟩
    · refine ⟨new, hnew, fun _ => ?_⟩
      rw [hpid, hfd]
      exact AList.lookup_insert _
    · obtain ⟨conn, hconn, hopen⟩ := h.active k ref hk
      refine ⟨_, connections_openConnection key now hconn, fun hclosed => ?_⟩
      split at hclosed
      · cases hclosed
      · rename_i hprev
        rw [if_neg hprev, AList.lookup_insert_ne]
        · exact hopen hclosed
        · -- otherwise the connection would have been closed
          rintro heq
          exact hprev (heq ▸ hopen hclosed)
  · rw [byPidFd_openConnection] at hpidFd
    rcases Dict.of_lookup_insert hpidFd with ⟨rfl, rfl⟩ | ⟨-, hpidFd⟩
    · exact ⟨new, hnew, by rw [hpid, hfd]⟩
    · obtain ⟨conn, hconn, hkey⟩ := h.byPidFd pidFd ref hpidFd
      refine ⟨_, connections_openConnection key now hconn, ?_⟩
      split
      · exact hkey
      · exact hkey
  · rw [active_openConnection] at hk hk'
    rcases Dict.of_lookup_insert hk with ⟨rfl, hlast⟩ | ⟨-, hk⟩ <;>
      rcases Dict.of_lookup_insert hk' with ⟨rfl, hlast'⟩ | ⟨-, hk'⟩
    · rfl
    · exact absurd (hlt hk') (by omega)
    · exact absurd (hlt hk) (by omega)
    · exact h.distinct k k' ref hk hk'

/-- No connection that is kept under another process or file descriptor has the addresses. -/
def FreshAddresses (c : Container) (e : ConnectionOpen) : Prop :=
  ∀ pidFd ref, c.activeConnections.lookup ⟨e.src, e.dst⟩ = some ref →
    c.connectionsByPidFd.lookup pidFd = some ref → pidFd = ⟨e.pid, e.fd⟩

/-- **A new connection leaves the others tracked if and only if its addresses are fresh.** -/
theorem tracked_openConnection (h : Linked c) (ht : Tracked c) (key : DestinationKey) (now : Time) :
    Tracked (openConnection c e key now) ↔ FreshAddresses c e := by
  unfold Tracked
  rw [active_openConnection, byPidFd_openConnection]
  constructor
  · intro htracked pidFd ref hkey hpidFd
    by_contra hne
    obtain ⟨k, hk⟩ := htracked pidFd ref ((AList.lookup_insert_ne hne).trans hpidFd)
    rcases Dict.of_lookup_insert hk with ⟨-, hlast⟩ | ⟨hother, hk⟩
    · obtain ⟨conn, hconn, -⟩ := h.active _ ref hkey
      exact absurd (List.getElem?_eq_some_iff.mp hconn).1 (by omega)
    · exact hother (h.distinct k _ ref hk hkey)
  · intro hfresh pidFd ref hpidFd
    by_cases hne : pidFd = ⟨e.pid, e.fd⟩
    · rw [hne, AList.lookup_insert] at hpidFd
      exact ⟨_, (AList.lookup_insert _).trans hpidFd⟩
    · rw [AList.lookup_insert_ne hne] at hpidFd
      obtain ⟨k, hk⟩ := ht pidFd ref hpidFd
      refine ⟨k, (AList.lookup_insert_ne ?_).trans hk⟩
      rintro rfl
      exact hne (hfresh pidFd ref hk hpidFd)

/-! ## The gc -/

variable {established : List ConnectionKey} {now : Time}

/-- The process and file descriptor of a connection that the gc drops. -/
def dropped (established : List ConnectionKey) (now : Time) (connections : List ActiveConnection)
    (key : ConnectionKey) (ref : Nat) : Option PidFd :=
  match connections[ref]? with
  | none => none
  | some conn =>
    if key ∈ established ∧ conn.expired now = false then none else some ⟨conn.pid, conn.fd⟩

theorem gcConnection_eq (key : ConnectionKey) (ref : Nat) :
    gcConnection established now c key ref =
      match dropped established now c.connections key ref with
      | none => c
      | some pidFd => dropConnection c key ref pidFd := by
  unfold gcConnection dropped
  cases c.connections[ref]? with
  | none => rfl
  | some conn =>
    by_cases hkey : key ∈ established <;> cases hexpired : conn.expired now <;>
      simp [hkey, hexpired]

theorem connections_gcConnection (key : ConnectionKey) (ref : Nat) :
    (gcConnection established now c key ref).connections = c.connections := by
  rw [gcConnection_eq]
  split <;> rfl

theorem lookup_active_foldl (key : ConnectionKey) (ref : Nat) :
    ∀ (l : List (Sigma fun _ : ConnectionKey => Nat)) (c : Container),
      (l.foldl (fun c e => gcConnection established now c e.1 e.2) c).activeConnections.lookup key =
          some ref ↔
        c.activeConnections.lookup key = some ref ∧
          ∀ e ∈ l, e.1 = key → dropped established now c.connections e.1 e.2 = none
  | [], c => by simp
  | e :: l, c => by
    rw [List.foldl_cons, lookup_active_foldl key ref l, connections_gcConnection, gcConnection_eq,
      List.forall_mem_cons]
    cases hdropped : dropped established now c.connections e.1 e.2 with
    | none => simp
    | some pidFd =>
      by_cases hkey : e.1 = key
      · simp [hkey, dropConnection]
      · simp [hkey, dropConnection, AList.lookup_erase_ne (Ne.symm hkey)]

theorem lookup_byPidFd_foldl (pidFd : PidFd) (ref : Nat) :
    ∀ (l : List (Sigma fun _ : ConnectionKey => Nat)) (c : Container),
      (l.foldl (fun c e => gcConnection established now c e.1 e.2) c).connectionsByPidFd.lookup
          pidFd = some ref ↔
        c.connectionsByPidFd.lookup pidFd = some ref ∧
          ∀ e ∈ l, e.2 = ref → dropped established now c.connections e.1 e.2 ≠ some pidFd
  | [], c => by simp
  | e :: l, c => by
    rw [List.foldl_cons, lookup_byPidFd_foldl pidFd ref l, connections_gcConnection,
      gcConnection_eq, List.forall_mem_cons]
    cases hdropped : dropped established now c.connections e.1 e.2 with
    | none => simp
    | some pidFd' =>
      by_cases hheld : c.connectionsByPidFd.lookup pidFd' = some e.2
      · by_cases heq : pidFd' = pidFd
        · subst heq
          -- the entry is erased if it is the connection
          by_cases href : e.2 = ref <;> simp [dropConnection, hheld, href]
        · simp [dropConnection, hheld, heq, AList.lookup_erase_ne (Ne.symm heq)]
      · have hkept : (dropConnection c e.1 e.2 pidFd').connectionsByPidFd =
            c.connectionsByPidFd := if_neg hheld
        simp only [hkept]
        refine and_congr_right fun href => ⟨fun h => ⟨?_, h⟩, fun h => h.2⟩
        rintro rfl heq
        cases heq
        exact hheld href

theorem connections_foldl : ∀ (l : List (Sigma fun _ : ConnectionKey => Nat)) (c : Container),
    (l.foldl (fun c entry => gcConnection established now c entry.1 entry.2) c).connections =
      c.connections
  | [], _ => rfl
  | entry :: l, c => by
    rw [List.foldl_cons, connections_foldl l, connections_gcConnection]

theorem gcAttempts_same (active : List HostPort) :
    ∀ (l : List (Sigma fun _ : HostPort => Time)) (c : Container),
      let c' := l.foldl (fun c e => gcAttempt active now c e.1 e.2) c
      c'.activeConnections = c.activeConnections ∧
        c'.connectionsByPidFd = c.connectionsByPidFd ∧ c'.connections = c.connections
  | [], _ => ⟨rfl, rfl, rfl⟩
  | e :: l, c => by
    obtain ⟨hactive, hby, hconn⟩ := gcAttempts_same active l (gcAttempt active now c e.1 e.2)
    refine ⟨hactive.trans ?_, hby.trans ?_, hconn.trans ?_⟩ <;>
    · unfold gcAttempt
      split <;> rfl

/-- The container between the two loops of `gc`. -/
def gcConnections (established : List ConnectionKey) (now : Time) (c : Container) : Container :=
  c.activeConnections.entries.foldl
    (fun c entry => gcConnection established now c entry.1 entry.2) c

theorem sameTables_gc (c : Container) (env : GcEnv) :
    SameTables (gcConnections (establishedKeys env c.processes) env.now c) (c.gc env) :=
  .of_eq (gcAttempts_same ..).1 (gcAttempts_same ..).2.1 (gcAttempts_same ..).2.2

theorem connections_gc (c : Container) (env : GcEnv) : (c.gc env).connections = c.connections :=
  (gcAttempts_same ..).2.2.trans (connections_foldl _ _)

theorem lookup_active_gcConnections {key : ConnectionKey} {ref : Nat} :
    (gcConnections established now c).activeConnections.lookup key = some ref ↔
      c.activeConnections.lookup key = some ref ∧
        dropped established now c.connections key ref = none := by
  rw [gcConnections, lookup_active_foldl]
  refine and_congr_right fun href => ⟨fun h => ?_, fun h e he hkey => ?_⟩
  · exact h ⟨key, ref⟩ (AList.mem_lookup_iff.mp href) rfl
  · have hlookup := Dict.lookup_of_mem he
    rw [hkey, href, Option.some.injEq] at hlookup
    rw [hkey, ← hlookup]
    exact h

theorem lookup_byPidFd_gcConnections {pidFd : PidFd} {ref : Nat} :
    (gcConnections established now c).connectionsByPidFd.lookup pidFd = some ref ↔
      c.connectionsByPidFd.lookup pidFd = some ref ∧
        ∀ key, c.activeConnections.lookup key = some ref →
          dropped established now c.connections key ref ≠ some pidFd := by
  rw [gcConnections, lookup_byPidFd_foldl]
  refine and_congr_right fun _ => ⟨fun h key hkey => ?_, fun h e he href => ?_⟩
  · exact h ⟨key, ref⟩ (AList.mem_lookup_iff.mp hkey) rfl
  · subst href
    exact h e.1 (Dict.lookup_of_mem he)

theorem Linked.gc (h : Linked c) (env : GcEnv) : Linked (c.gc env) := by
  refine Linked.same ⟨fun key ref hkey => ?_, fun pidFd ref hpidFd => ?_,
    fun key key' ref hk hk' => ?_⟩ (sameTables_gc c env)
  · obtain ⟨hkey, hstays⟩ := lookup_active_gcConnections.mp hkey
    obtain ⟨conn, hconn, hopen⟩ := h.active key ref hkey
    refine ⟨conn, by rw [gcConnections, connections_foldl]; exact hconn, fun hclosed => ?_⟩
    refine lookup_byPidFd_gcConnections.mpr ⟨hopen hclosed, fun key' hkey' hdropped => ?_⟩
    obtain rfl := h.distinct key key' ref hkey hkey'
    rw [hstays] at hdropped
    cases hdropped
  · obtain ⟨conn, hconn, heq⟩ := h.byPidFd pidFd ref (lookup_byPidFd_gcConnections.mp hpidFd).1
    exact ⟨conn, by rw [gcConnections, connections_foldl]; exact hconn, heq⟩
  · exact h.distinct key key' ref (lookup_active_gcConnections.mp hk).1
      (lookup_active_gcConnections.mp hk').1

/-- Every connection by process and file descriptor is also one by its addresses, has a socket, and
was not closed long ago. -/
def Reclaimed (established : List ConnectionKey) (now : Time) (c : Container) : Prop :=
  ∀ pidFd (ref : Nat), c.connectionsByPidFd.lookup pidFd = some ref →
    ∃ key conn, c.activeConnections.lookup key = some ref ∧ c.connections[ref]? = some conn ∧
      key ∈ established ∧ conn.expired now = false

/-- **A gc reclaims the connections if and only if they are tracked.** -/
theorem reclaimed_gc_iff (h : Linked c) (env : GcEnv) :
    Reclaimed (establishedKeys env c.processes) env.now (c.gc env) ↔ Tracked c := by
  set established := establishedKeys env c.processes
  have hsame := sameTables_gc c env
  unfold Reclaimed
  rw [hsame.active, hsame.byPidFd]
  constructor
  · intro hreclaimed pidFd ref hpidFd
    by_cases hdropped : ∃ key, c.activeConnections.lookup key = some ref ∧
        dropped established env.now c.connections key ref = some pidFd
    · obtain ⟨key, hkey, -⟩ := hdropped
      exact ⟨key, hkey⟩
    · have hkept := lookup_byPidFd_gcConnections.mpr
        ⟨hpidFd, fun key hkey hsome => hdropped ⟨key, hkey, hsome⟩⟩
      obtain ⟨key, -, hkey, -⟩ := hreclaimed pidFd ref hkept
      exact ⟨key, (lookup_active_gcConnections.mp hkey).1⟩
  · intro htracked pidFd ref hpidFd
    obtain ⟨hpidFd, hkept⟩ := lookup_byPidFd_gcConnections.mp hpidFd
    obtain ⟨key, hkey⟩ := htracked pidFd ref hpidFd
    obtain ⟨conn, hconn, rfl⟩ := h.byPidFd pidFd ref hpidFd
    -- the connection was not dropped under its addresses
    have hstays : key ∈ established ∧ conn.expired env.now = false := by
      by_contra hnot
      refine hkept key hkey ?_
      unfold dropped
      rw [hconn]
      exact if_neg hnot
    have hnone : dropped established env.now c.connections key ref = none := by
      unfold dropped
      rw [hconn]
      exact if_pos hstays
    have hconn' : (c.gc env).connections[ref]? = some conn := by
      rw [connections_gc]
      exact hconn
    exact ⟨key, conn, lookup_active_gcConnections.mpr ⟨hkey, hnone⟩, hconn', hstays⟩

theorem Tracked.gc (ht : Tracked c) (h : Linked c) (env : GcEnv) : Tracked (c.gc env) := by
  intro pidFd ref hpidFd
  obtain ⟨key, -, hkey, -⟩ := (reclaimed_gc_iff h env).mpr ht pidFd ref hpidFd
  exact ⟨key, hkey⟩

end

/-! ## Runs -/

/-- A container, and the filters of the package `common`. -/
structure Tables where
  filters : Filters
  container : Container

namespace Tables

def next [Netaddr] (t : Tables) (event : ConnectionEvent × Time) : Tables :=
  let (filters, container) := event.1.apply t.filters t.container event.2
  ⟨filters, container⟩

def Keeps [Netaddr] (t : Tables) (e : ConnectionOpen) : Prop :=
  (filterConnection t.filters t.container e).1.isSome = true ∧ e.failed = false

/-- A connection that enters the tables has fresh addresses. -/
def Fresh [Netaddr] (t : Tables) : ConnectionEvent → Prop
  | .opened e => t.Keeps e → FreshAddresses t.container e
  | _ => True

variable {t : Tables} {e : ConnectionOpen}

theorem sameTables_opened [Netaddr] (now : Time) (h : ¬ t.Keeps e) :
    SameTables t.container (t.next (.opened e, now)).container := by
  simp only [next, ConnectionEvent.apply, onConnectionOpen]
  unfold Keeps at h
  split
  · exact .refl _
  · rename_i actualDst filters hfilter
    rw [hfilter] at h
    cases hfailed : e.failed with
    | true => exact .of_eq rfl rfl rfl
    | false => exact absurd ⟨rfl, hfailed⟩ h

theorem sameTables_kept [Netaddr] (now : Time) (h : t.Keeps e) :
    ∃ key, SameTables (openConnection t.container e key now)
      (t.next (.opened e, now)).container := by
  obtain ⟨hsome, hfailed⟩ := h
  simp only [next, ConnectionEvent.apply, onConnectionOpen]
  split
  · rename_i hfilter
    rw [hfilter] at hsome
    cases hsome
  · rename_i actualDst filters hfilter
    rw [hfailed]
    exact ⟨_, .of_eq rfl rfl rfl⟩

/-- **The tables agree after every event.** -/
theorem linked_next [Netaddr] (h : Linked t.container) (event : ConnectionEvent) (now : Time) :
    Linked (t.next (event, now)).container := by
  cases event with
  | opened e =>
    by_cases hkeeps : t.Keeps e
    · obtain ⟨key, hsame⟩ := sameTables_kept now hkeeps
      exact (h.openConnection key now).same hsame
    · exact h.same (sameTables_opened now hkeeps)
  | closed pid fd timestamp stats => exact h.same (sameTables_onConnectionClose ..)
  | update pid fd sent received => exact h.same (sameTables_updateConnectionTrafficStats ..)
  | processes ps => exact h.same (.of_eq rfl rfl rfl)
  | gc env => exact h.gc env

/-- **An event leaves the connections tracked if and only if a new one has fresh addresses.** -/
theorem tracked_next [Netaddr] (h : Linked t.container) (ht : Tracked t.container)
    (event : ConnectionEvent) (now : Time) :
    Tracked (t.next (event, now)).container ↔ t.Fresh event := by
  cases event with
  | opened e =>
    by_cases hkeeps : t.Keeps e
    · obtain ⟨key, hsame⟩ := sameTables_kept now hkeeps
      rw [tracked_congr hsame, tracked_openConnection h ht]
      exact ⟨fun hfresh _ => hfresh, fun hfresh => hfresh hkeeps⟩
    · rw [tracked_congr (sameTables_opened now hkeeps)]
      exact iff_of_true ht fun hkept => absurd hkept hkeeps
  | closed pid fd timestamp stats =>
    exact iff_of_true ((tracked_congr (sameTables_onConnectionClose ..)).mpr ht) trivial
  | update pid fd sent received =>
    exact iff_of_true ((tracked_congr (sameTables_updateConnectionTrafficStats ..)).mpr ht) trivial
  | processes ps => exact iff_of_true ht trivial
  | gc env => exact iff_of_true (ht.gc h env) trivial

/-- A connection that was not closed is found, and a gc that happens now leaves none without its
socket. -/
def Consistent (t : Tables) : Prop :=
  (∀ key (ref : Nat), t.container.activeConnections.lookup key = some ref →
    ∃ conn, t.container.connections[ref]? = some conn ∧
      (conn.closed = none →
        t.container.connectionsByPidFd.lookup ⟨conn.pid, conn.fd⟩ = some ref)) ∧
  ∀ env : GcEnv, Reclaimed (establishedKeys env t.container.processes) env.now
    (t.container.gc env)

theorem consistent_iff (h : Linked t.container) : t.Consistent ↔ Tracked t.container := by
  refine ⟨fun hc => ?_, fun ht => ⟨h.active, fun env => (reclaimed_gc_iff h env).mpr ht⟩⟩
  exact (reclaimed_gc_iff h ⟨0, fun _ => "", fun _ => none⟩).mp (hc.2 _)

end Tables

/-- **The tables are consistent in all states of a run if and only if every connection that enters
them has fresh addresses.** -/
theorem connections_reclaimed_iff [Netaddr] (filters : Filters) (id : String) (cg : Cgroup)
    (events : List (ConnectionEvent × Time)) :
    EveryState Tables.next Tables.Consistent ⟨filters, newContainer id cg⟩ events ↔
      EveryStep Tables.next (fun t e => t.Fresh e.1) ⟨filters, newContainer id cg⟩ events := by
  have hlinked := linked_newContainer id cg
  refine everyState_iff_everyStep (I := fun t => Linked t.container)
    (fun t e h => Tables.linked_next h e.1 e.2) (fun t e h hc => ?_) events hlinked
    ((Tables.consistent_iff hlinked).mpr (tracked_newContainer id cg))
  rw [Tables.consistent_iff (Tables.linked_next h e.1 e.2)]
  exact Tables.tracked_next h ((Tables.consistent_iff h).mp hc) e.1 e.2

/-! ## Addresses that are used again -/

def webTables : Tables := ⟨⟨none, []⟩, newContainer "/docker/web" ⟨"/docker/web", 1⟩⟩

/-- A connection of process 7 from port 40000 to 10.0.0.2:80. -/
def webConnection (fd timestamp : Nat) : ConnectionOpen :=
  ⟨7, fd, ⟨.v4 10 0 0 1, 40000⟩, ⟨.v4 10 0 0 2, 80⟩, ⟨.v4 10 0 0 2, 80⟩, timestamp, false, 1, false,
    none, none⟩

/-- A connection on file descriptor 3 is closed, and one on file descriptor 4 has the same
addresses. Long after both were closed there is a gc. -/
def webReused : List (ConnectionEvent × Time) :=
  [(.processes (AList.insert 7 ⟨5, 0⟩ ∅), 6), (.opened (webConnection 3 10), 11),
   (.closed 7 3 10 none, 20), (.opened (webConnection 4 30), 31), (.closed 7 4 30 none, 40),
   (.gc ⟨41 + gcInterval, fun _ => "", fun _ => some []⟩, 41 + gcInterval)]

/-- The first connection is still in the table by process and file descriptor. -/
theorem reused_addresses_kept :
    ((webReused.foldl Tables.next webTables).container.activeConnections.entries = [] ∧
      (webReused.foldl Tables.next webTables).container.connectionsByPidFd.entries =
        [⟨⟨7, 3⟩, 0⟩]) ∧
      ¬ EveryState Tables.next Tables.Consistent webTables webReused := by
  refine ⟨by decide +kernel, fun h => ?_⟩
  obtain ⟨key, conn, hkey, -⟩ := h.2.2.2.2.2.1.2 ⟨41 + gcInterval, fun _ => "", fun _ => some []⟩
    ⟨7, 3⟩ 0 (by decide +kernel)
  cases hkey

end Containers
