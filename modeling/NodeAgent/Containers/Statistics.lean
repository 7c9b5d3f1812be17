import NodeAgent.Containers.Connections
import NodeAgent.Ebpf.Protocols

/-!
# The statistics of destinations

`gc` forgets the statistics of a destination together with its entry in `lastConnectionAttempts`.
An event of a connection makes new statistics for its destination, but no entry there, and a
connection that has lost its place in the table by addresses is still found by its process and file
descriptor.

* `statistics_collectable_iff` — when all statistics are of destinations that `gc` looks at
-/

namespace Containers

open Infra

structure Reporting where
  container : Container
  l7Stats : Dict (Ebpf.Protocol × DestinationKey) Unit

inductive StatsEvent where
  | connection (f : Filters) (event : ConnectionEvent) (now : Time)
  | l7Request (pid fd timestamp : Nat) (protocol : Ebpf.Protocol)
  | retransmission (src dst : IPPort)

def Container.connection? (c : Container) (ref : Option Nat) : Option ActiveConnection :=
  ref.bind (c.connections[·]?)

def onRetransmission (c : Container) (src dst : IPPort) : Container :=
  (c.connection? (c.activeConnections.lookup ⟨src, dst⟩)).elim c fun conn =>
    let stats := (c.connectionStats.lookup conn.destinationKey).getD .zero
    let stats := { stats with retransmissions := stats.retransmissions + 1 }
    { c with connectionStats := c.connectionStats.insert conn.destinationKey stats }

/-- The loop of `gc` over the attempts deletes what there is of this destination. -/
def Container.forgets (c : Container) (env : GcEnv) (dst : HostPort) : Bool :=
  (c.lastConnectionAttempts.lookup dst).any fun at' =>
    dst ∉ establishedDst (establishedKeys env c.processes) c ∧ env.now > at' + gcInterval

namespace Reporting

def init (id : String) (cg : Cgroup) (processes : Dict Nat Process) : Reporting :=
  ⟨{ newContainer id cg with processes }, ∅⟩

/-- The connection of a request; a DNS request has none. -/
def l7Connection (s : Reporting) (pid fd timestamp : Nat) (protocol : Ebpf.Protocol) :
    Option ActiveConnection :=
  if protocol = .dns then none
  else (s.container.connection? (s.container.connectionsByPidFd.lookup ⟨pid, fd⟩)).filter
    fun conn => timestamp = 0 ∨ conn.timestamp = timestamp

/-- `l7Stats.get` -/
def l7Key (protocol : Ebpf.Protocol) (key : DestinationKey) : Ebpf.Protocol × DestinationKey :=
  (if protocol = .http2 then .http else protocol, key)

/-- What a gc leaves of `l7Stats`. -/
def keptL7Stats (s : Reporting) : ConnectionEvent → Dict (Ebpf.Protocol × DestinationKey) Unit
  | .gc env => s.l7Stats.filter fun k _ => !s.container.forgets env k.2.destination
  | _ => s.l7Stats

def next [Netaddr] (s : Reporting) : StatsEvent → Reporting
  | .connection f event now => ⟨(event.apply f s.container now).2, s.keptL7Stats event⟩
  | .l7Request pid fd timestamp protocol =>
    (s.l7Connection pid fd timestamp protocol).elim s fun conn =>
      { s with l7Stats := s.l7Stats.insert (l7Key protocol conn.destinationKey) () }
  | .retransmission src dst => { s with container := onRetransmission s.container src dst }

/-- All statistics are of destinations with an attempt. -/
structure Collectable (s : Reporting) : Prop where
  connections : ∀ key ∈ s.container.connectionStats,
    key.destination ∈ s.container.lastConnectionAttempts
  l7 : ∀ k ∈ s.l7Stats, k.2.destination ∈ s.container.lastConnectionAttempts

/-- The connection whose statistics an event looks up, or makes. -/
def counted (s : Reporting) : StatsEvent → Option ActiveConnection
  | .connection _ (.closed pid fd timestamp stats) _ =>
    stats.bind fun _ => s.container.connection? (closeTarget s.container pid fd timestamp)
  | .connection _ (.update pid fd _ _) _ =>
    s.container.connection? (s.container.connectionsByPidFd.lookup ⟨pid, fd⟩)
  | .l7Request pid fd timestamp protocol => s.l7Connection pid fd timestamp protocol
  | .retransmission src dst =>
    s.container.connection? (s.container.activeConnections.lookup ⟨src, dst⟩)
  | _ => none

/-- There is an attempt to the destination of that connection. -/
def Known (s : Reporting) (e : StatsEvent) : Prop :=
  ∀ conn, s.counted e = some conn →
    conn.destinationKey.destination ∈ s.container.lastConnectionAttempts

variable {s : Reporting} {c : Container}

theorem collectable_insert (h : s.Collectable) {key : DestinationKey} {v : ConnectionStats}
    (hstats : c.connectionStats = s.container.connectionStats.insert key v)
    (hattempts : c.lastConnectionAttempts = s.container.lastConnectionAttempts) :
    ({ s with container := c } : Reporting).Collectable ↔
      key.destination ∈ s.container.lastConnectionAttempts := by
  constructor
  · intro h'
    have := h'.connections key (hstats ▸ (AList.mem_insert _).mpr (.inl rfl))
    rwa [hattempts] at this
  · intro hkey
    refine ⟨fun key' hkey' => ?_, fun k hk => ?_⟩
    · rw [hattempts]
      rcases (AList.mem_insert _).mp (hstats ▸ hkey') with rfl | hold
      · exact hkey
      · exact h.connections key' hold
    · rw [hattempts]
      exact h.l7 k hk

theorem collectable_traffic (h : s.Collectable) (ref : Option Nat) (sent received : Nat) :
    ({ s with container := updateConnectionTrafficStats s.container ref sent received } :
      Reporting).Collectable ↔ ∀ conn, s.container.connection? ref = some conn →
        conn.destinationKey.destination ∈ s.container.lastConnectionAttempts := by
  cases ref with
  | none => exact iff_of_true h nofun
  | some ref =>
    rw [updateConnectionTrafficStats]
    show _ ↔ ∀ conn, s.container.connections[ref]? = some conn → _
    cases s.container.connections[ref]? with
    | none => exact iff_of_true h nofun
    | some conn =>
      refine Iff.trans (collectable_insert h rfl rfl) ?_
      exact ⟨fun hconn _ hc => Option.some.inj hc ▸ hconn, fun hall => hall conn rfl⟩

/-! ## The gc -/

theorem stats_gcConnections (established : List ConnectionKey) (now : Time)
    (l : List (Sigma fun _ : ConnectionKey => Nat)) : ∀ c : Container,
    let c' := l.foldl (fun c e => gcConnection established now c e.1 e.2) c
    c'.connectionStats = c.connectionStats ∧
      c'.lastConnectionAttempts = c.lastConnectionAttempts := by
  induction l with
  | nil => exact fun _ => ⟨rfl, rfl⟩
  | cons e l ih =>
    intro c
    have hstep : (gcConnection established now c e.1 e.2).connectionStats = c.connectionStats ∧
        (gcConnection established now c e.1 e.2).lastConnectionAttempts =
          c.lastConnectionAttempts := by
      rw [gcConnection]
      split
      · exact ⟨rfl, rfl⟩
      split
      · exact ⟨rfl, rfl⟩
      split <;> exact ⟨rfl, rfl⟩
    exact ⟨(ih _).1.trans hstep.1, (ih _).2.trans hstep.2⟩

theorem stats_gcAttempts (active : List HostPort) (now : Time)
    (l : List (Sigma fun _ : HostPort => Time)) : ∀ c : Container,
    let c' := l.foldl (fun c e => gcAttempt active now c e.1 e.2) c
    (∀ key ∈ c'.connectionStats, key ∈ c.connectionStats ∧
      ∀ e ∈ l, e.1 = key.destination → ¬ (e.1 ∉ active ∧ now > e.2 + gcInterval)) ∧
    (∀ dst ∈ c.lastConnectionAttempts,
      (∀ e ∈ l, e.1 = dst → ¬ (e.1 ∉ active ∧ now > e.2 + gcInterval)) →
        dst ∈ c'.lastConnectionAttempts) := by
  induction l with
  | nil => exact fun c => ⟨fun key hkey => ⟨hkey, nofun⟩, fun _ h _ => h⟩
  | cons e l ih =>
    intro c
    obtain ⟨hstats, hattempts⟩ := ih (gcAttempt active now c e.1 e.2)
    by_cases hdue : e.1 ∉ active ∧ now > e.2 + gcInterval
    · rw [gcAttempt, if_pos hdue] at hstats hattempts
      rw [List.foldl_cons, gcAttempt, if_pos hdue]
      refine ⟨fun key hkey => ?_, fun dst hdst hall => ?_⟩
      · obtain ⟨hmem, hrest⟩ := hstats key hkey
        obtain ⟨v, hv⟩ := Option.isSome_iff_exists.mp (AList.lookup_isSome.mpr hmem)
        rw [Dict.lookup_filter, Option.filter_eq_some_iff, decide_eq_true_eq] at hv
        refine ⟨AList.lookup_isSome.mp (by rw [hv.1]; rfl), ?_⟩
        exact List.forall_mem_cons.mpr ⟨fun heq => absurd heq.symm hv.2, hrest⟩
      · rw [List.forall_mem_cons] at hall
        refine hattempts dst (AList.mem_erase.mpr ⟨fun heq => ?_, hdst⟩) hall.2
        exact hall.1 heq.symm hdue
    · rw [gcAttempt, if_neg hdue] at hstats hattempts
      rw [List.foldl_cons, gcAttempt, if_neg hdue]
      refine ⟨fun key hkey => ⟨(hstats key hkey).1, ?_⟩, fun dst hdst hall => ?_⟩
      · exact List.forall_mem_cons.mpr ⟨fun _ => hdue, (hstats key hkey).2⟩
      · exact hattempts dst hdst (List.forall_mem_cons.mp hall).2

theorem collectable_gc [Netaddr] (h : s.Collectable) (f : Filters) (env : GcEnv) (now : Time) :
    (s.next (.connection f (.gc env) now)).Collectable := by
  have hsame := stats_gcConnections (establishedKeys env s.container.processes) env.now
    s.container.activeConnections.entries s.container
  have hgc := stats_gcAttempts (establishedDst (establishedKeys env s.container.processes)
    s.container) env.now s.container.lastConnectionAttempts.entries (gcConnections
      (establishedKeys env s.container.processes) env.now s.container)
  rw [gcConnections, hsame.1, hsame.2] at hgc
  constructor
  · intro key hkey
    rw [next, ConnectionEvent.apply, Container.gc, hsame.2] at hkey ⊢
    obtain ⟨hold, hdue⟩ := hgc.1 key hkey
    exact hgc.2 _ (h.connections key hold) hdue
  · intro k hk
    obtain ⟨v, hv⟩ := Option.isSome_iff_exists.mp (AList.lookup_isSome.mpr hk)
    rw [next, keptL7Stats, Dict.lookup_filter, Option.filter_eq_some_iff, Bool.not_eq_true'] at hv
    rw [next, ConnectionEvent.apply, Container.gc, hsame.2]
    refine hgc.2 _ (h.l7 k (AList.lookup_isSome.mp (by rw [hv.1]; rfl))) fun e he heq hdue => ?_
    have hforgets : s.container.forgets env k.2.destination = true := by
      rw [← heq, Container.forgets, Dict.lookup_of_mem he, Option.any_some]
      exact decide_eq_true hdue
    rw [hforgets] at hv
    cases hv.2

/-! ## Every event -/

theorem collectable_opened [Netaddr] (h : s.Collectable) (f : Filters) (e : ConnectionOpen)
    (now : Time) : (s.next (.connection f (.opened e) now)).Collectable := by
  have hopen : ∀ key, (openConnection s.container e key now).connectionStats =
      (addConnection s.container e key).connectionStats ∧
      (openConnection s.container e key now).lastConnectionAttempts =
        s.container.lastConnectionAttempts := fun key => by
    rw [openConnection]
    split <;> exact ⟨rfl, rfl⟩
  rw [next, ConnectionEvent.apply, onConnectionOpen]
  split
  · exact h
  · next actualDst f' hkept =>
    have hmono : ∀ {dst dst'}, dst ∈ s.container.lastConnectionAttempts →
        dst ∈ s.container.lastConnectionAttempts.insert dst' now := fun hd =>
      (AList.mem_insert _).mpr (.inr hd)
    simp only
    by_cases hfailed : e.failed = true
    · rw [if_pos hfailed]
      exact ⟨fun key hkey => hmono (h.connections key hkey), fun k hk => hmono (h.l7 k hk)⟩
    · rw [if_neg hfailed, (hopen _).2]
      refine ⟨fun key hkey => ?_, fun k hk => hmono (h.l7 k hk)⟩
      simp only [(hopen _).1] at hkey
      rcases (AList.mem_insert _).mp hkey with rfl | hold
      · exact (AList.mem_insert _).mpr (.inl rfl)
      · exact hmono (h.connections key hold)

theorem collectable_next [Netaddr] (h : s.Collectable) (e : StatsEvent) :
    (s.next e).Collectable ↔ s.Known e := by
  cases e with
  | connection f event now =>
    cases event with
    | opened e => exact iff_of_true (collectable_opened h f e now) nofun
    | gc env => exact iff_of_true (collectable_gc h f env now) nofun
    | processes ps => exact iff_of_true ⟨h.connections, h.l7⟩ nofun
    | update pid fd sent received => exact collectable_traffic h _ sent received
    | closed pid fd timestamp stats =>
      show ({ s with container := onConnectionClose .. } : Reporting).Collectable ↔
        ∀ conn, (stats.bind fun _ => _) = some conn → _
      rw [onConnectionClose]
      cases closeTarget s.container pid fd timestamp with
      | none =>
        refine iff_of_true h ?_
        cases stats <;> nofun
      | some ref =>
        cases stats with
        | none => exact iff_of_true ⟨h.connections, h.l7⟩ nofun
        | some stats =>
          rw [Option.bind_some, ← collectable_traffic h (some ref) stats.1 stats.2]
          exact ⟨fun h' => ⟨h'.connections, h'.l7⟩, fun h' => ⟨h'.connections, h'.l7⟩⟩
  | l7Request pid fd timestamp protocol =>
    show (Option.elim (s.l7Connection ..) s _).Collectable ↔
      ∀ conn, s.l7Connection pid fd timestamp protocol = some conn → _
    cases s.l7Connection pid fd timestamp protocol with
    | none => exact iff_of_true h nofun
    | some conn =>
      constructor
      · rintro h' _ ⟨⟩
        exact h'.l7 (l7Key protocol conn.destinationKey) ((AList.mem_insert _).mpr (.inl rfl))
      · refine fun hall => ⟨h.connections, fun k hk => ?_⟩
        rcases (AList.mem_insert _).mp hk with rfl | hold
        · exact hall conn rfl
        · exact h.l7 k hold
  | retransmission src dst =>
    show ({ s with container := onRetransmission .. } : Reporting).Collectable ↔
      ∀ conn, s.container.connection? _ = some conn → _
    rw [onRetransmission]
    cases s.container.connection? (s.container.activeConnections.lookup ⟨src, dst⟩) with
    | none => exact iff_of_true h nofun
    | some conn =>
      refine Iff.trans (collectable_insert h rfl rfl) ?_
      exact ⟨fun hconn _ hc => Option.some.inj hc ▸ hconn, fun hall => hall conn rfl⟩

/-- **All statistics can be collected in all states of a run if and only if every event that counts
for a connection finds an attempt to its destination.** -/
theorem statistics_collectable_iff [Netaddr] (id : String) (cg : Cgroup)
    (processes : Dict Nat Process) (events : List StatsEvent) :
    Infra.EveryState next Collectable (init id cg processes) events ↔
      Infra.EveryStep next Known (init id cg processes) events :=
  everyState_iff_everyStep (I := fun _ => True) (fun _ _ _ => trivial)
    (fun _ e _ h => collectable_next h e) events trivial ⟨nofun, nofun⟩

/-- Two processes open a connection with the same addresses. After the gc there is traffic on the
first one. -/
def sharedAddresses : List StatsEvent :=
  let e (pid : Nat) : ConnectionOpen :=
    ⟨pid, 3, ⟨.v4 10 0 0 1, 4000⟩, ⟨.v4 10 0 0 2, 80⟩, ⟨.v4 10 0 0 2, 80⟩, 0, false, 0, false, none,
      none⟩
  [.opened (e 1), .opened (e 2), .gc ⟨gcInterval + 1, fun _ => "", fun _ => none⟩,
    .update 1 3 10 0].map fun event => .connection ⟨none, []⟩ event 0

theorem statistics_outlive_gc :
    let s := sharedAddresses.foldl next
      (init "c" ⟨"c", 0⟩ (((∅ : Dict Nat Process).insert 1 ⟨0, 0⟩).insert 2 ⟨0, 1⟩))
    s.container.connectionStats.keys = [⟨⟨"", .v4 10 0 0 2, 80⟩, ⟨"", .v4 10 0 0 2, 80⟩⟩] ∧
      s.container.lastConnectionAttempts.keys = [] := by
  decide

end Reporting

end Containers
