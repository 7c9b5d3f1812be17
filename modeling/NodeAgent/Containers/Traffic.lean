import NodeAgent.Infra.Sequences
import NodeAgent.Containers.Container

/-!
# Traffic of connections

Sequences of opened and closed connections and of traffic reports on one container. A report of the
kernel is about one connection, which its timestamp tells apart from others on the same process and
file descriptor. `updateTrafficStats` does not get that timestamp. The sums are `uint64`, so they
are right modulo 2^64.

* `next_accounted` — an event that fits keeps the account
* `total_eq_expected` — after every sequence of events that fit, the account is right
-/

namespace Containers

open Infra

variable {c : ActiveConnection} {i : Nat}

/-! ## Events -/

inductive Direction where
  | sent
  | received
  deriving DecidableEq

def ActiveConnection.bytes (c : ActiveConnection) : Direction → Nat
  | .sent => c.bytesSent
  | .received => c.bytesReceived

def ConnectionStats.bytes (s : ConnectionStats) : Direction → Nat
  | .sent => s.bytesSent
  | .received => s.bytesReceived

structure Report where
  pid : Nat
  fd : Nat
  timestamp : Nat
  sent : Nat
  received : Nat
  deriving DecidableEq

def Report.bytes (r : Report) : Direction → Nat
  | .sent => r.sent
  | .received => r.received

def Report.isAbout (r : Report) (c : ActiveConnection) : Bool :=
  r.pid = c.pid ∧ r.fd = c.fd ∧ r.timestamp = c.timestamp

inductive TrafficEvent where
  | opened (e : ConnectionOpen)
  | closed (r : Report)
  | update (r : Report)
  -- processes come and go
  | processes (ps : Dict Nat Process)

namespace TrafficEvent

def event : TrafficEvent → ConnectionEvent
  | .opened e => .opened e
  | .closed r => .closed r.pid r.fd r.timestamp (some (r.sent, r.received))
  | .update r => .update r.pid r.fd r.sent r.received
  | .processes ps => .processes ps

def reports : TrafficEvent → List Report
  | .closed r => [r]
  | .update r => [r]
  | _ => []

end TrafficEvent

/-- A container, the filters and the reports that were received for it. -/
structure Traffic where
  filters : Filters
  container : Container
  reports : List Report

def Traffic.next [Netaddr] (t : Traffic) (event : TrafficEvent × Time) : Traffic :=
  let (filters, container) := event.1.event.apply t.filters t.container event.2
  ⟨filters, container, event.1.reports ++ t.reports⟩

/-! ## Accounts -/

def total (c : Container) (d : Direction) (key : DestinationKey) : Nat :=
  ((c.connectionStats.lookup key).getD .zero).bytes d

def largest (reports : List Report) (d : Direction) (c : ActiveConnection) : Nat :=
  ((reports.filter (fun r => r.isAbout c)).map (fun r => r.bytes d)).foldr max 0

def sumOver (connections : List ActiveConnection) (key : DestinationKey)
    (f : ActiveConnection → Nat) : Nat :=
  ((connections.filter (fun c => c.destinationKey = key)).map f).sum

def expected (t : Traffic) (d : Direction) (key : DestinationKey) : Nat :=
  sumOver t.container.connections key (largest t.reports d)

/-- The report is stored with the connection `hit`, if any. It is about that connection and not
below what is stored for it, or it changes nothing. -/
def Fits (t : Traffic) (r : Report) (hit : Option Nat) : Prop :=
  ∀ i c, t.container.connections[i]? = some c → ∀ d,
    if hit = some i then
      if r.isAbout c then c.bytes d ≤ r.bytes d else r.bytes d = c.bytes d
    else r.isAbout c = true → r.bytes d ≤ c.bytes d

instance decidableForallDirection {p : Direction → Prop} [∀ d, Decidable (p d)] :
    Decidable (∀ d, p d) :=
  decidable_of_iff (p .sent ∧ p .received)
    ⟨fun h d => (by cases d; exacts [h.1, h.2]), fun h => ⟨h _, h _⟩⟩

instance decidableFits {t : Traffic} {r : Report} {hit : Option Nat} : Decidable (Fits t r hit) :=
  decidable_of_iff (∀ i : Fin t.container.connections.length, ∀ d : Direction,
    if hit = some i.1 then
      if r.isAbout t.container.connections[i] then t.container.connections[i].bytes d ≤ r.bytes d
      else r.bytes d = t.container.connections[i].bytes d
    else r.isAbout t.container.connections[i] = true →
      r.bytes d ≤ t.container.connections[i].bytes d)
  ⟨fun h i c hc d => by
    obtain ⟨hi, rfl⟩ := List.getElem?_eq_some_iff.mp hc
    exact h ⟨i, hi⟩ d, fun h i d => h i _ (List.getElem?_eq_getElem i.2) d⟩

/-- The condition on an event: reports fit, and no bytes are reported for a connection before it is
opened. -/
def TrafficEvent.Fits (t : Traffic) : TrafficEvent → Prop
  | .opened e => ∀ r ∈ t.reports, r.pid = e.pid → r.fd = e.fd → r.timestamp = e.timestamp →
      r.sent = 0 ∧ r.received = 0
  | .closed r => Containers.Fits t r (closeTarget t.container r.pid r.fd r.timestamp)
  | .update r => Containers.Fits t r (t.container.connectionsByPidFd.lookup ⟨r.pid, r.fd⟩)
  | .processes _ => True

instance decidableEventFits (t : Traffic) : ∀ event : TrafficEvent, Decidable (event.Fits t)
  | .opened _ => inferInstanceAs (Decidable (∀ r ∈ t.reports, _))
  | .closed _ => decidableFits
  | .update _ => decidableFits
  | .processes _ => .isTrue trivial

/-- What is stored with the connections is right, and the account is their sum. -/
structure Accounted (t : Traffic) : Prop where
  stored : ∀ c ∈ t.container.connections, ∀ d, c.bytes d = largest t.reports d c
  account : ∀ d key, total t.container d key =
    sumOver t.container.connections key (fun c => c.bytes d) % 2 ^ 64

/-! ## Sums -/

section

variable {l : List ActiveConnection} {key : DestinationKey} {f g : ActiveConnection → Nat}

theorem sumOver_cons (c : ActiveConnection) : sumOver (c :: l) key f =
    (if c.destinationKey = key then f c else 0) + sumOver l key f := by
  by_cases hk : c.destinationKey = key <;> simp [sumOver, hk]

theorem sumOver_append (c : ActiveConnection) : sumOver (l ++ [c]) key f =
    sumOver l key f + if c.destinationKey = key then f c else 0 := by
  by_cases hk : c.destinationKey = key <;> simp [sumOver, hk]

theorem sumOver_congr (h : ∀ c ∈ l, f c = g c) : sumOver l key f = sumOver l key g := by
  refine congrArg List.sum (List.map_congr_left fun c hc => ?_)
  exact h c (List.mem_filter.mp hc).1

theorem sumOver_set {c c' : ActiveConnection} (hkey : c'.destinationKey = c.destinationKey) :
    ∀ {l : List ActiveConnection} {i : Nat}, l[i]? = some c →
      sumOver (l.set i c') key f + (if c.destinationKey = key then f c else 0) =
        sumOver l key f + if c.destinationKey = key then f c' else 0
  | [], _, h => by cases h
  | x :: l, 0, h => by
    cases h
    rw [List.set_cons_zero, sumOver_cons, sumOver_cons, hkey]
    omega
  | x :: l, i + 1, h => by
    have := sumOver_set hkey (l := l) (i := i) h
    rw [List.set_cons_succ, sumOver_cons, sumOver_cons]
    omega

theorem sumOver_modify {u : ActiveConnection → ActiveConnection}
    (hu : ∀ c, (u c).destinationKey = c.destinationKey ∧ f (u c) = f c) :
    ∀ (l : List ActiveConnection) (i : Nat), sumOver (l.modify i u) key f = sumOver l key f
  | [], i => by cases i <;> rfl
  | c :: l, 0 => by rw [List.modify_zero_cons, sumOver_cons, sumOver_cons, (hu c).1, (hu c).2]
  | c :: l, i + 1 => by
    rw [List.modify_succ_cons, sumOver_cons, sumOver_cons, sumOver_modify hu l i]

end

/-! ## Reports -/

theorem largest_cons (r : Report) (reports : List Report) (d : Direction) (c : ActiveConnection) :
    largest (r :: reports) d c =
      if r.isAbout c then max (r.bytes d) (largest reports d c) else largest reports d c := by
  by_cases h : r.isAbout c <;> simp [largest, h]

theorem largest_congr {c' : ActiveConnection}
    (h : c'.pid = c.pid ∧ c'.fd = c.fd ∧ c'.timestamp = c.timestamp) (reports : List Report)
    (d : Direction) : largest reports d c' = largest reports d c := by
  simp only [largest, Report.isAbout, h.1, h.2.1, h.2.2]

theorem largest_eq_zero {reports : List Report}
    (h : ∀ r ∈ reports, r.isAbout c = true → r.sent = 0 ∧ r.received = 0) (d : Direction) :
    largest reports d c = 0 := by
  induction reports with
  | nil => rfl
  | cons r reports ih =>
    rw [largest_cons, ih fun r hr => h r (List.mem_cons_of_mem _ hr)]
    split
    · rename_i habout
      obtain ⟨hs, hr⟩ := h r List.mem_cons_self habout
      cases d <;> simp [Report.bytes, hs, hr]
    · rfl

section

variable {t : Traffic} {r : Report}

theorem stored_of_missed {hit : Option Nat} (h : Accounted t) (hf : Fits t r hit)
    (hi : t.container.connections[i]? = some c) (hmiss : hit ≠ some i) (d : Direction) :
    c.bytes d = largest (r :: t.reports) d c := by
  have hfit := hf i c hi d
  rw [if_neg hmiss] at hfit
  have hstored := h.stored c (List.mem_of_getElem? hi) d
  rw [largest_cons, ← hstored]
  split
  · rename_i habout
    exact (Nat.max_eq_right (hfit habout)).symm
  · rfl

theorem stored_of_hit (h : Accounted t) (hf : Fits t r (some i))
    (hi : t.container.connections[i]? = some c) (d : Direction) :
    c.bytes d ≤ r.bytes d ∧ r.bytes d = largest (r :: t.reports) d c := by
  have hfit := hf i c hi d
  rw [if_pos rfl] at hfit
  have hstored := h.stored c (List.mem_of_getElem? hi) d
  rw [largest_cons, ← hstored]
  split at hfit
  · rename_i habout
    rw [if_pos habout, Nat.max_eq_left hfit]
    exact ⟨hfit, rfl⟩
  · rename_i habout
    rw [if_neg habout]
    exact ⟨Nat.le_of_eq hfit.symm, hfit⟩

theorem total_update {c : Container} {ac : ActiveConnection} (hi : c.connections[i]? = some ac)
    (d : Direction) (key : DestinationKey) :
    total (updateConnectionTrafficStats c (some i) r.sent r.received) d key =
      if ac.destinationKey = key then addCounter (total c d key) (ac.bytes d) (r.bytes d)
      else total c d key := by
  simp only [total, updateConnectionTrafficStats, hi]
  by_cases hk : ac.destinationKey = key
  · subst hk
    rw [AList.lookup_insert, Option.getD_some, if_pos rfl]
    cases d <;> rfl
  · rw [AList.lookup_insert_ne (Ne.symm hk), if_neg hk]

theorem addCounter_eq {sum old new sum' : Nat} (hle : old ≤ new) (hsum : sum' + old = sum + new) :
    addCounter (sum % 2 ^ 64) old new = sum' % 2 ^ 64 := by
  unfold addCounter
  split <;> omega

/-- **A report that fits keeps the account.** -/
theorem report_accounted {hit : Option Nat} (h : Accounted t) (hf : Fits t r hit) :
    Accounted { t with
      container := updateConnectionTrafficStats t.container hit r.sent r.received
      reports := r :: t.reports } := by
  have hmissed : updateConnectionTrafficStats t.container hit r.sent r.received = t.container →
      (∀ i c, t.container.connections[i]? = some c → hit ≠ some i) →
      Accounted { t with
        container := updateConnectionTrafficStats t.container hit r.sent r.received
        reports := r :: t.reports } := by
    intro hsame hmiss
    rw [hsame]
    refine ⟨fun c hc d => ?_, h.account⟩
    obtain ⟨i, hi⟩ := List.mem_iff_getElem?.mp hc
    exact stored_of_missed h hf hi (hmiss i c hi) d
  cases hit with
  | none => exact hmissed rfl fun i c hi => by simp
  | some i =>
    cases hi : t.container.connections[i]? with
    | none =>
      refine hmissed (by simp only [updateConnectionTrafficStats, hi]) fun j c hj hij => ?_
      cases hij
      rw [hi] at hj
      cases hj
    | some ac =>
      let ac' := { ac with bytesSent := r.sent, bytesReceived := r.received }
      have hset : (updateConnectionTrafficStats t.container (some i) r.sent
          r.received).connections = t.container.connections.set i ac' := by
        simp only [updateConnectionTrafficStats, hi, ac']
      have hbytes : ∀ d, ac'.bytes d = r.bytes d := fun d => by cases d <;> rfl
      refine ⟨fun c hc d => ?_, fun d key => ?_⟩
      · simp only [hset] at hc
        obtain ⟨j, hj⟩ := List.mem_iff_getElem?.mp hc
        rw [getElem?_set_of_some hi] at hj
        split at hj
        · cases hj
          have hsame : largest (r :: t.reports) d ac' = largest (r :: t.reports) d ac :=
            largest_congr ⟨rfl, rfl, rfl⟩ _ d
          rw [hbytes]
          exact (stored_of_hit h hf hi d).2.trans hsame.symm
        · rename_i hij
          exact stored_of_missed h hf hj (fun he => hij (Option.some.inj he).symm) d
      · have hsum : sumOver (t.container.connections.set i ac') key (fun c => c.bytes d) +
            (if ac.destinationKey = key then ac.bytes d else 0) =
            sumOver t.container.connections key (fun c => c.bytes d) +
              if ac.destinationKey = key then ac'.bytes d else 0 := sumOver_set (by rfl) hi
        rw [hbytes] at hsum
        simp only [hset]
        rw [total_update hi, h.account d key]
        split at hsum
        · next hkey =>
          rw [if_pos hkey]
          exact addCounter_eq (stored_of_hit h hf hi d).1 hsum
        · next hkey =>
          rw [if_neg hkey]
          exact congrArg (· % 2 ^ 64) hsum.symm

end

/-! ## Opening and closing -/

theorem close_accounted {t : Traffic} (h : Accounted t) (ref : Nat) (now : Time) :
    Accounted { t with container := closeConnection t.container ref now } := by
  refine ⟨fun c hc d => ?_, fun d key => ?_⟩
  · obtain ⟨i, hi⟩ := List.mem_iff_getElem?.mp hc
    simp only [closeConnection, List.getElem?_modify] at hi
    obtain ⟨c', hc', heq⟩ := Option.map_eq_some_iff.mp hi
    have hstored := h.stored c' (List.mem_of_getElem? hc') d
    subst heq
    split
    · rw [show (ActiveConnection.bytes { c' with closed := some now } d) = c'.bytes d by
        cases d <;> rfl, hstored]
      exact (largest_congr ⟨rfl, rfl, rfl⟩ _ d).symm
    · exact hstored
  · refine (h.account d key).trans (congrArg (· % 2 ^ 64) ?_)
    refine (sumOver_modify (fun c => ⟨?_, ?_⟩) _ ref).symm
    · rfl
    · cases d <;> rfl

theorem total_add (c : Container) (e : ConnectionOpen) (key : DestinationKey) (d : Direction)
    (key' : DestinationKey) : total (addConnection c e key) d key' = total c d key' := by
  simp only [total, addConnection]
  by_cases hk : key' = key
  · subst hk
    rw [AList.lookup_insert, Option.getD_some]
    cases d <;> rfl
  · rw [AList.lookup_insert_ne hk]

theorem add_accounted {t : Traffic} (h : Accounted t) {e : ConnectionOpen}
    (hf : (TrafficEvent.opened e).Fits t) (key : DestinationKey) :
    Accounted { t with container := addConnection t.container e key } := by
  let conn : ActiveConnection := ⟨key, e.pid, e.fd, e.timestamp, none, 0, 0⟩
  have hzero : ∀ d, conn.bytes d = 0 := fun d => by cases d <;> rfl
  -- nothing was reported for the connection before
  have hlargest : ∀ d, largest t.reports d conn = 0 := by
    refine largest_eq_zero fun r hr habout => ?_
    simp only [Report.isAbout, conn, decide_eq_true_eq] at habout
    exact hf r hr habout.1 habout.2.1 habout.2.2
  have hconns : (addConnection t.container e key).connections =
      t.container.connections ++ [conn] := rfl
  refine ⟨fun c hc d => ?_, fun d key' => ?_⟩
  · simp only [hconns, List.mem_append, List.mem_singleton] at hc
    rcases hc with hc | rfl
    · exact h.stored c hc d
    · rw [hzero d, hlargest d]
  · simp only [hconns]
    rw [sumOver_append, total_add, h.account, hzero d, ite_self, Nat.add_zero]

theorem open_accounted {t : Traffic} (h : Accounted t) {e : ConnectionOpen}
    (hf : (TrafficEvent.opened e).Fits t) (key : DestinationKey) (now : Time) :
    Accounted { t with container := openConnection t.container e key now } := by
  have hadd := add_accounted h hf key
  unfold openConnection
  split
  · exact close_accounted hadd _ now
  · exact hadd

theorem next_accounted [Netaddr] {t : Traffic} (h : Accounted t) {event : TrafficEvent}
    (hf : event.Fits t) (now : Time) : Accounted (t.next (event, now)) := by
  cases event with
  | processes ps => exact ⟨h.stored, h.account⟩
  | update r => exact report_accounted h hf
  | closed r =>
    simp only [Traffic.next, TrafficEvent.event, ConnectionEvent.apply, onConnectionClose]
    have hr := report_accounted h hf
    cases hc : closeTarget t.container r.pid r.fd r.timestamp with
    | none =>
      rw [hc] at hr
      exact hr
    | some ref =>
      rw [hc] at hr
      exact close_accounted hr ref now
  | opened e =>
    simp only [Traffic.next, TrafficEvent.event, ConnectionEvent.apply, onConnectionOpen]
    cases filterConnection t.filters t.container e with
    | mk actualDst filters =>
      cases actualDst with
      | none => exact ⟨h.stored, h.account⟩
      | some actualDst =>
        simp only
        split
        · exact ⟨h.stored, h.account⟩
        · have hopen := open_accounted h hf (newDestinationKey e.dst actualDst e.domain) now
          exact ⟨hopen.stored, hopen.account⟩

def Traffic.start (filters : Filters) (id : String) (cg : Cgroup) : Traffic :=
  ⟨filters, newContainer id cg, []⟩

theorem start_accounted (filters : Filters) (id : String) (cg : Cgroup) :
    Accounted (Traffic.start filters id cg) :=
  ⟨fun _ hc => (by cases hc), fun d _ => by cases d <;> rfl⟩

/-- **After every sequence of events that fit, the bytes that are accounted for a destination are
the sum, over the connections opened to it, of the largest counter that was reported for each.** -/
theorem total_eq_expected [Netaddr] (filters : Filters) (id : String) (cg : Cgroup)
    (events : List (TrafficEvent × Time))
    (hf : Infra.EveryStep Traffic.next (fun t e => e.1.Fits t) (.start filters id cg) events)
    (d : Direction) (key : DestinationKey) :
    let t := events.foldl Traffic.next (.start filters id cg)
    total t.container d key = expected t d key % 2 ^ 64 := by
  intro t
  have h : Accounted t := foldl_of_everyStep (I := Accounted)
    (fun _ e h hfits => next_accounted h hfits e.2) events (start_accounted filters id cg) hf
  rw [h.account, expected]
  exact congrArg (· % 2 ^ 64) (sumOver_congr fun c hc => h.stored c hc d)

/-! ## Examples of sequences -/

def webTraffic : Traffic := .start ⟨none, []⟩ "/docker/web" ⟨"/docker/web", 1⟩

/-- A connection of process 7 on file descriptor 3. -/
def webOpen (dst : IP) (timestamp : Nat) : ConnectionOpen :=
  ⟨7, 3, ⟨.v4 10 0 0 1, 40000⟩, ⟨dst, 80⟩, ⟨dst, 80⟩, timestamp, false, 1, false, none, none⟩

def webKey (dst : IP) : DestinationKey := ⟨.ofIPPort ⟨dst, 80⟩, .ofIPPort ⟨dst, 80⟩⟩

/-- Process 7 starts, and a connection to 10.0.0.2 is opened and closed. -/
def webReports : List (TrafficEvent × Time) :=
  [(.processes (AList.insert 7 ⟨5, 0⟩ ∅), 6), (.opened (webOpen (.v4 10 0 0 2) 10), 11),
   (.update ⟨7, 3, 10, 100, 20⟩, 12), (.closed ⟨7, 3, 10, 300, 50⟩, 13)]

/-- After it, one to 10.0.0.3 on the same file descriptor. -/
def webReopened : List (TrafficEvent × Time) :=
  [(.opened (webOpen (.v4 10 0 0 3) 20), 14), (.update ⟨7, 3, 20, 70, 10⟩, 15),
   (.closed ⟨7, 3, 20, 90, 10⟩, 16)]

/-- Each destination has the last counters of its own connection. -/
theorem total_eq_expected_web :
    let t := (webReports ++ webReopened).foldl Traffic.next webTraffic
    total t.container .sent (webKey (.v4 10 0 0 2)) = 300 ∧
      total t.container .received (webKey (.v4 10 0 0 2)) = 50 ∧
      total t.container .sent (webKey (.v4 10 0 0 3)) = 90 := by
  have htotal := total_eq_expected ⟨none, []⟩ "/docker/web" ⟨"/docker/web", 1⟩
    (webReports ++ webReopened) (by decide +kernel)
  exact ⟨(htotal .sent _).trans (by decide +kernel),
    (htotal .received _).trans (by decide +kernel), (htotal .sent _).trans (by decide +kernel)⟩

/-- After it, a connection to a link-local address on the same file descriptor, and a report of its
counters. -/
def linkLocalReused : List (TrafficEvent × Time) :=
  [(.opened (webOpen (.v4 169 254 169 254) 20), 14), (.update ⟨7, 3, 20, 1000, 0⟩, 15)]

/-- The bytes of the connection that is not tracked are accounted for the one before it. -/
theorem filtered_connection_credited :
    let t := (webReports ++ linkLocalReused).foldl Traffic.next webTraffic
    total t.container .sent (webKey (.v4 10 0 0 2)) = 1000 ∧
      expected t .sent (webKey (.v4 10 0 0 2)) = 300 := by
  decide +kernel

end Containers
