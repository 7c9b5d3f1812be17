import NodeAgent.Containers.Container

/-!
# Listening sockets (`containers/container.go`)

The table of listens has, for every address, the processes that have listened there, and
`getListens` spreads an unspecified address over the addresses of the namespace. Go iterates over
the table in any order, and what is reported for an address is what was written last.

* `reported_listens_iff` — when every order reports an address as open exactly if some socket is
* `listens_revalidated` — what `revalidateListens` makes of any table
-/

namespace Containers

open Infra Netaddr

structure ListenDetails where
  closedAt : Option Time
  nsIPs : List IP

abbrev Listens := Dict IPPort (Dict Nat ListenDetails)

abbrev Listen := Sigma fun _ : IPPort => Dict Nat ListenDetails

/-! ## The report -/

section

-- what `Process.isHostNs` says of the processes of the container
variable (hostNs : Nat → Option Bool)

def live (listen : Listen) : List (Bool × ListenDetails) :=
  listen.2.entries.filterMap fun e => (hostNs e.1).map (·, e.2)

def openValue (listen : Listen) : Nat :=
  if (live hostNs listen).any (·.2.closedAt.isNone) then 1 else 0

def reportedIPs [Netaddr] (listen : Listen) : List IP :=
  (if isUnspecified listen.1.ip then (live hostNs listen).flatMap (·.2.nsIPs)
    else [listen.1.ip]).filter fun ip => !(isLoopback ip && !(live hostNs listen).any (·.1))

/-- `order` is the order in which the table is iterated. -/
def getListens [Netaddr] (order : List Listen) : Dict IPPort Nat :=
  order.foldl (fun res listen => (reportedIPs hostNs listen).foldl
    (fun res ip => res.insert ⟨ip, listen.1.port⟩ (openValue hostNs listen)) res) ∅

def Open (listen : Listen) : Prop :=
  ∃ e ∈ listen.2.entries, (hostNs e.1).isSome ∧ e.2.closedAt = none

/-- The listen is at this address, or at all addresses of a namespace that has it. -/
def Covers [Netaddr] (listen : Listen) (a : IPPort) : Prop :=
  a.port = listen.1.port ∧
    (if isUnspecified listen.1.ip then
      ∃ e ∈ listen.2.entries, (hostNs e.1).isSome ∧ a.ip ∈ e.2.nsIPs
    else a.ip = listen.1.ip) ∧
    (isLoopback a.ip = true → ∃ e ∈ listen.2.entries, hostNs e.1 = some true)

variable {hostNs} {listen : Listen} {a : IPPort}

theorem mem_live {x : Bool × ListenDetails} :
    x ∈ live hostNs listen ↔ ∃ e ∈ listen.2.entries, hostNs e.1 = some x.1 ∧ e.2 = x.2 := by
  rw [live, List.mem_filterMap]
  refine exists_congr fun e => and_congr_right fun _ => ?_
  rw [Option.map_eq_some_iff]
  constructor
  · rintro ⟨b, hb, rfl⟩
    exact ⟨hb, rfl⟩
  · rintro ⟨hb, he⟩
    exact ⟨x.1, hb, by rw [he]⟩

theorem openValue_eq_one : openValue hostNs listen = 1 ↔ Open hostNs listen := by
  rw [openValue, ite_eq_left_iff, List.any_eq_true]
  constructor
  · intro h
    by_contra hno
    refine absurd (h ?_) (by decide)
    rintro ⟨x, hx, hnone⟩
    obtain ⟨e, he, hb, hd⟩ := mem_live.mp hx
    exact hno ⟨e, he, by simp [hb], by simpa [hd] using hnone⟩
  · rintro ⟨e, he, hb, hnone⟩ hno
    obtain ⟨b, hb⟩ := Option.isSome_iff_exists.mp hb
    exact absurd ⟨(b, e.2), mem_live.mpr ⟨e, he, hb, rfl⟩, by simp [hnone]⟩ hno

theorem openValue_le (hostNs : Nat → Option Bool) (listen : Listen) :
    openValue hostNs listen ≤ 1 := by
  rw [openValue]
  split <;> decide

theorem covers_iff [Netaddr] : Covers hostNs listen a ↔
    a.port = listen.1.port ∧ a.ip ∈ reportedIPs hostNs listen := by
  rw [Covers, reportedIPs, List.mem_filter]
  refine and_congr_right fun _ => and_congr ?_ ?_
  · split
    · rw [List.mem_flatMap]
      constructor
      · rintro ⟨e, he, hb, hip⟩
        obtain ⟨b, hb⟩ := Option.isSome_iff_exists.mp hb
        exact ⟨(b, e.2), mem_live.mpr ⟨e, he, hb, rfl⟩, hip⟩
      · rintro ⟨x, hx, hip⟩
        obtain ⟨e, he, hb, hd⟩ := mem_live.mp hx
        exact ⟨e, he, by simp [hb], hd ▸ hip⟩
    · rw [List.mem_singleton]
  · rw [Bool.not_eq_true', Bool.and_eq_false_iff, Bool.not_eq_false', List.any_eq_true,
      ← Bool.not_eq_true, imp_iff_not_or]
    refine or_congr_right ⟨?_, ?_⟩
    · rintro ⟨e, he, hb⟩
      exact ⟨(true, e.2), mem_live.mpr ⟨e, he, hb, rfl⟩, rfl⟩
    · rintro ⟨x, hx, hb⟩
      obtain ⟨e, he, hb', -⟩ := mem_live.mp hx
      exact ⟨e, he, hb'.trans (congrArg some hb)⟩

theorem lookup_report [Netaddr] (listen : Listen) (a : IPPort) (res : Dict IPPort Nat) :
    (Covers hostNs listen a →
      ((reportedIPs hostNs listen).foldl
        (fun res ip => res.insert ⟨ip, listen.1.port⟩ (openValue hostNs listen)) res).lookup a =
          some (openValue hostNs listen)) ∧
    (¬ Covers hostNs listen a →
      ((reportedIPs hostNs listen).foldl
        (fun res ip => res.insert ⟨ip, listen.1.port⟩ (openValue hostNs listen)) res).lookup a =
          res.lookup a) := by
  have hcases := Dict.lookup_foldl_insert_cases (k := a) (m := res)
    (l := (reportedIPs hostNs listen).map fun ip =>
      ((⟨ip, listen.1.port⟩ : IPPort), openValue hostNs listen))
  have hmem : a ∈ ((reportedIPs hostNs listen).map fun ip =>
      ((⟨ip, listen.1.port⟩ : IPPort), openValue hostNs listen)).map Prod.fst ↔
        Covers hostNs listen a := by
    rw [covers_iff, List.map_map, List.mem_map]
    constructor
    · rintro ⟨ip, hip, rfl⟩
      exact ⟨rfl, hip⟩
    · rintro ⟨hport, hip⟩
      exact ⟨a.ip, hip, by cases a; exact congrArg (IPPort.mk _) hport.symm⟩
  rw [hmem, List.foldl_map] at hcases
  refine ⟨fun h => ?_, hcases.2⟩
  obtain ⟨v, hv, hlookup⟩ := hcases.1 h
  obtain ⟨ip, -, heq⟩ := List.mem_map.mp hv
  rw [hlookup, (Prod.mk.inj heq).2]

theorem lookup_getListens [Netaddr] (a : IPPort) (order : List Listen) :
    ((∃ l ∈ order, Covers hostNs l a) → ∃ l ∈ order, Covers hostNs l a ∧
      (getListens hostNs order).lookup a = some (openValue hostNs l)) ∧
    ((¬ ∃ l ∈ order, Covers hostNs l a) → (getListens hostNs order).lookup a = none) := by
  induction order using List.reverseRecOn with
  | nil => exact ⟨fun ⟨_, h, _⟩ => absurd h List.not_mem_nil, fun _ => rfl⟩
  | append_singleton order listen ih =>
    rw [getListens, List.foldl_concat]
    by_cases hl : Covers hostNs listen a
    · have hlast : listen ∈ order ++ [listen] := by simp
      exact ⟨fun _ => ⟨listen, hlast, hl, (lookup_report listen a _).1 hl⟩,
        fun hno => absurd ⟨listen, hlast, hl⟩ hno⟩
    · have hexists : (∃ l ∈ order ++ [listen], Covers hostNs l a) ↔
          ∃ l ∈ order, Covers hostNs l a := by
        simp only [List.mem_append, List.mem_singleton]
        refine exists_congr fun l => and_congr_left fun hc => or_iff_left fun heq => hl (heq ▸ hc)
      rw [(lookup_report listen a _).2 hl, hexists]
      refine ⟨fun h => ?_, ih.2⟩
      obtain ⟨l, hmem, hc, hlookup⟩ := ih.1 h
      exact ⟨l, List.mem_append_left _ hmem, hc, hlookup⟩

end

/-- **Every order reports an address as open exactly if a socket that covers it is open, and all
orders report the same, exactly when the listens that cover one address are open or closed
together.** -/
theorem reported_listens_iff [Netaddr] (hostNs : Nat → Option Bool) (listens : Listens) :
    (∀ order : List Listen, order.Perm listens.entries → ∀ a,
        ((getListens hostNs order).lookup a = some 1 ↔
          ∃ l ∈ listens.entries, Covers hostNs l a ∧ Open hostNs l) ∧
        (getListens hostNs order).lookup a = (getListens hostNs listens.entries).lookup a) ↔
      ∀ l ∈ listens.entries, ∀ l' ∈ listens.entries, ∀ a, Covers hostNs l a →
        Covers hostNs l' a → (Open hostNs l ↔ Open hostNs l') := by
  constructor
  · intro h l hl l' hl' a hc hc'
    -- an order in which a listen comes last reports its value
    have hvalue : ∀ l ∈ listens.entries, Covers hostNs l a →
        (getListens hostNs listens.entries).lookup a = some (openValue hostNs l) := by
      intro l hl hc
      obtain ⟨before, after, hsplit⟩ := List.append_of_mem hl
      have hperm : ((before ++ after) ++ [l]).Perm listens.entries := by
        rw [hsplit, List.append_assoc]
        exact ((List.perm_append_singleton l after).append_left before)
      rw [← (h _ hperm a).2, getListens, List.foldl_concat]
      exact (lookup_report l a _).1 hc
    rw [← openValue_eq_one, ← openValue_eq_one,
      Option.some.inj ((hvalue l hl hc).symm.trans (hvalue l' hl' hc'))]
  · intro h order hperm a
    have hvalue : ∀ order : List Listen, order.Perm listens.entries → ∀ l ∈ listens.entries,
        Covers hostNs l a → (getListens hostNs order).lookup a = some (openValue hostNs l) := by
      intro order hperm l hl hc
      obtain ⟨l', hl', hc', hlookup⟩ :=
        (lookup_getListens a order).1 ⟨l, hperm.mem_iff.mpr hl, hc⟩
      have hiff := h l hl l' (hperm.mem_iff.mp hl') a hc hc'
      rw [← openValue_eq_one, ← openValue_eq_one] at hiff
      have hle := openValue_le hostNs l
      have hle' := openValue_le hostNs l'
      rw [hlookup]
      congr 1
      omega
    by_cases hcovered : ∃ l ∈ listens.entries, Covers hostNs l a
    · obtain ⟨l, hl, hc⟩ := hcovered
      rw [hvalue order hperm l hl hc, hvalue _ (.refl _) l hl hc, Option.some.injEq,
        openValue_eq_one]
      refine ⟨⟨fun ho => ⟨l, hl, hc, ho⟩, ?_⟩, rfl⟩
      rintro ⟨l', hl', hc', ho'⟩
      exact (h l hl l' hl' a hc hc').mpr ho'
    · have hcovered' : ¬ ∃ l ∈ order, Covers hostNs l a := by
        simpa only [hperm.mem_iff] using hcovered
      rw [(lookup_getListens a order).2 hcovered', (lookup_getListens a _).2 hcovered]
      exact ⟨iff_of_false nofun fun ⟨l, hl, hc, _⟩ => hcovered ⟨l, hl, hc⟩, rfl⟩

/-- A process has closed its socket at one address and listens at all of them. -/
def reboundListens : List Listen :=
  [⟨⟨.v4 10 0 0 1, 80⟩, (∅ : Dict Nat ListenDetails).insert 1 ⟨some 0, []⟩⟩,
    ⟨⟨.v4 0 0 0 0, 80⟩, (∅ : Dict Nat ListenDetails).insert 1 ⟨none, [.v4 10 0 0 1]⟩⟩]

theorem listen_order_matters :
    (getListens (fun _ => some false) reboundListens).lookup ⟨.v4 10 0 0 1, 80⟩ = some 1 ∧
      (getListens (fun _ => some false) reboundListens.reverse).lookup ⟨.v4 10 0 0 1, 80⟩ =
        some 0 := by
  decide

/-! ## Revalidation -/

/-- The socket inodes of the processes, and the addresses of their namespaces. -/
structure ListenEnv where
  filters : Filters
  processes : List Nat
  readFds : Nat → Option (List String)
  nsIPs : Nat → List IP

namespace ListenEnv

variable (env : ListenEnv)

def inodeToPid : Dict String Nat :=
  (env.processes.flatMap fun pid =>
    (((env.readFds pid).getD []).filter (· ≠ "")).map (·, pid)).foldl
      (fun m e => m.insert e.1 e.2) ∅

/-- A process of the container is seen to own the socket. -/
def Owned (inode : String) : Prop :=
  inode ≠ "" ∧ ∃ pid ∈ env.processes, ∃ inodes, env.readFds pid = some inodes ∧ inode ∈ inodes

/-- The table of an address with a socket that was opened. -/
def opened [Netaddr] (pid : Nat) (addr : IPPort) (byPid : Option (Dict Nat ListenDetails)) :
    Dict Nat ListenDetails :=
  (byPid.getD ∅).insert pid ⟨none, if isUnspecified addr.ip then env.nsIPs pid else []⟩

def onListenOpen [Netaddr] (listens : Listens) (pid : Nat) (addr : IPPort) : Listens :=
  if portShouldBeSkipped env.filters addr.port then listens
  else listens.insert addr (env.opened pid addr (listens.lookup addr))

end ListenEnv

def ListenDetails.expired (d : ListenDetails) (now : Time) : Bool :=
  d.closedAt.any fun t => now > t + gcInterval

/-- The first loop: the addresses that are not among the actual ones. -/
def closeOutdated (now : Time) (actual : Dict IPPort String) (listens : Listens) : Listens :=
  listens.mapValues fun addr byPid =>
    if addr ∈ actual then byPid
    else byPid.mapValues fun _ d => { d with closedAt := d.closedAt.or (some now) }

def isMissing (listens : Listens) (addr : IPPort) : Bool :=
  ((listens.lookup addr).getD ∅).entries.all (·.2.closedAt.isSome)

/-- The actual addresses that are missing, for those whose process is found. -/
def openMissing [Netaddr] (env : ListenEnv) (actual : Dict IPPort String) (listens : Listens) :
    Listens :=
  (actual.filter fun addr _ => isMissing listens addr).entries.foldl
    (fun l e => (env.inodeToPid.lookup e.2).elim l fun pid => env.onListenOpen l pid e.1) listens

/-- The entries of an address that are not too old, if there are any. -/
def collected (now : Time) (byPid : Dict Nat ListenDetails) : Option (Dict Nat ListenDetails) :=
  let byPid := byPid.filter fun _ d => !d.expired now
  if byPid.entries = [] then none else some byPid

def collectListens (now : Time) (listens : Listens) : Listens :=
  listens.entries.foldl
    (fun l e => (collected now e.2).elim (l.erase e.1) (l.insert e.1)) listens

def revalidateListens [Netaddr] (env : ListenEnv) (now : Time) (actual : Dict IPPort String)
    (listens : Listens) : Listens :=
  collectListens now (openMissing env actual (closeOutdated now actual listens))

def Has (listens : Listens) (addr : IPPort) (pid : Nat) (d : ListenDetails) : Prop :=
  ∃ byPid, listens.lookup addr = some byPid ∧ byPid.lookup pid = some d

/-- What is asked of a revalidation that makes `listens'` of `listens`. -/
structure Revalidated (env : ListenEnv) (now : Time) (actual : Dict IPPort String)
    (listens listens' : Listens) : Prop where
  actualOnly : ∀ addr pid d, Has listens' addr pid d → d.closedAt = none → addr ∈ actual
  reopened : ∀ addr inode, actual.lookup addr = some inode → env.Owned inode →
    portShouldBeSkipped env.filters addr.port = false →
      ∃ pid d, Has listens' addr pid d ∧ d.closedAt = none
  collected : ∀ addr pid d, Has listens' addr pid d → d.expired now = false
  nonempty : ∀ addr byPid, listens'.lookup addr = some byPid → byPid.entries ≠ []
  kept : ∀ addr pid d, addr ∈ actual → Has listens addr pid d → d.closedAt = none →
    Has listens' addr pid d

section

variable {env : ListenEnv} {now : Time} {actual : Dict IPPort String} {listens : Listens}
  {addr : IPPort} {pid : Nat} {d : ListenDetails}

theorem exists_inodeToPid {inode : String} (h : env.Owned inode) :
    ∃ pid, env.inodeToPid.lookup inode = some pid := by
  obtain ⟨hne, pid, hpid, inodes, hread, hmem⟩ := h
  have hfd : (inode, pid) ∈ env.processes.flatMap fun pid =>
      (((env.readFds pid).getD []).filter (· ≠ "")).map (·, pid) := by
    refine List.mem_flatMap.mpr ⟨pid, hpid, ?_⟩
    rw [hread]
    exact List.mem_map.mpr ⟨inode, List.mem_filter.mpr ⟨hmem, by simpa using hne⟩, rfl⟩
  obtain ⟨v, -, hv⟩ := Dict.lookup_foldl_insert_cases.1 (List.mem_map.mpr ⟨_, hfd, rfl⟩)
  exact ⟨v, hv⟩

theorem lookup_openMissing [Netaddr] (env : ListenEnv) (actual : Dict IPPort String)
    (listens : Listens) (addr : IPPort) : (openMissing env actual listens).lookup addr =
      (((actual.lookup addr).filter fun _ => isMissing listens addr).bind
        env.inodeToPid.lookup).elim (listens.lookup addr) fun pid =>
          if portShouldBeSkipped env.filters addr.port then listens.lookup addr
          else some (env.opened pid addr (listens.lookup addr)) := by
  rw [openMissing, Dict.lookup_foldl_local (g := fun addr inode byPid =>
    (env.inodeToPid.lookup inode).elim byPid fun pid =>
      if portShouldBeSkipped env.filters addr.port then byPid
      else some (env.opened pid addr byPid)) _ addr (AList.nodupKeys _)]
  · show (AList.lookup addr _).elim _ _ = _
    rw [Dict.lookup_filter]
    cases (actual.lookup addr).filter _ <;> rfl
  · intro l e k
    cases env.inodeToPid.lookup e.2 with
    | none => exact (ite_self _).symm
    | some pid =>
      rw [Option.elim_some, Option.elim_some, ListenEnv.onListenOpen]
      by_cases hk : k = e.1
      · subst hk
        rw [if_pos rfl, apply_ite (AList.lookup _), AList.lookup_insert]
      · rw [if_neg hk, apply_ite (AList.lookup _), AList.lookup_insert_ne hk, ite_self]

theorem lookup_collectListens (now : Time) (listens : Listens) (addr : IPPort) :
    (collectListens now listens).lookup addr = (listens.lookup addr).bind (collected now) := by
  rw [collectListens, Dict.lookup_foldl_local (g := fun _ byPid _ => collected now byPid) _ addr
    listens.nodupKeys]
  · show (listens.lookup addr).elim _ _ = _
    cases listens.lookup addr <;> rfl
  · intro l e k
    cases collected now e.2 with
    | none =>
      by_cases hk : k = e.1
      · rw [if_pos hk, hk]
        exact AList.lookup_erase _ _
      · rw [if_neg hk]
        exact AList.lookup_erase_ne hk
    | some byPid => exact Dict.lookup_insert_eq l e.1 k byPid

theorem has_collectListens : Has (collectListens now listens) addr pid d ↔
    Has listens addr pid d ∧ d.expired now = false := by
  have hfilter : ∀ byPid : Dict Nat ListenDetails,
      (byPid.filter fun _ d => !d.expired now).lookup pid = some d ↔
        byPid.lookup pid = some d ∧ d.expired now = false := fun byPid => by
    rw [Dict.lookup_filter, Option.filter_eq_some_iff, Bool.not_eq_true']
  constructor
  · rintro ⟨byPid', hbyPid', hd⟩
    rw [lookup_collectListens] at hbyPid'
    obtain ⟨byPid, hbyPid, hc⟩ := Option.bind_eq_some_iff.mp hbyPid'
    rw [collected, ite_eq_iff] at hc
    obtain ⟨-, h⟩ | ⟨-, h⟩ := hc
    · cases h
    · obtain ⟨hd, hexp⟩ := (hfilter byPid).mp (Option.some.inj h ▸ hd)
      exact ⟨⟨byPid, hbyPid, hd⟩, hexp⟩
  · rintro ⟨⟨byPid, hbyPid, hd⟩, hexp⟩
    have hd' := (hfilter byPid).mpr ⟨hd, hexp⟩
    refine ⟨_, ?_, hd'⟩
    rw [lookup_collectListens, hbyPid]
    have hmem : ⟨pid, d⟩ ∈ (byPid.filter fun _ d => !d.expired now).entries :=
      Dict.mem_entries.mpr hd'
    exact if_neg (List.ne_nil_of_mem hmem)

theorem lookup_closeOutdated_actual (h : addr ∈ actual) :
    (closeOutdated now actual listens).lookup addr = listens.lookup addr := by
  rw [closeOutdated, Dict.lookup_mapValues]
  simp only [if_pos h, Option.map_id_fun', id]

theorem not_open_closeOutdated (h : addr ∉ actual)
    (hd : Has (closeOutdated now actual listens) addr pid d) : d.closedAt ≠ none := by
  obtain ⟨byPid', hbyPid', hd⟩ := hd
  rw [closeOutdated, Dict.lookup_mapValues] at hbyPid'
  simp only [if_neg h] at hbyPid'
  obtain ⟨byPid, -, rfl⟩ := Option.map_eq_some_iff.mp hbyPid'
  rw [Dict.lookup_mapValues] at hd
  obtain ⟨d', -, rfl⟩ := Option.map_eq_some_iff.mp hd
  cases d'.closedAt <;> nofun

end

/-- **After a revalidation the open listens are those of the kernel, as far as their processes are
known, and what was closed long ago is gone.** -/
theorem listens_revalidated [Netaddr] (env : ListenEnv) (now : Time) (actual : Dict IPPort String)
    (listens : Listens) :
    Revalidated env now actual listens (revalidateListens env now actual listens) := by
  have hopen : ∀ d : ListenDetails, d.closedAt = none → d.expired now = false := fun d hd => by
    rw [ListenDetails.expired, hd]
    rfl
  constructor
  case actualOnly =>
    intro addr pid d hd hnone
    by_contra hout
    have hlookup : actual.lookup addr = none := AList.lookup_eq_none.mpr hout
    obtain ⟨byPid, hbyPid, hd⟩ := (has_collectListens.mp hd).1
    rw [lookup_openMissing, hlookup] at hbyPid
    have hclosed : Has (closeOutdated now actual listens) addr pid d := ⟨byPid, hbyPid, hd⟩
    exact not_open_closeOutdated hout hclosed hnone
  case reopened =>
    intro addr inode hinode howned hskip
    obtain ⟨pid, hpid⟩ := exists_inodeToPid howned
    have hmid := lookup_openMissing env actual (closeOutdated now actual listens) addr
    rw [hinode] at hmid
    cases hmissing : isMissing (closeOutdated now actual listens) addr with
    | true =>
      rw [hmissing] at hmid
      simp only [Option.filter_some, if_true, Option.bind_some, hpid, Option.elim_some, hskip,
        Bool.false_eq_true, if_false] at hmid
      exact ⟨pid, _, has_collectListens.mpr ⟨⟨_, hmid, AList.lookup_insert _⟩, rfl⟩, rfl⟩
    | false =>
      -- some entry is open already
      rw [hmissing] at hmid
      rw [isMissing, List.all_eq_false] at hmissing
      obtain ⟨e, he, hnone⟩ := hmissing
      have hnone : e.2.closedAt = none := by simpa using hnone
      cases hbyPid : (closeOutdated now actual listens).lookup addr with
      | none =>
        rw [hbyPid] at he
        cases he
      | some byPid =>
        rw [hbyPid] at he hmid
        refine ⟨e.1, e.2, has_collectListens.mpr ⟨⟨byPid, hmid, ?_⟩, hopen _ hnone⟩, hnone⟩
        exact Dict.lookup_of_mem he
  case collected => exact fun addr pid d hd => (has_collectListens.mp hd).2
  case nonempty =>
    intro addr byPid hbyPid hnil
    rw [revalidateListens, lookup_collectListens] at hbyPid
    obtain ⟨byPid', -, hc⟩ := Option.bind_eq_some_iff.mp hbyPid
    rw [Containers.collected, ite_eq_iff] at hc
    obtain ⟨-, h⟩ | ⟨hne, h⟩ := hc
    · cases h
    · exact hne (Option.some.inj h ▸ hnil)
  case kept =>
    rintro addr pid d hactual ⟨byPid, hbyPid, hd⟩ hnone
    refine has_collectListens.mpr ⟨⟨byPid, ?_, hd⟩, hopen d hnone⟩
    have hsame : (closeOutdated now actual listens).lookup addr = listens.lookup addr :=
      lookup_closeOutdated_actual hactual
    rw [← hsame] at hbyPid
    have hfound : isMissing (closeOutdated now actual listens) addr = false := by
      rw [isMissing, hbyPid, List.all_eq_false]
      exact ⟨⟨pid, d⟩, Dict.mem_entries.mpr hd, by simp [hnone]⟩
    rw [lookup_openMissing, hfound, hbyPid]
    cases actual.lookup addr <;> rfl

end Containers
