import NodeAgent.Ebpf.Provenance
import NodeAgent.Ebpf.Statements
import NodeAgent.Infra.Threads

/-!
# The MySQL packets that the agent gets

`is_mysql_query` compares the length in a packet with the number of bytes that are written. The
agent gets a shorter copy and reads the length again. The handlers run on any number of CPUs, and
between two map operations of one any other may go on; of a handler it is noted which request it has
looked up last.

* `mysql_copied` — the copy in every event that is sent, in every run
-/

namespace Ebpf

open Infra Prog

variable {m : Maps} {ls : Nat → Option L7Request}

/-! ## Copies of packets -/

/-- The buffer and the size of a packet that announces at least one byte. -/
structure MysqlCopy (size : Nat) (b : Buffer) : Prop where
  enough : 5 ≤ size
  announced : 1 ≤ little (b.first 3)

theorem mysqlCopy_filled {payload : Memory} {size : Nat} {b b' : Buffer}
    (h : (isMysqlQuery payload size).1 = true) (hfilled : Filled payload size b b') :
    MysqlCopy size b' := by
  obtain ⟨bytes, hr, rfl⟩ := hfilled
  obtain ⟨head, hhead⟩ := isMysqlQuery_accepted h
  have henough := hhead.enough
  have hannounced := hhead.length
  have hsize : 3 ≤ truncatePayloadSize size := by
    simp only [truncatePayloadSize, maxPayloadSize]
    omega
  have hlen := (probeRead_eq_some.mp hr).1
  -- both reads start with the three bytes of the length
  have hthree : bytes.take 3 = head.take 3 := by
    have hcopy : probeRead payload ((0 : Nat) : Int) 3 = some ((bytes.drop 0).take 3) :=
      probeRead_part hr (by omega)
    have hread : probeRead payload ((0 : Nat) : Int) 3 = some ((head.drop 0).take 3) :=
      probeRead_part hhead.read (by omega)
    rw [hcopy] at hread
    exact Option.some.inj hread
  refine ⟨henough, ?_⟩
  rw [first_fill b (by omega) (by decide), hthree]
  omega

theorem MysqlCopy.again {size : Nat} {b : Buffer} (h : MysqlCopy size b) (b' : Buffer) :
    MysqlCopy size (b'.fill (b.first (truncatePayloadSize size))) := by
  have henough := h.enough
  have hsize : 3 ≤ truncatePayloadSize size ∧ truncatePayloadSize size ≤ maxPayloadSize := by
    simp only [truncatePayloadSize, maxPayloadSize]
    omega
  refine ⟨henough, ?_⟩
  rw [first_fill b' (by rw [length_first]; omega) (by decide), Buffer.first, List.take_take,
    Nat.min_eq_left hsize.1]
  exact h.announced

theorem MysqlCopy.truncate {size : Nat} {b : Buffer} (h : MysqlCopy size b) :
    MysqlCopy (truncatePayloadSize size) b := by
  refine ⟨?_, h.announced⟩
  have henough := h.enough
  simp only [truncatePayloadSize, maxPayloadSize]
  omega

/-! ## What is kept -/

def L7Request.Fine (r : L7Request) : Prop := r.protocol = .mysql → MysqlCopy r.payloadSize r.payload

def L7Event.Fine (e : L7Event) : Prop := e.protocol = .mysql → MysqlCopy e.payloadSize e.payload

/-- One map operation, and the request that the handler has looked up last. -/
def watchStep (clock : Nat) (noted : Option L7Request) (op : BpfOp) (m : Maps) :
    op.Reply × Option L7Request × Maps :=
  ((bpfStep clock op m).1, match op with
    | .lookupRequest k => m.requests k
    | _ => noted, (bpfStep clock op m).2)

def watcher : Machine BpfOp BpfOp.Reply Slots Maps (Option L7Request) Nat Handler where
  prog := fun h slots => h.prog slots
  init := fun _ => none
  idle := none
  step := watchStep

abbrev Watcher := Pool Nat BpfOp BpfOp.Reply Slots Maps (Option L7Request)

def Watcher.start : Watcher := ⟨Maps.empty, fun _ => .ret Slots.zero, fun _ => none⟩

/-- Any order of the map operations. -/
def AnyOrder (_ : Maps) (_ : Nat → Option L7Request) (_ : Nat) (_ : BpfOp) : Prop := True

structure Watched (m : Maps) (ls : Nat → Option L7Request) : Prop where
  requests : ∀ k r, m.requests k = some r → r.Fine
  noted : ∀ i r, ls i = some r → r.Fine
  events : ∀ e ∈ m.l7Events, e.Fine

def MayCall (noted : Option L7Request) : BpfOp → Prop
  | .updateRequest _ r => r.Fine
  | .sendL7 e => (∀ r, noted = some r → r.Fine) → e.Fine
  | _ => True

theorem Watched.note (h : Watched m ls) (i : Nat) {noted : Option L7Request}
    (hnoted : ∀ r, noted = some r → r.Fine) : Watched m (Function.update ls i noted) := by
  refine ⟨h.requests, ?_, h.events⟩
  exact (Function.forall_update_iff ls fun _ noted => ∀ r, noted = some r → r.Fine).mpr
    ⟨hnoted, fun j _ => h.noted j⟩

theorem Watched.change (h : Watched m ls) (k : L7RequestKey) {new : Option L7Request}
    (hnew : ∀ r, new = some r → r.Fine) :
    Watched { m with requests := Function.update m.requests k new } ls := by
  refine ⟨?_, h.noted, h.events⟩
  exact (Function.forall_update_iff m.requests fun _ new => ∀ r, new = some r → r.Fine).mpr
    ⟨hnew, fun k _ => h.requests k⟩

theorem bpfStep_watched (h : Watched m ls) (i c : Nat) (op : BpfOp) (hop : MayCall (ls i) op) :
    Watched (bpfStep c op m).2 ls := by
  cases op with
  | updateRequest k r =>
    refine h.change k fun r' hr' => ?_
    rcases Option.or_eq_some_iff.mp hr' with hr' | ⟨_, hr'⟩
    · exact h.requests k r' hr'
    · cases hr'
      exact hop
  | truncateRequest k =>
    refine h.change k fun r' hr' => ?_
    obtain ⟨r, hr, rfl⟩ := Option.map_eq_some_iff.mp hr'
    exact fun hp => (h.requests k r hr hp).truncate
  | markPartial k =>
    refine h.change k fun r' hr' => ?_
    obtain ⟨r, hr, rfl⟩ := Option.map_eq_some_iff.mp hr'
    exact h.requests k r hr
  | deleteRequest k => exact h.change k fun _ hr => by cases hr
  | sendL7 e =>
    exact ⟨h.requests, h.noted, List.forall_mem_cons.mpr ⟨hop (h.noted i), h.events⟩⟩
  | _ => exact ⟨h.requests, h.noted, h.events⟩

/-- **A map operation that a handler may make keeps it.** -/
theorem step_watched (h : Watched m ls) (i c : Nat) (op : BpfOp) (hop : MayCall (ls i) op) :
    Watched (watchStep c (ls i) op m).2.2 (Function.update ls i (watchStep c (ls i) op m).2.1) := by
  refine (bpfStep_watched h i c op hop).note i ?_
  cases op with
  | lookupRequest k => exact h.requests k
  | _ => exact h.noted i

/-! ## The handlers -/

section

variable {slots : Slots} {n : Known} {op : BpfOp} {noted : Option L7Request}

theorem WriteCall.mayCall {source : Source} (h : WriteCall slots source n op) :
    MayCall noted op := by
  cases op with
  | updateRequest k r =>
    obtain ⟨found, -, -, hstored⟩ := h
    intro hp
    obtain ⟨_, _, hd⟩ := hstored.decided
    rw [hp] at hd
    rw [hstored.payloadSize]
    exact mysqlCopy_filled hd.1 hstored.payload
  | sendL7 e =>
    obtain ⟨found, -, -, -, hsent⟩ := h
    intro _ hp
    cases hsent with
    | published _ hprotocol => simp [hp] at hprotocol
    | copied _ hmysql hsize hpayload =>
      rw [hsize]
      exact mysqlCopy_filled (hmysql hp) hpayload
  | _ => trivial

theorem ReadCall.mayCall {isTls : Bool} (hn : noted = n.got.map Prod.snd)
    (h : ReadCall slots isTls n op) : MayCall noted op := by
  cases op with
  | updateRequest => exact h.elim
  | sendL7 e =>
    intro hnoted hp
    cases h.2 with
    | consumed _ _ hprotocol => simp [hp] at hprotocol
    | frames _ _ hprotocol | resolved _ _ _ _ _ hprotocol => cases hp.symm.trans hprotocol
    | @answered k req _ hgot _ _ _ htells =>
      rw [hgot] at hn
      rw [htells.payloadSize, htells.payload]
      exact (hnoted req hn (htells.protocol ▸ hp)).again _
  | _ => trivial

end

/-- **Every handler makes permitted calls only.** -/
theorem handler_mayCall (h : Handler) (slots : Slots) :
    (h.prog slots).Follows watcher MayCall (fun _ _ => True) none := by
  refine (follows_of_obeys (K := fun (n : Known) noted => noted = n.got.map Prod.snd)
    (fun n l op hl hop => ?_) (fun n l op c s hl hop => ?_) (handler_calls h slots)
    rfl).mono fun _ _ _ => trivial
  · cases h with
    | enterWrite => exact WriteCall.mayCall hop
    | exitRead => exact ReadCall.mayCall hl hop
    | _ =>
      cases op with
      | updateRequest | sendL7 => cases hop
      | _ => trivial
  · cases op with
    | lookupRequest k =>
      show s.requests k = (n.tell (.lookupRequest k) (s.requests k)).got.map Prod.snd
      cases s.requests k <;> rfl
    | _ => exact hl

/-! ## Runs -/

theorem Watched.of_run {p : Watcher} (h : watcher.Run AnyOrder Watcher.start p) :
    Watched p.shared p.notes := by
  refine (Machine.Run.invariant (I := Watched) (A := MayCall) (Q := fun _ _ => True) h
    handler_mayCall (fun _ s ls i hw _ => hw.note i fun _ hr => by cases hr)
    (fun s ls i task hw _ => hw.note i fun _ hr => by cases hr)
    (fun s ls i c op hw ha _ => step_watched hw i c op ha) ?_ (fun _ => rfl)).1
  exact ⟨fun _ _ hr => (by cases hr), fun _ _ hr => (by cases hr), fun _ he => (by cases he)⟩

/-- The handlers one after the other on the first CPU, while the clock stands still. -/
def watchAlone (clock : Nat) (calls : List Handler) : Slots × Maps :=
  watcher.runAlone (calls.map (clock, ·)) (Slots.zero, Maps.empty)

theorem run_watchAlone (clock : Nat) (calls : List Handler) :
    watcher.Run AnyOrder Watcher.start
      (watcher.single 0 Slots.zero (watchAlone clock calls)) := by
  refine Machine.Run.tasks_alone _ ?_ (Machine.allMeet_of_forall (fun _ _ _ _ => trivial) 0 _ _)
  rw [Machine.single_start]
  exact .start

theorem mysql_copied {p : Watcher} (h : watcher.Run AnyOrder Watcher.start p) {e : L7Event}
    (he : e ∈ p.shared.l7Events) (hp : e.protocol = .mysql) :
    1 ≤ little (e.requestPayload.take 3) := by
  obtain ⟨henough, hannounced⟩ := (Watched.of_run h).events e he hp
  rw [requestPayload_eq, Buffer.first, List.take_take, Nat.min_eq_left (by omega)]
  exact hannounced

end Ebpf
