import Mathlib.Logic.Function.Basic
import NodeAgent.Ebpf.Protocols
import NodeAgent.Infra.Program

/-!
# The maps of the tracer

The records that the tracer programs share, and the helper calls they make on them. Each call is
one atomic step; a program is a `Prog` over these calls. The environment chooses what the clock
reads. Maps do not run full and nothing is evicted from them.

A write through a pointer into a map (`req->partial = 1`) is a call of its own. It acts on the
entry that is under the key at that time.
-/

namespace Ebpf

open Infra

/-! ## Records -/

structure ConnectionId where
  fd : Nat
  pid : Nat
  deriving DecidableEq

structure Connection where
  timestamp : Nat
  bytesSent : UInt64
  bytesReceived : UInt64
  deriving DecidableEq

/-- `char payload[MAX_PAYLOAD_SIZE]` -/
abbrev Buffer := Fin maxPayloadSize → UInt8

namespace Buffer

def zero : Buffer := fun _ => 0

def fill (b : Buffer) (bytes : Bytes) : Buffer := fun i => bytes.getD i (b i)

def first (b : Buffer) (size : Nat) : Bytes := (List.ofFn b).take size

end Buffer

structure L7RequestKey where
  fd : Nat
  pid : Nat
  isTls : Bool
  streamId : Int
  deriving DecidableEq

def L7RequestKey.cid (k : L7RequestKey) : ConnectionId := ⟨k.fd, k.pid⟩

structure L7Request where
  ns : Nat
  protocol : Protocol
  isPartial : Bool
  requestType : UInt8
  requestId : Int
  payloadSize : Nat
  payload : Buffer

structure L7Event where
  fd : Nat
  connectionTimestamp : Nat
  pid : Nat
  status : Int
  duration : Nat
  protocol : Protocol
  method : Method
  statementId : Nat
  payloadSize : Nat
  payload : Buffer

/-- Pointers are addresses in the memory of the process. -/
structure ReadArgs where
  fd : Nat
  buf : Nat
  ret : Option Nat
  iovlen : Nat
  deriving DecidableEq

inductive TcpEventType where
  | connectionOpen
  | connectionClose
  | connectionError
  | listenOpen
  | listenClose
  deriving DecidableEq

/-- The addresses of the event are left out. -/
structure TcpEvent where
  type : TcpEventType
  fd : Nat
  pid : Nat
  timestamp : Nat
  duration : Nat
  bytesSent : UInt64
  bytesReceived : UInt64
  deriving DecidableEq

/-- The slot of one CPU in `l7_event_heap`, `l7_request_heap` and `iovec_buf_heap`. -/
structure Slots where
  event : L7Event
  request : L7Request
  iovec : Memory

/-- The slots before the first call: the maps start zeroed. -/
def Slots.zero : Slots where
  event := ⟨0, 0, 0, 0, 0, .unknown, .unknown, 0, 0, Buffer.zero⟩
  request := ⟨0, .unknown, false, 0, 0, 0, Buffer.zero⟩
  iovec := fun i => if 0 ≤ i ∧ i < 2 * maxPayloadSize then some 0 else none

/-! ## Helper calls -/

inductive BpfOp where
  -- `active_connections`
  | lookupConnection (cid : ConnectionId)
  | updateConnection (cid : ConnectionId) (conn : Connection)
  | deleteConnection (cid : ConnectionId)
  -- `__sync_fetch_and_add` through the pointer
  | addSent (cid : ConnectionId) (n : Nat)
  | addReceived (cid : ConnectionId) (n : Nat)
  -- `active_reads`, by the id of the reader
  | lookupRead (id : Nat)
  | updateRead (id : Nat) (args : ReadArgs)
  | deleteRead (id : Nat)
  -- `active_l7_requests`; an update never replaces an entry (`BPF_NOEXIST`)
  | lookupRequest (k : L7RequestKey)
  | updateRequest (k : L7RequestKey) (req : L7Request)
  | truncateRequest (k : L7RequestKey)
  | markPartial (k : L7RequestKey)
  | deleteRequest (k : L7RequestKey)
  -- `fd_by_pid_tgid`, by thread
  | lookupFd (id : Nat)
  | updateFd (id fd : Nat)
  | deleteFd (id : Nat)
  -- `connection_id_by_socket`
  | lookupSocket (socket : Nat)
  | updateSocket (socket : Nat) (cid : ConnectionId)
  | deleteSocket (socket : Nat)
  -- `bpf_ktime_get_ns` and `bpf_perf_event_output`
  | ktime
  | sendL7 (e : L7Event)
  | sendTcp (e : TcpEvent)

def BpfOp.Reply : BpfOp → Type
  | .lookupConnection _ => Option Connection
  | .lookupRead _ => Option ReadArgs
  | .lookupRequest _ => Option L7Request
  | .lookupFd _ => Option Nat
  | .lookupSocket _ => Option ConnectionId
  | .ktime => Nat
  | _ => Unit

abbrev BpfProg (α : Type) := Prog BpfOp BpfOp.Reply α

/-- The maps, and the events that were put out, latest first. -/
structure Maps where
  connections : ConnectionId → Option Connection
  reads : Nat → Option ReadArgs
  requests : L7RequestKey → Option L7Request
  fds : Nat → Option Nat
  sockets : Nat → Option ConnectionId
  l7Events : List L7Event
  tcpEvents : List TcpEvent

def Maps.empty : Maps :=
  ⟨fun _ => none, fun _ => none, fun _ => none, fun _ => none, fun _ => none, [], []⟩

/-- The maps with a record for one more connection. -/
def Maps.connect (m : Maps) (cid : ConnectionId) (conn : Connection) : Maps :=
  { m with connections := Function.update m.connections cid (some conn) }

open Function in
/-- One call, when the clock reads `clock`. -/
def bpfStep (clock : Nat) : (op : BpfOp) → Maps → op.Reply × Maps
  | .lookupConnection cid, m => (m.connections cid, m)
  | .updateConnection cid conn, m =>
    ((), { m with connections := update m.connections cid (some conn) })
  | .deleteConnection cid, m => ((), { m with connections := update m.connections cid none })
  | .addSent cid n, m =>
    ((), { m with connections := update m.connections cid ((m.connections cid).map
      (fun c => { c with bytesSent := c.bytesSent + .ofNat n })) })
  | .addReceived cid n, m =>
    ((), { m with connections := update m.connections cid ((m.connections cid).map
      (fun c => { c with bytesReceived := c.bytesReceived + .ofNat n })) })
  | .lookupRead id, m => (m.reads id, m)
  | .updateRead id args, m => ((), { m with reads := update m.reads id (some args) })
  | .deleteRead id, m => ((), { m with reads := update m.reads id none })
  | .lookupRequest k, m => (m.requests k, m)
  | .updateRequest k req, m =>
    ((), { m with requests := update m.requests k ((m.requests k).or (some req)) })
  | .truncateRequest k, m =>
    ((), { m with requests := update m.requests k ((m.requests k).map
      (fun r => { r with payloadSize := truncatePayloadSize r.payloadSize })) })
  | .markPartial k, m =>
    ((), { m with requests := update m.requests k ((m.requests k).map
      (fun r => { r with isPartial := true })) })
  | .deleteRequest k, m => ((), { m with requests := update m.requests k none })
  | .lookupFd id, m => (m.fds id, m)
  | .updateFd id fd, m => ((), { m with fds := update m.fds id (some fd) })
  | .deleteFd id, m => ((), { m with fds := update m.fds id none })
  | .lookupSocket socket, m => (m.sockets socket, m)
  | .updateSocket socket cid, m =>
    ((), { m with sockets := update m.sockets socket (some cid) })
  | .deleteSocket socket, m => ((), { m with sockets := update m.sockets socket none })
  | .ktime, m => (clock, m)
  | .sendL7 e, m => ((), { m with l7Events := e :: m.l7Events })
  | .sendTcp e, m => ((), { m with tcpEvents := e :: m.tcpEvents })

/-- What a write through a pointer leaves of the entries. -/
theorem of_update_map {κ α : Type} [DecidableEq κ] {m : κ → Option α} {k : κ} {f : α → α}
    {R : α → α → Prop} (hrefl : ∀ a, R a a) (hf : ∀ a, R a (f a)) (k' : κ) (a : α)
    (h : Function.update m k ((m k).map f) k' = some a) : ∃ a', m k' = some a' ∧ R a' a := by
  by_cases hk : k' = k
  · subst hk
    rw [Function.update_self] at h
    obtain ⟨a', ha', rfl⟩ := Option.map_eq_some_iff.mp h
    exact ⟨a', ha', hf a'⟩
  · rw [Function.update_of_ne hk] at h
    exact ⟨a, h, hrefl a⟩

/-- What a delete leaves of the entries. -/
theorem of_update_none {κ α : Type} [DecidableEq κ] {m : κ → Option α} {k k' : κ} {a : α}
    (h : Function.update m k none k' = some a) : k' ≠ k ∧ m k' = some a := by
  by_cases hk : k' = k
  · subst hk
    rw [Function.update_self] at h
    cases h
  · rw [Function.update_of_ne hk] at h
    exact ⟨hk, h⟩

/-! The calls as programs. -/

namespace Bpf

abbrev call (op : BpfOp) : BpfProg op.Reply := Prog.lift op

abbrev lookupConnection (cid : ConnectionId) : BpfProg (Option Connection) :=
  Prog.lift (BpfOp.lookupConnection cid)

abbrev lookupRead (id : Nat) : BpfProg (Option ReadArgs) := Prog.lift (BpfOp.lookupRead id)

abbrev lookupRequest (k : L7RequestKey) : BpfProg (Option L7Request) :=
  Prog.lift (BpfOp.lookupRequest k)

abbrev lookupFd (id : Nat) : BpfProg (Option Nat) := Prog.lift (BpfOp.lookupFd id)

abbrev lookupSocket (socket : Nat) : BpfProg (Option ConnectionId) :=
  Prog.lift (BpfOp.lookupSocket socket)

abbrev ktime : BpfProg Nat := Prog.lift BpfOp.ktime

end Bpf

end Ebpf
