import Mathlib.Algebra.BigOperators.Group.Finset.Basic
import Mathlib.Data.Fintype.BigOperators
import NodeAgent.Containers.Net
import NodeAgent.Dogstatsd.Receiver

/-!
# The packet queue (`dogstatsd/receiver.go`)

The reader puts datagrams into a channel, and the parse workers take them out. A call of
`CloseContext` stops the reader and waits for the workers, up to its deadline. Every operation on a
channel, every update of a counter and every close is one step, and the steps of the reader, the
workers and the calls come in any order.

A counter of datagrams is the list of those it has counted. Gauges, `bytesReceived` and what
`processPacket` does with the lines are left out.

* `packetBytes_accounted` — the bound on the bytes in the channel, in every schedule
-/

namespace Dogstatsd

open Infra Containers

/-! ## Datagrams -/

/-- `netip.AddrFromSlice`. -/
def addrFromSlice : Bytes → Option IP
  | [a, b, c, d] => some (.v4 a b c d)
  | bytes => if bytes.length = 16 then some (.v6 (BitVec.ofNat 128 (bigEndian bytes))) else none

/-- `Addr.Unmap`: an IPv4 address that is mapped to IPv6 becomes an IPv4 address. -/
def unmap : IP → IP
  | .v6 addr =>
    if addr >>> 32 = 0xffff then
      .v4 (UInt8.ofNat (addr >>> 24).toNat) (UInt8.ofNat (addr >>> 16).toNat)
        (UInt8.ofNat (addr >>> 8).toNat) (UInt8.ofNat addr.toNat)
    else .v6 addr
  | ip => ip

/-- `udpPacket`. The source is `none` if the address was not valid, and `id` counts the datagrams.
-/
structure UdpPacket where
  id : Nat
  source : Option IP
  payload : Bytes
  deriving DecidableEq

/-- The labels of `dropped` under which `readLoop` counts datagrams. -/
inductive PacketDrop where
  | untrustedSource
  | packetTooLarge
  | byteRateLimit
  | packetQueueBytes
  | packetQueueFull
  deriving DecidableEq

/-! ## The goroutines -/

/-- Where `readLoop` is. -/
inductive Reader where
  -- at `ReadFromUDP`
  | reading
  -- after an error: at the `select` on `stop`
  | failed
  -- a datagram was read: before `packetsReceived.Inc`
  | arrived (source payload : Bytes)
  -- before the checks
  | counted (p : UdpPacket)
  -- before `dropped.Inc`
  | refused (reason : PacketDrop) (p : UdpPacket)
  -- before `packetBytes.Add(n)`
  | accepted (p : UdpPacket)
  -- `packetBytes` was too large: before `packetBytes.Add(-n)`
  | overBytes (p : UdpPacket)
  -- at the `select`
  | offering (p : UdpPacket)
  -- the `select` took the default: before `packetBytes.Add(-n)`
  | full (p : UdpPacket)
  -- the `select` took `stop`: before `packetBytes.Add(-n)`
  | stopping (p : UdpPacket)
  -- returning: before `close(packets)`
  | leaving
  -- before `wg.Done`
  | closed
  | returned
  deriving DecidableEq

/-- Where `parseLoop` is. -/
inductive Parser where
  -- at the receive
  | waiting
  -- before `packetBytes.Add(-n)`
  | took (p : UdpPacket)
  -- before `processPacket`
  | parsing (p : UdpPacket)
  -- the channel is closed and empty: before `wg.Done`
  | leaving
  | returned
  deriving DecidableEq

/-- What the reader, the workers and the channel between them are at. -/
structure PacketQueue (n : Nat) where
  reader : Reader
  workers : Fin n → Parser
  packets : List UdpPacket
  packetsClosed : Bool
  packetBytes : Int
  packetsReceived : Nat
  udpReadErrors : Nat
  dropped : List (PacketDrop × Nat)
  processed : List Nat
  /-- the datagrams that the reader gave up when it was stopped; the source counts them nowhere -/
  abandoned : List Nat

inductive ReadResult where
  | datagram (source payload : Bytes)
  | error

/-- The answers of `ReadFromUDP` and of the byte limiter, and the case of the `select` if both a
send and `stop` are ready. -/
structure ReaderChoice where
  read : ReadResult
  allowN : Bool
  preferStop : Bool

/-- A `netip.Prefix`, by the addresses that it contains. -/
abbrev NetipPrefix := IP → Bool

section

variable (cfg : Config) (allowedSources : List NetipPrefix)

def sourceAllowed (source : IP) : Bool := allowedSources.any (fun contains => contains source)

/-- The checks of `readLoop` before the datagram is queued. -/
def checkPacket (allowN : Bool) (p : UdpPacket) : Option PacketDrop :=
  if ¬ p.source.any (sourceAllowed allowedSources) then some .untrustedSource
  else if (p.payload.length : Int) > cfg.maxPacketBytes then some .packetTooLarge
  else if ¬ allowN then some .byteRateLimit
  else none

namespace PacketQueue

variable {n : Nat}

/-- `readLoop`. -/
def readerStep (stop connClosed : Bool) (c : ReaderChoice) (q : PacketQueue n) : PacketQueue n :=
  match q.reader with
  | .reading =>
    if connClosed then { q with reader := .leaving }
    else
      match c.read with
      | .error => { q with reader := .failed }
      -- the buffer has one byte more than a datagram may have
      | .datagram source payload =>
        { q with reader := .arrived source (payload.take (cfg.maxPacketBytes.toNat + 1)) }
  | .failed =>
    if stop then { q with reader := .leaving }
    else { q with udpReadErrors := q.udpReadErrors + 1, reader := .reading }
  | .arrived source payload =>
    { q with
      packetsReceived := q.packetsReceived + 1
      reader := .counted ⟨q.packetsReceived, (addrFromSlice source).map unmap, payload⟩ }
  | .counted p =>
    match checkPacket cfg allowedSources c.allowN p with
    | some reason => { q with reader := .refused reason p }
    | none => { q with reader := .accepted p }
  | .refused reason p => { q with dropped := q.dropped ++ [(reason, p.id)], reader := .reading }
  | .accepted p =>
    let queuedBytes := q.packetBytes + p.payload.length
    if queuedBytes > cfg.packetQueueMaxBytes then
      { q with packetBytes := queuedBytes, reader := .overBytes p }
    else { q with packetBytes := queuedBytes, reader := .offering p }
  | .overBytes p =>
    { q with
      packetBytes := q.packetBytes - p.payload.length
      reader := .refused .packetQueueBytes p }
  | .offering p =>
    if (q.packets.length : Int) < cfg.packetQueueSize ∧ ¬ (stop ∧ c.preferStop) then
      { q with packets := q.packets ++ [p], reader := .reading }
    else if stop then { q with reader := .stopping p }
    else { q with reader := .full p }
  | .full p =>
    { q with
      packetBytes := q.packetBytes - p.payload.length
      reader := .refused .packetQueueFull p }
  | .stopping p =>
    { q with
      packetBytes := q.packetBytes - p.payload.length
      abandoned := q.abandoned ++ [p.id]
      reader := .leaving }
  | .leaving => { q with packetsClosed := true, reader := .closed }
  | .closed => { q with reader := .returned }
  | .returned => q

def setWorker (q : PacketQueue n) (i : Fin n) (w : Parser) : PacketQueue n :=
  { q with workers := Function.update q.workers i w }

/-- `parseLoop`. -/
def workerStep (i : Fin n) (q : PacketQueue n) : PacketQueue n :=
  match q.workers i with
  | .waiting =>
    match q.packets with
    | p :: packets => { q with packets }.setWorker i (.took p)
    | [] => if q.packetsClosed then q.setWorker i .leaving else q
  | .took p => { q with packetBytes := q.packetBytes - p.payload.length }.setWorker i (.parsing p)
  | .parsing p => { q with processed := q.processed ++ [p.id] }.setWorker i .waiting
  | .leaving => q.setWorker i .returned
  | .returned => q

def start (n : Nat) : PacketQueue n := ⟨.reading, fun _ => .waiting, [], false, 0, 0, 0, [], [], []⟩

/-- `wg.Wait` returns. -/
def finished (q : PacketQueue n) : Bool :=
  q.reader = .returned ∧ ∀ i, q.workers i = .returned

end PacketQueue

end

/-! ## Closing -/

/-- A `sync.Once` whose function takes several steps. -/
inductive Once where
  | fresh
  | running
  | finished
  deriving DecidableEq

/-- Where a call of `CloseContext` is. -/
inductive Caller where
  | absent
  -- at `closeOnce.Do`
  | entering
  -- in `closeOnce`: before `ready.Store(false)`, `close(stop)`, `conn.Close` and the start of the
  -- goroutine that waits
  | storing
  | stopping
  | disconnecting
  | spawning
  -- at the `select`
  | selecting
  -- the deadline is over: before `len(packets)`
  | expired
  -- the datagrams that were in the channel: before `shutdownDropOnce.Do`
  | remaining (ids : List Nat)
  -- `some k` with the error of the deadline, for `k` datagrams
  | returned (timedOut : Option Nat)
  deriving DecidableEq

inductive Waiter where
  | absent
  -- at `wg.Wait`
  | waiting
  -- before `close(closeDone)`
  | closing
  | returned
  deriving DecidableEq

structure Shutdown where
  ready : Bool
  stop : Bool
  connClosed : Bool
  closeDone : Bool
  closeOnce : Once
  shutdownDropOnce : Bool
  shutdownDropped : List Nat
  waiter : Waiter
  callers : Nat → Caller

namespace Shutdown

def setCaller (s : Shutdown) (i : Nat) (c : Caller) : Shutdown :=
  { s with callers := Function.update s.callers i c }

/-- `CloseContext`. If `deadline` the context is done, and the `select` takes that case. -/
def callerStep (packets : List UdpPacket) (i : Nat) (deadline : Bool) (s : Shutdown) : Shutdown :=
  match s.callers i with
  | .absent => s.setCaller i .entering
  | .entering =>
    match s.closeOnce with
    | .fresh => { s with closeOnce := .running }.setCaller i .storing
    | .running => s
    | .finished => s.setCaller i .selecting
  | .storing => { s with ready := false }.setCaller i .stopping
  | .stopping => { s with stop := true }.setCaller i .disconnecting
  | .disconnecting => { s with connClosed := true }.setCaller i .spawning
  | .spawning => { s with waiter := .waiting, closeOnce := .finished }.setCaller i .selecting
  | .selecting =>
    if deadline then s.setCaller i .expired
    else if s.closeDone then s.setCaller i (.returned none)
    else s
  | .expired => s.setCaller i (.remaining (packets.map UdpPacket.id))
  | .remaining ids =>
    if s.shutdownDropOnce then s.setCaller i (.returned (some ids.length))
    else
      { s with
        shutdownDropOnce := true
        shutdownDropped := s.shutdownDropped ++ ids }.setCaller i (.returned (some ids.length))
  | .returned _ => s

def waiterStep (finished : Bool) (s : Shutdown) : Shutdown :=
  match s.waiter with
  | .absent => s
  | .waiting => if finished then { s with waiter := .closing } else s
  | .closing => { s with closeDone := true, waiter := .returned }
  | .returned => s

def start : Shutdown :=
  ⟨true, false, false, false, .fresh, false, [], .absent, fun _ => .absent⟩

end Shutdown

/-! ## All goroutines -/

/-- The receiver with `n` parse workers. -/
structure Receiving (n : Nat) where
  queue : PacketQueue n
  shutdown : Shutdown

inductive ReceivingStep (n : Nat) where
  | reader (c : ReaderChoice)
  | worker (i : Fin n)
  | caller (i : Nat) (deadline : Bool)
  | waiter

namespace Receiving

variable (cfg : Config) (allowedSources : List NetipPrefix) {n : Nat}

def next (s : Receiving n) : ReceivingStep n → Receiving n
  | .reader c =>
    { s with
      queue := s.queue.readerStep cfg allowedSources s.shutdown.stop s.shutdown.connClosed c }
  | .worker i => { s with queue := s.queue.workerStep i }
  | .caller i deadline =>
    { s with shutdown := s.shutdown.callerStep s.queue.packets i deadline }
  | .waiter => { s with shutdown := s.shutdown.waiterStep s.queue.finished }

def start (n : Nat) : Receiving n := ⟨.start n, .start⟩

def after (steps : List (ReceivingStep n)) : Receiving n :=
  steps.foldl (next cfg allowedSources) (start n)

end Receiving

/-! ## What `packetBytes` counts -/

def queuedBytes (packets : List UdpPacket) : Nat := (packets.map fun p => p.payload.length).sum

/-- The bytes of a datagram that was taken out of the channel and is not yet subtracted. -/
def Parser.takenBytes : Parser → Nat
  | .took p => p.payload.length
  | _ => 0

/-- The bytes of the datagram that the reader is trying to enqueue. -/
def Reader.offeredBytes : Reader → Nat
  | .overBytes p | .offering p | .full p | .stopping p => p.payload.length
  | _ => 0

/-- The bytes that are subtracted again at once, as they were too many. -/
def Reader.excessBytes : Reader → Nat
  | .overBytes p => p.payload.length
  | _ => 0

/-- What holds of the queue in every state. -/
structure QueueInvariant (cfg : Config) {n : Nat} (q : PacketQueue n) : Prop where
  bytes : q.packetBytes =
    queuedBytes q.packets + ∑ i, (q.workers i).takenBytes + q.reader.offeredBytes
  limit : q.packetBytes - q.reader.excessBytes ≤ cfg.packetQueueMaxBytes
  ended : q.packetsClosed = true → q.reader = .closed ∨ q.reader = .returned
  drained : ∀ i, q.workers i = .leaving ∨ q.workers i = .returned →
    q.packetsClosed = true ∧ q.packets = []

section

variable {cfg : Config} {allowedSources : List NetipPrefix} {n : Nat} {q q' : PacketQueue n}

theorem sum_workers_update (f : Parser → Nat) (workers : Fin n → Parser) (i : Fin n) (w : Parser) :
    ∑ j, f (Function.update workers i w j) + f (workers i) = ∑ j, f (workers j) + f w := by
  have hrest : ∑ j ∈ Finset.univ.erase i, f (Function.update workers i w j) =
      ∑ j ∈ Finset.univ.erase i, f (workers j) := by
    refine Finset.sum_congr rfl fun j hj => ?_
    rw [Function.update_of_ne (Finset.ne_of_mem_erase hj)]
  rw [← Finset.add_sum_erase _ _ (Finset.mem_univ i), hrest,
    ← Finset.add_sum_erase _ (fun j => f (workers j)) (Finset.mem_univ i), Function.update_self]
  omega

theorem QueueInvariant.reader_moves (h : QueueInvariant cfg q) (hp : q'.packets = q.packets)
    (hw : q'.workers = q.workers) (hc : q'.packetsClosed = q.packetsClosed)
    (hopen : q.packetsClosed = false)
    (hb : q'.packetBytes = q.packetBytes - q.reader.offeredBytes + q'.reader.offeredBytes)
    (hlimit : q'.packetBytes - q'.reader.excessBytes ≤ cfg.packetQueueMaxBytes) :
    QueueInvariant cfg q' := by
  refine ⟨?_, hlimit, ?_, fun i hi => ?_⟩
  · have := h.bytes
    rw [hb, hp, hw]
    omega
  · rw [hc, hopen]
    exact fun hfalse => absurd hfalse (by decide)
  · rw [hw] at hi
    rw [hc, hp]
    exact h.drained i hi

theorem QueueInvariant.is_open (h : QueueInvariant cfg q) (h1 : q.reader ≠ .closed)
    (h2 : q.reader ≠ .returned) : q.packetsClosed = false := by
  by_contra hne
  rcases h.ended (by simpa using hne) with h | h
  · exact h1 h
  · exact h2 h

theorem QueueInvariant.send (h : QueueInvariant cfg q) {p : UdpPacket}
    (hr : q.reader = .offering p) :
    QueueInvariant cfg { q with packets := q.packets ++ [p], reader := .reading } := by
  have hbytes := h.bytes
  have hlimit := h.limit
  have hopen := h.is_open (by simp [hr]) (by simp [hr])
  have hsum : queuedBytes (q.packets ++ [p]) = queuedBytes q.packets + p.payload.length := by
    simp [queuedBytes]
  rw [hr] at hbytes hlimit
  simp only [Reader.offeredBytes] at hbytes
  refine ⟨?_, hlimit, by simp [hopen], fun i hi => ?_⟩
  · rw [hsum]
    simp only [Reader.offeredBytes]
    omega
  · exact absurd (h.drained i hi).1 (by simp [hopen])

theorem QueueInvariant.readerStep (h : QueueInvariant cfg q) (stop connClosed : Bool)
    (c : ReaderChoice) :
    QueueInvariant cfg (q.readerStep cfg allowedSources stop connClosed c) := by
  have hopen := h.is_open
  have hlimit := h.limit
  -- most steps leave the channel, `packetBytes` and what it counts
  have hquiet : ∀ {q' : PacketQueue n}, q.packetsClosed = false → q'.packets = q.packets →
      q'.workers = q.workers → q'.packetsClosed = q.packetsClosed →
      q'.packetBytes = q.packetBytes → q'.reader.offeredBytes = q.reader.offeredBytes →
      q.reader.excessBytes = 0 → q'.reader.excessBytes = 0 → QueueInvariant cfg q' := by
    intro q' hopen hp hw hc hb hoff hex hex'
    refine h.reader_moves hp hw hc hopen (by rw [hb, hoff]; omega) ?_
    rw [hb, hex']
    rw [hex] at hlimit
    exact hlimit
  unfold PacketQueue.readerStep
  cases hr : q.reader with
  | reading =>
    have hopen := hopen (by simp [hr]) (by simp [hr])
    simp only
    split
    · exact hquiet hopen rfl rfl rfl rfl (by rw [hr]; rfl) (by rw [hr]; rfl) rfl
    cases c.read with
    | error => exact hquiet hopen rfl rfl rfl rfl (by rw [hr]; rfl) (by rw [hr]; rfl) rfl
    | datagram source payload =>
      exact hquiet hopen rfl rfl rfl rfl (by rw [hr]; rfl) (by rw [hr]; rfl) rfl
  | failed | counted p =>
    have hopen := hopen (by simp [hr]) (by simp [hr])
    simp only
    split <;> exact hquiet hopen rfl rfl rfl rfl (by rw [hr]; rfl) (by rw [hr]; rfl) rfl
  | arrived source payload | refused reason p =>
    have hopen := hopen (by simp [hr]) (by simp [hr])
    exact hquiet hopen rfl rfl rfl rfl (by rw [hr]; rfl) (by rw [hr]; rfl) rfl
  | accepted p =>
    have hopen := hopen (by simp [hr]) (by simp [hr])
    have hmax : q.packetBytes ≤ cfg.packetQueueMaxBytes := by
      simpa [hr, Reader.excessBytes] using hlimit
    simp only
    split
    · refine h.reader_moves rfl rfl rfl hopen (by simp [hr, Reader.offeredBytes]) ?_
      simpa [Reader.excessBytes] using hmax
    · next hle =>
      refine h.reader_moves rfl rfl rfl hopen (by simp [hr, Reader.offeredBytes]) ?_
      simpa [Reader.excessBytes] using hle
  | overBytes p | full p | stopping p =>
    have hopen := hopen (by simp [hr]) (by simp [hr])
    refine h.reader_moves rfl rfl rfl hopen (by simp [hr, Reader.offeredBytes]) ?_
    simp only [hr, Reader.excessBytes] at hlimit ⊢
    omega
  | offering p =>
    have hopen := hopen (by simp [hr]) (by simp [hr])
    simp only
    split
    · exact h.send hr
    split <;> exact hquiet hopen rfl rfl rfl rfl (by rw [hr]; rfl) (by rw [hr]; rfl) rfl
  | leaving =>
    refine ⟨?_, by simpa [hr, Reader.excessBytes] using hlimit, by simp,
      fun i hi => ⟨rfl, (h.drained i hi).2⟩⟩
    simpa [hr, Reader.offeredBytes] using h.bytes
  | closed =>
    refine ⟨?_, by simpa [hr, Reader.excessBytes] using hlimit, by simp, h.drained⟩
    simpa [hr, Reader.offeredBytes] using h.bytes
  | returned => exact h

theorem QueueInvariant.worker_moves (h : QueueInvariant cfg q) {i : Fin n} {w : Parser}
    {bytes : Int} {packets : List UdpPacket} {processed : List Nat}
    (hb : bytes = q.packetBytes - queuedBytes q.packets + queuedBytes packets
      - (q.workers i).takenBytes + w.takenBytes)
    (hle : bytes ≤ q.packetBytes) (hp : packets <:+ q.packets)
    (hw : w = .leaving ∨ w = .returned → q.packetsClosed = true ∧ q.packets = []) :
    QueueInvariant cfg
      ({ q with packetBytes := bytes, packets, processed }.setWorker i w) := by
  have hsum := sum_workers_update Parser.takenBytes q.workers i w
  have hbytes := h.bytes
  have hlimit := h.limit
  refine ⟨?_, ?_, h.ended, fun j hj => ?_⟩
  · show bytes = queuedBytes packets
      + ((∑ j, (Function.update q.workers i w j).takenBytes : Nat) : Int) + q.reader.offeredBytes
    omega
  · show bytes - q.reader.excessBytes ≤ cfg.packetQueueMaxBytes
    omega
  · have hnil : q.packetsClosed = true ∧ q.packets = [] := by
      by_cases hji : j = i
      · subst hji
        simp only [PacketQueue.setWorker, Function.update_self] at hj
        exact hw hj
      · simp only [PacketQueue.setWorker, Function.update_of_ne hji] at hj
        exact h.drained j hj
    refine ⟨hnil.1, ?_⟩
    rw [hnil.2] at hp
    exact List.suffix_nil.mp hp

theorem QueueInvariant.workerStep (h : QueueInvariant cfg q) (i : Fin n) :
    QueueInvariant cfg (q.workerStep i) := by
  unfold PacketQueue.workerStep
  cases hw : q.workers i with
  | waiting =>
    simp only
    cases hp : q.packets with
    | nil =>
      simp only
      split
      · next hclosed =>
        refine h.worker_moves ?_ (le_refl _) (List.suffix_refl _) fun _ => ⟨hclosed, hp⟩
        simp [hw, Parser.takenBytes]
      · exact h
    | cons p packets =>
      refine h.worker_moves ?_ (le_refl _) ?_ (by simp)
      · simp only [hw, hp, Parser.takenBytes, queuedBytes, List.map_cons, List.sum_cons]
        omega
      · exact hp ▸ List.suffix_cons p packets
  | took p =>
    refine h.worker_moves ?_ ?_ (List.suffix_refl _) (by simp)
    · simp [hw, Parser.takenBytes]
    · omega
  | parsing p =>
    refine h.worker_moves ?_ (le_refl _) (List.suffix_refl _) (by simp)
    simp [hw, Parser.takenBytes]
  | leaving =>
    refine h.worker_moves ?_ (le_refl _) (List.suffix_refl _) fun _ => h.drained i (Or.inl hw)
    simp [hw, Parser.takenBytes]
  | returned => exact h

theorem queueInvariant_start (hmax : 0 ≤ cfg.packetQueueMaxBytes) :
    QueueInvariant cfg (PacketQueue.start n) := by
  constructor <;>
    simp [PacketQueue.start, queuedBytes, Parser.takenBytes, Reader.offeredBytes,
      Reader.excessBytes, hmax]

theorem QueueInvariant.next {s : Receiving n} (h : QueueInvariant cfg s.queue)
    (step : ReceivingStep n) : QueueInvariant cfg (s.next cfg allowedSources step).queue := by
  cases step with
  | reader c => exact h.readerStep _ _ c
  | worker i => exact h.workerStep i
  | caller i deadline => exact h
  | waiter => exact h

theorem queueInvariant_after (r : Receiver) (steps : List (ReceivingStep n)) :
    QueueInvariant r.cfg (Receiving.after r.cfg allowedSources steps).queue := by
  refine List.foldlRecOn (motive := fun s : Receiving n => QueueInvariant r.cfg s.queue)
    steps _ ?_ ?_
  · exact queueInvariant_start (Config.positive_of_valid r.valid).1.le
  · exact fun s h step _ => h.next step

/-- **The packet queue is bounded.** -/
theorem packetBytes_accounted (r : Receiver) (allowedSources : List NetipPrefix)
    (steps : List (ReceivingStep r.cfg.parseWorkers.toNat)) :
    let q := (Receiving.after r.cfg allowedSources steps).queue
    (queuedBytes q.packets : Int) ≤ r.cfg.packetQueueMaxBytes ∧
      q.packetBytes =
        queuedBytes q.packets + ∑ i, (q.workers i).takenBytes + q.reader.offeredBytes ∧
      0 ≤ q.packetBytes ∧
      (q.reader = .returned → (∀ i, q.workers i = .returned) → q.packetBytes = 0) := by
  intro q
  have h : QueueInvariant r.cfg q := queueInvariant_after r steps
  have hbytes := h.bytes
  have hlimit := h.limit
  have hexcess : q.reader.excessBytes ≤ q.reader.offeredBytes := by
    cases q.reader <;> simp [Reader.excessBytes, Reader.offeredBytes]
  refine ⟨by omega, hbytes, by omega, fun hreader hworkers => ?_⟩
  -- there is a worker, and it has left an empty channel
  have hpos : 0 < r.cfg.parseWorkers.toNat := by
    have := (Config.positive_of_valid r.valid).2 ("parse-workers", r.cfg.parseWorkers)
      (by simp [Config.checks])
    omega
  have hempty := (h.drained ⟨0, hpos⟩ (Or.inr (hworkers _))).2
  rw [hbytes, hempty, hreader]
  simp [hworkers, queuedBytes, Parser.takenBytes, Reader.offeredBytes]

end

/-! ## A small schedule -/

/-- The networks of the small receiver: 127.0.0.0/8. -/
def loopbackSources : List NetipPrefix :=
  [fun | .v4 a _ _ _ => a = 127 | _ => false]

/-- The reader goes on. If it is at a read, it gets a datagram from 127.0.0.1. -/
def readerGoes (preferStop : Bool) : ReceivingStep smallReceiver.cfg.parseWorkers.toNat :=
  .reader ⟨.datagram [127, 0, 0, 1] (ascii "a:1|c"), true, preferStop⟩

def workerGoes (second : Bool) : ReceivingStep smallReceiver.cfg.parseWorkers.toNat :=
  .worker (if second then ⟨1, by decide⟩ else ⟨0, by decide⟩)

/-- A datagram is queued and processed, then the receiver is closed, and all goroutines end. -/
def drainedSchedule : List (ReceivingStep smallReceiver.cfg.parseWorkers.toNat) :=
  List.flatten [List.replicate 5 (readerGoes false), List.replicate 3 (workerGoes false),
    List.replicate 6 (.caller 0 false), List.replicate 3 (readerGoes false),
    List.replicate 2 (workerGoes false), List.replicate 2 (workerGoes true),
    [.waiter, .waiter, .caller 0 false]]

theorem packetBytes_drained :
    (Receiving.after smallReceiver.cfg loopbackSources drainedSchedule).queue.packetBytes = 0 :=
  (packetBytes_accounted smallReceiver loopbackSources drainedSchedule).2.2.2
    (by decide +kernel) (by decide +kernel)

end Dogstatsd
