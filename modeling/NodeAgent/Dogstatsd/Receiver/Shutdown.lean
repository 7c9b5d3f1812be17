import NodeAgent.Dogstatsd.Receiver.Queue

/-!
# Every datagram is accounted for (`dogstatsd/receiver.go`)

When all goroutines have stopped, every datagram that was received should be counted exactly once as
processed, dropped or left at shutdown. But the reader gives up a datagram if its `select` takes
`stop`, and a call that runs into its deadline counts what the workers go on to process.

* `accounted_iff` — when the accounts are right
-/

namespace Dogstatsd

open Infra Containers

/-! ## Places -/

def Reader.heldIds : Reader → List Nat
  | .counted p | .refused _ p | .accepted p | .overBytes p | .offering p | .full p
  | .stopping p => [p.id]
  | _ => []

def Parser.heldIds : Parser → List Nat
  | .took p | .parsing p => [p.id]
  | _ => []

namespace PacketQueue

variable {n : Nat} (q : PacketQueue n)

/-- How often a datagram is with the reader, dropped or given up. -/
def aside (a : Nat) : Nat :=
  q.reader.heldIds.count a + (q.dropped.map Prod.snd).count a + q.abandoned.count a

/-- How often a datagram is in the channel, with a worker or processed. -/
def passed (a : Nat) : Nat :=
  (q.packets.map UdpPacket.id).count a + ∑ i, (q.workers i).heldIds.count a + q.processed.count a

def givenUp : List Nat :=
  q.abandoned ++ match q.reader with
    | .stopping p => [p.id]
    | _ => []

end PacketQueue

/-- Every datagram that was counted in `packetsReceived` is in one place. -/
def Conserved {n : Nat} (q : PacketQueue n) : Prop :=
  ∀ a, q.aside a + q.passed a = if a < q.packetsReceived then 1 else 0

section

variable {cfg : Config} {allowedSources : List NetipPrefix} {n : Nat} {q : PacketQueue n}

/-- Datagrams change their places, and none turns back from the channel. -/
structure Moves (q q' : PacketQueue n) : Prop where
  received : q'.packetsReceived = q.packetsReceived
  places : ∀ a, q'.aside a + q'.passed a = q.aside a + q.passed a
  passed : ∀ a, q.passed a ≤ q'.passed a

theorem Moves.refl (q : PacketQueue n) : Moves q q := ⟨rfl, fun _ => rfl, fun _ => le_refl _⟩

theorem Moves.conserved {q' : PacketQueue n} (h : Moves q q') (hq : Conserved q) :
    Conserved q' := by
  intro a
  rw [h.places, h.received]
  exact hq a

theorem moves_reader {r : Reader} (hids : r.heldIds = q.reader.heldIds) {bytes : Int}
    {errors : Nat} {closed : Bool} :
    Moves q { q with
      reader := r, packetBytes := bytes, udpReadErrors := errors, packetsClosed := closed } := by
  refine ⟨rfl, fun a => ?_, fun a => le_refl _⟩
  simp only [PacketQueue.aside, PacketQueue.passed, hids]

theorem moves_drop {reason : PacketDrop} {p : UdpPacket} (hr : q.reader = .refused reason p) :
    Moves q { q with dropped := q.dropped ++ [(reason, p.id)], reader := .reading } := by
  refine ⟨rfl, fun a => ?_, fun a => le_refl _⟩
  simp only [PacketQueue.aside, PacketQueue.passed, hr, Reader.heldIds, List.map_append,
    List.count_append, List.map_cons, List.map_nil, List.count_nil]
  omega

theorem moves_send {p : UdpPacket} (hr : q.reader = .offering p) :
    Moves q { q with packets := q.packets ++ [p], reader := .reading } := by
  constructor
  · rfl
  · intro a
    simp only [PacketQueue.aside, PacketQueue.passed, hr, Reader.heldIds, List.map_append,
      List.count_append, List.map_cons, List.map_nil, List.count_nil]
    omega
  · intro a
    simp only [PacketQueue.passed, List.map_append, List.count_append]
    omega

theorem moves_abandon {p : UdpPacket} (hr : q.reader = .stopping p) {bytes : Int} :
    Moves q { q with
      packetBytes := bytes, abandoned := q.abandoned ++ [p.id], reader := .leaving } := by
  refine ⟨rfl, fun a => ?_, fun a => le_refl _⟩
  simp only [PacketQueue.aside, PacketQueue.passed, hr, Reader.heldIds, List.count_append,
    List.count_nil]
  omega

theorem readerStep_moves (hr : ∀ source payload, q.reader ≠ .arrived source payload)
    (stop connClosed : Bool) (c : ReaderChoice) :
    Moves q (q.readerStep cfg allowedSources stop connClosed c) := by
  unfold PacketQueue.readerStep
  cases h : q.reader with
  | reading =>
    simp only
    split
    · exact moves_reader (by rw [h]; rfl)
    cases c.read <;> exact moves_reader (by rw [h]; rfl)
  | failed | counted p | accepted p =>
    simp only
    split <;> exact moves_reader (by rw [h]; rfl)
  | arrived source payload => exact absurd h (hr source payload)
  | refused reason p => exact moves_drop h
  | overBytes p | full p | leaving | closed => exact moves_reader (by rw [h]; rfl)
  | offering p =>
    simp only
    split
    · exact moves_send h
    split <;> exact moves_reader (by rw [h]; rfl)
  | stopping p => exact moves_abandon h
  | returned => exact Moves.refl q

theorem conserved_arrived (hq : Conserved q) {source payload : Bytes} {p : UdpPacket}
    (hr : q.reader = .arrived source payload) (hp : p.id = q.packetsReceived) :
    Conserved { q with packetsReceived := q.packetsReceived + 1, reader := .counted p } := by
  intro a
  have ha := hq a
  simp only [PacketQueue.aside, PacketQueue.passed, hr, Reader.heldIds, List.count_singleton,
    List.count_nil, hp, beq_iff_eq] at ha ⊢
  by_cases hlt : a < q.packetsReceived
  · rw [if_pos hlt] at ha
    rw [if_neg (by omega), if_pos (by omega)]
    exact ha
  · rw [if_neg hlt] at ha
    by_cases heq : q.packetsReceived = a
    · rw [if_pos heq, if_pos (by omega)]
      omega
    · rw [if_neg heq, if_neg (by omega)]
      exact ha

theorem Conserved.readerStep (hq : Conserved q) (stop connClosed : Bool) (c : ReaderChoice) :
    Conserved (q.readerStep cfg allowedSources stop connClosed c) ∧
      ∀ a, q.passed a ≤ (q.readerStep cfg allowedSources stop connClosed c).passed a := by
  by_cases hr : ∃ source payload, q.reader = .arrived source payload
  · obtain ⟨source, payload, hr⟩ := hr
    simp only [PacketQueue.readerStep, hr]
    exact ⟨conserved_arrived hq hr rfl, fun a => le_refl _⟩
  · have h : Moves q (q.readerStep cfg allowedSources stop connClosed c) :=
      readerStep_moves (fun s p h => hr ⟨s, p, h⟩) stop connClosed c
    exact ⟨h.conserved hq, h.passed⟩

theorem moves_worker {i : Fin n} {w : Parser} {packets : List UdpPacket} {processed : List Nat}
    {bytes : Int}
    (h : ∀ a, (packets.map UdpPacket.id).count a + w.heldIds.count a + processed.count a =
      (q.packets.map UdpPacket.id).count a + (q.workers i).heldIds.count a + q.processed.count a) :
    Moves q ({ q with packetBytes := bytes, packets, processed }.setWorker i w) := by
  have hpassed : ∀ a, ({ q with packetBytes := bytes, packets, processed }.setWorker i w).passed a
      = q.passed a := by
    intro a
    have hsum := sum_workers_update (fun w => w.heldIds.count a) q.workers i w
    have ha := h a
    simp only [PacketQueue.passed, PacketQueue.setWorker]
    omega
  exact ⟨rfl, fun a => by rw [hpassed]; rfl, fun a => (hpassed a).ge⟩

theorem workerStep_moves (i : Fin n) : Moves q (q.workerStep i) := by
  unfold PacketQueue.workerStep
  cases hw : q.workers i with
  | waiting =>
    simp only
    cases hp : q.packets with
    | nil =>
      simp only
      split
      · exact moves_worker fun a => by rw [hw]; rfl
      · exact Moves.refl q
    | cons p packets =>
      refine moves_worker fun a => ?_
      rw [hw, hp]
      simp only [Parser.heldIds, List.map_cons, List.count_cons, List.count_nil]
      omega
  | took p => exact moves_worker fun a => by rw [hw]; rfl
  | parsing p =>
    refine moves_worker fun a => ?_
    rw [hw]
    simp only [Parser.heldIds, List.count_append, List.count_nil]
    omega
  | leaving => exact moves_worker fun a => by rw [hw]; rfl
  | returned => exact Moves.refl q

/-! ## What a call counts -/

/-- What a call has found in the channel has passed to the workers. -/
structure Seen (s : Receiving n) : Prop where
  remaining : ∀ i ids, s.shutdown.callers i = .remaining ids → ∀ a ∈ ids, 0 < s.queue.passed a
  dropped : ∀ a ∈ s.shutdown.shutdownDropped, 0 < s.queue.passed a

theorem Seen.queue {s s' : Receiving n} (h : Seen s) (hs : s'.shutdown = s.shutdown)
    (hpassed : ∀ a, s.queue.passed a ≤ s'.queue.passed a) : Seen s' :=
  ⟨fun i ids hi a ha => (h.remaining i ids (hs ▸ hi) a ha).trans_le (hpassed a),
    fun a ha => (h.dropped a (hs ▸ ha)).trans_le (hpassed a)⟩

theorem Seen.caller {s s' : Receiving n} (h : Seen s) (hq : s'.queue = s.queue) {i : Nat}
    {c : Caller} (hc : s'.shutdown.callers = Function.update s.shutdown.callers i c)
    (hids : ∀ ids, c = .remaining ids → ∀ a ∈ ids, 0 < s.queue.passed a)
    (hdropped : ∀ a ∈ s'.shutdown.shutdownDropped, 0 < s.queue.passed a) : Seen s' := by
  refine ⟨fun j ids hj => ?_, fun a ha => hq ▸ hdropped a ha⟩
  rw [hq]
  by_cases hji : j = i
  · subst hji
    rw [hc, Function.update_self] at hj
    exact hids ids hj
  · rw [hc, Function.update_of_ne hji] at hj
    exact h.remaining j ids hj

theorem Seen.callerStep {s : Receiving n} (h : Seen s) (i : Nat) (deadline : Bool) :
    Seen { s with shutdown := s.shutdown.callerStep s.queue.packets i deadline } := by
  unfold Shutdown.callerStep
  cases hc : s.shutdown.callers i with
  | absent | storing | stopping | disconnecting | spawning =>
    exact h.caller rfl rfl (by simp) h.dropped
  | entering =>
    simp only
    split
    · exact h.caller rfl rfl (by simp) h.dropped
    · exact h
    · exact h.caller rfl rfl (by simp) h.dropped
  | selecting =>
    simp only
    split
    · exact h.caller rfl rfl (by simp) h.dropped
    split
    · exact h.caller rfl rfl (by simp) h.dropped
    · exact h
  | expired =>
    refine h.caller rfl rfl (fun ids hids a ha => ?_) h.dropped
    simp only [Caller.remaining.injEq] at hids
    rw [← hids] at ha
    have := List.count_pos_iff.mpr ha
    unfold PacketQueue.passed
    omega
  | remaining ids =>
    simp only
    split
    · exact h.caller rfl rfl (by simp) h.dropped
    · refine h.caller rfl rfl (by simp) fun a ha => ?_
      rcases List.mem_append.mp ha with ha | ha
      · exact h.dropped a ha
      · exact h.remaining i ids hc a ha
  | returned k => exact h

theorem Seen.waiterStep {s : Receiving n} (h : Seen s) (finished : Bool) :
    Seen { s with shutdown := s.shutdown.waiterStep finished } := by
  unfold Shutdown.waiterStep
  cases s.shutdown.waiter with
  | absent | returned => exact h
  | closing => exact ⟨h.remaining, h.dropped⟩
  | waiting =>
    simp only
    split
    · exact ⟨h.remaining, h.dropped⟩
    · exact h

/-- What holds in every state. -/
structure ReceivingInvariant (cfg : Config) (s : Receiving n) : Prop where
  queue : QueueInvariant cfg s.queue
  conserved : Conserved s.queue
  seen : Seen s

theorem receivingInvariant_start (hmax : 0 ≤ cfg.packetQueueMaxBytes) :
    ReceivingInvariant cfg (Receiving.start n) := by
  refine ⟨queueInvariant_start hmax, fun a => ?_, ⟨?_, ?_⟩⟩
  · simp [Receiving.start, PacketQueue.start, PacketQueue.aside, PacketQueue.passed,
      Reader.heldIds, Parser.heldIds]
  · simp [Receiving.start, Shutdown.start]
  · simp [Receiving.start, Shutdown.start]

theorem ReceivingInvariant.next {s : Receiving n} (h : ReceivingInvariant cfg s)
    (step : ReceivingStep n) : ReceivingInvariant cfg (s.next cfg allowedSources step) := by
  refine ⟨h.queue.next step, ?_, ?_⟩
  · cases step with
    | reader c => exact (h.conserved.readerStep _ _ c).1
    | worker i => exact (workerStep_moves i).conserved h.conserved
    | caller i deadline => exact h.conserved
    | waiter => exact h.conserved
  · cases step with
    | reader c => exact h.seen.queue rfl (h.conserved.readerStep _ _ c).2
    | worker i => exact h.seen.queue rfl (workerStep_moves i).passed
    | caller i deadline => exact h.seen.callerStep i deadline
    | waiter => exact h.seen.waiterStep _

theorem receivingInvariant_after (r : Receiver) (steps : List (ReceivingStep n)) :
    ReceivingInvariant r.cfg (Receiving.after r.cfg allowedSources steps) := by
  refine List.foldlRecOn steps _ ?_ fun s h step _ => h.next step
  exact receivingInvariant_start (Config.positive_of_valid r.valid).1.le

/-! ## When the accounts are right -/

/-- No datagram is given up by the reader, and none is counted at shutdown. -/
def Unspoilt (s : Receiving n) : Prop :=
  s.queue.givenUp = [] ∧ s.shutdown.shutdownDropped = []

/-- When `stop` is closed, the reader's `select` still sends; and the call that is first to enter
`shutdownDropOnce` has found the channel empty. -/
def Counts (cfg : Config) (s : Receiving n) : ReceivingStep n → Prop
  | .reader c => ∀ p, s.queue.reader = .offering p → s.shutdown.stop = true →
      (s.queue.packets.length : Int) < cfg.packetQueueSize ∧ c.preferStop = false
  | .caller i _ => ∀ ids, s.shutdown.callers i = .remaining ids →
      s.shutdown.shutdownDropOnce = false → ids = []
  | _ => True

theorem readerStep_givenUp (cfg : Config) (allowedSources : List NetipPrefix) (q : PacketQueue n)
    (stop connClosed : Bool) (c : ReaderChoice) :
    let q' := q.readerStep cfg allowedSources stop connClosed c
    let sends : Prop := (q.packets.length : Int) < cfg.packetQueueSize ∧ c.preferStop = false
    (∃ p, q.reader = .offering p ∧ stop = true ∧ ¬ sends ∧ q'.givenUp = q.givenUp ++ [p.id]) ∨
      ((∀ p, q.reader = .offering p → stop = true → sends) ∧ q'.givenUp = q.givenUp) := by
  unfold PacketQueue.readerStep PacketQueue.givenUp
  cases h : q.reader with
  | reading =>
    refine Or.inr ⟨by simp, ?_⟩
    simp only
    split
    · rfl
    cases c.read <;> rfl
  | failed | counted p | accepted p =>
    refine Or.inr ⟨by simp, ?_⟩
    simp only
    split <;> rfl
  | offering p =>
    simp only
    by_cases hsend : (q.packets.length : Int) < cfg.packetQueueSize ∧ ¬ (stop ∧ c.preferStop)
    · rw [if_pos hsend]
      refine Or.inr ⟨fun p _ hstop => ⟨hsend.1, ?_⟩, rfl⟩
      have := hsend.2
      rw [hstop] at this
      simpa using this
    · rw [if_neg hsend]
      cases stop with
      | false => exact Or.inr ⟨by simp, rfl⟩
      | true =>
        refine Or.inl ⟨p, rfl, rfl, fun hs => hsend ⟨hs.1, by simp [hs.2]⟩, ?_⟩
        simp
  | arrived source payload | refused reason p | overBytes p | full p | leaving | closed =>
    exact Or.inr ⟨by simp, rfl⟩
  | stopping p => exact Or.inr ⟨by simp, by simp⟩
  | returned => exact Or.inr ⟨by simp, by simp [h]⟩

theorem callerStep_dropped (s : Shutdown) (packets : List UdpPacket) (i : Nat) (deadline : Bool) :
    let s' := s.callerStep packets i deadline
    (∃ ids, s.callers i = .remaining ids ∧ s.shutdownDropOnce = false ∧
        s'.shutdownDropped = s.shutdownDropped ++ ids) ∨
      ((∀ ids, s.callers i = .remaining ids → s.shutdownDropOnce = true) ∧
        s'.shutdownDropped = s.shutdownDropped) := by
  unfold Shutdown.callerStep
  cases h : s.callers i with
  | absent | storing | stopping | disconnecting | spawning | expired | returned k =>
    exact Or.inr ⟨by simp, rfl⟩
  | entering =>
    refine Or.inr ⟨by simp, ?_⟩
    simp only
    split <;> rfl
  | selecting =>
    refine Or.inr ⟨by simp, ?_⟩
    simp only
    split
    · rfl
    split <;> rfl
  | remaining ids =>
    simp only
    cases honce : s.shutdownDropOnce with
    | true => exact Or.inr ⟨fun _ _ => rfl, rfl⟩
    | false => exact Or.inl ⟨ids, rfl, rfl, rfl⟩

theorem waiterStep_dropped {s : Shutdown} (finished : Bool) :
    (s.waiterStep finished).shutdownDropped = s.shutdownDropped := by
  unfold Shutdown.waiterStep
  cases s.waiter with
  | waiting =>
    simp only
    split <;> rfl
  | absent | closing | returned => rfl

theorem workerStep_givenUp (i : Fin n) : (q.workerStep i).givenUp = q.givenUp := by
  unfold PacketQueue.workerStep
  cases q.workers i with
  | waiting =>
    simp only
    split
    · rfl
    · split <;> rfl
  | took p | parsing p | leaving | returned => rfl

theorem unspoilt_next_iff {s : Receiving n} (step : ReceivingStep n) :
    Unspoilt (s.next cfg allowedSources step) ↔ Unspoilt s ∧ Counts cfg s step := by
  unfold Unspoilt
  cases step with
  | reader c =>
    simp only [Receiving.next, Counts]
    rcases readerStep_givenUp cfg allowedSources s.queue s.shutdown.stop s.shutdown.connClosed c
      with ⟨p, hp, hstop, hnot, hg⟩ | ⟨hsends, hg⟩ <;> rw [hg]
    · exact iff_of_false (by simp) fun h => hnot (h.2 p hp hstop)
    · exact ⟨fun h => ⟨h, hsends⟩, fun h => h.1⟩
  | worker i =>
    simp only [Receiving.next, Counts, workerStep_givenUp, and_true]
  | caller i deadline =>
    simp only [Receiving.next, Counts]
    rcases callerStep_dropped s.shutdown s.queue.packets i deadline with
      ⟨ids, hids, honce, hd⟩ | ⟨honce, hd⟩ <;> rw [hd]
    · rw [List.append_eq_nil_iff, ← and_assoc]
      refine and_congr_right fun _ => ⟨fun h ids' hids' _ => ?_, fun h => h ids hids honce⟩
      rw [hids, Caller.remaining.injEq] at hids'
      exact hids' ▸ h
    · refine ⟨fun h => ⟨h, fun ids hids hfresh => ?_⟩, fun h => h.1⟩
      exact absurd (honce ids hids) (by simp [hfresh])
  | waiter =>
    simp only [Receiving.next, Counts, waiterStep_dropped, and_true]

/-- All goroutines have stopped, and every call of `CloseContext` has returned. -/
structure Stopped (s : Receiving n) : Prop where
  reader : s.queue.reader = .returned
  workers : ∀ i, s.queue.workers i = .returned
  waiter : s.shutdown.waiter = .absent ∨ s.shutdown.waiter = .returned
  callers : ∀ i, s.shutdown.callers i = .absent ∨ ∃ k, s.shutdown.callers i = .returned k

/-- The datagrams that were received are those that were processed, dropped or left at shutdown. -/
structure Accounted (s : Receiving n) : Prop where
  total : s.queue.packetsReceived =
    s.queue.processed.length + s.queue.dropped.length + s.shutdown.shutdownDropped.length
  once : (s.queue.processed ++ s.queue.dropped.map Prod.snd ++ s.shutdown.shutdownDropped).Nodup

theorem ReceivingInvariant.perm_range {s : Receiving n} (h : ReceivingInvariant cfg s) (hn : 0 < n)
    (hs : Stopped s) :
    (s.queue.processed ++ s.queue.dropped.map Prod.snd ++ s.queue.abandoned).Perm
      (List.range s.queue.packetsReceived) := by
  have hempty : s.queue.packets = [] := (h.queue.drained ⟨0, hn⟩ (Or.inr (hs.workers _))).2
  rw [List.perm_iff_count]
  intro a
  have ha := h.conserved a
  simp only [PacketQueue.aside, PacketQueue.passed, hs.reader, hs.workers, hempty, Reader.heldIds,
    Parser.heldIds, List.map_nil, List.count_nil, Finset.sum_const_zero] at ha
  rw [List.nodup_range.count, List.count_append, List.count_append]
  simp only [List.mem_range]
  omega

theorem ReceivingInvariant.accounted_iff_unspoilt {s : Receiving n}
    (h : ReceivingInvariant cfg s) (hn : 0 < n) (hs : Stopped s) : Accounted s ↔ Unspoilt s := by
  have hperm := h.perm_range hn hs
  have hgiven : s.queue.givenUp = s.queue.abandoned := by
    simp [PacketQueue.givenUp, hs.reader]
  have hlength := hperm.length_eq
  simp only [List.length_append, List.length_map, List.length_range] at hlength
  rw [Unspoilt, hgiven]
  constructor
  · rintro ⟨htotal, honce⟩
    -- what is counted at shutdown has been processed as well
    have hnone : s.shutdown.shutdownDropped = [] := by
      refine List.eq_nil_iff_forall_not_mem.mpr fun a ha => ?_
      have hpassed := h.seen.dropped a ha
      have hempty := (h.queue.drained ⟨0, hn⟩ (Or.inr (hs.workers _))).2
      simp only [PacketQueue.passed, hs.workers, hempty, Parser.heldIds, List.map_nil,
        List.count_nil, Finset.sum_const_zero, Nat.zero_add, List.count_pos_iff] at hpassed
      exact List.disjoint_of_nodup_append honce (List.mem_append_left _ hpassed) ha
    refine ⟨List.length_eq_zero_iff.mp ?_, hnone⟩
    rw [hnone, List.length_nil] at htotal
    omega
  · rintro ⟨habandoned, hnone⟩
    rw [habandoned, List.length_nil] at hlength
    rw [habandoned, List.append_nil] at hperm
    refine ⟨by rw [hnone, List.length_nil]; omega, ?_⟩
    rw [hnone, List.append_nil]
    exact hperm.nodup_iff.mpr List.nodup_range

end

/-- **When all goroutines have stopped, the accounts are right if and only if the reader gave up no
datagram and the call that counted first found the channel empty.** -/
theorem accounted_iff (r : Receiver) (allowedSources : List NetipPrefix)
    (steps : List (ReceivingStep r.cfg.parseWorkers.toNat))
    (hs : Stopped (Receiving.after r.cfg allowedSources steps)) :
    Accounted (Receiving.after r.cfg allowedSources steps) ↔
      EveryStep (Receiving.next r.cfg allowedSources) (Counts r.cfg) (.start _) steps := by
  have hworkers := (Config.positive_of_valid r.valid).2 ("parse-workers", r.cfg.parseWorkers)
    (by simp [Config.checks])
  have hback : ∀ (s : Receiving r.cfg.parseWorkers.toNat) step,
      Unspoilt (s.next r.cfg allowedSources step) → Unspoilt s :=
    fun s step h => ((unspoilt_next_iff step).mp h).1
  rw [(receivingInvariant_after r steps).accounted_iff_unspoilt (by simpa using hworkers) hs]
  rw [show Receiving.after r.cfg allowedSources steps = steps.foldl _ _ from rfl,
    ← everyState_iff_last hback]
  refine everyState_iff_everyStep (I := fun _ => True) (fun _ _ h => h) ?_ steps trivial
    ⟨rfl, rfl⟩
  intro s step _ h
  exact ⟨fun h' => ((unspoilt_next_iff step).mp h').2,
    fun h' => (unspoilt_next_iff step).mpr ⟨h, h'⟩⟩

theorem stopped_of_one_call {n : Nat} {s : Receiving n} {k : Option Nat}
    (h : s.queue.finished = true ∧ s.shutdown.waiter = .returned)
    (hcall : s.shutdown.callers 0 = .returned k)
    (hothers : ∀ i, s.shutdown.callers (i + 1) = .absent) : Stopped s := by
  obtain ⟨hfinished, hwaiter⟩ := h
  simp only [PacketQueue.finished, decide_eq_true_eq] at hfinished
  refine ⟨hfinished.1, hfinished.2, Or.inr hwaiter, fun i => ?_⟩
  cases i with
  | zero => exact Or.inr ⟨k, hcall⟩
  | succ i => exact Or.inl (hothers i)

theorem accounted_drained :
    EveryStep (Receiving.next smallReceiver.cfg loopbackSources) (Counts smallReceiver.cfg)
      (.start _) drainedSchedule :=
  (accounted_iff smallReceiver loopbackSources drainedSchedule
    (stopped_of_one_call (k := none) (by decide +kernel) (by decide +kernel) fun _ => rfl)).mp
    ⟨by decide +kernel, by decide +kernel⟩

/-- The receiver is closed while the reader holds a datagram, and its `select` takes `stop`. -/
def stoppedSchedule : List (ReceivingStep smallReceiver.cfg.parseWorkers.toNat) :=
  List.flatten [List.replicate 4 (readerGoes false), List.replicate 6 (.caller 0 false),
    List.replicate 4 (readerGoes true), List.replicate 2 (workerGoes false),
    List.replicate 2 (workerGoes true), [.waiter, .waiter, .caller 0 false]]

/-- The deadline is over while a datagram is in the channel, and then a worker processes it. -/
def expiredSchedule : List (ReceivingStep smallReceiver.cfg.parseWorkers.toNat) :=
  List.flatten [List.replicate 5 (readerGoes false), List.replicate 6 (.caller 0 false),
    List.replicate 3 (.caller 0 true), List.replicate 3 (readerGoes false),
    List.replicate 5 (workerGoes false), List.replicate 2 (workerGoes true),
    [.waiter, .waiter]]

/-- **A datagram that is counted nowhere, and one that is counted twice.** -/
theorem not_accounted :
    (Stopped (Receiving.after smallReceiver.cfg loopbackSources stoppedSchedule) ∧
      ¬ Accounted (Receiving.after smallReceiver.cfg loopbackSources stoppedSchedule)) ∧
    (Stopped (Receiving.after smallReceiver.cfg loopbackSources expiredSchedule) ∧
      ¬ Accounted (Receiving.after smallReceiver.cfg loopbackSources expiredSchedule)) := by
  refine ⟨⟨?_, fun h => ?_⟩, ?_, fun h => ?_⟩
  · exact stopped_of_one_call (k := none) (by decide +kernel) (by decide +kernel) fun _ => rfl
  · exact absurd h.total (by decide +kernel)
  · exact stopped_of_one_call (k := some 1) (by decide +kernel) (by decide +kernel) fun _ => rfl
  · exact absurd h.once (by decide +kernel)

end Dogstatsd
