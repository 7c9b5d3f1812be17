import NodeAgent.Ebpf.Payload

/-!
# The calls of each handler

What a handler does is said once: which calls it can make, by what the replies so far have told it.
What holds along the runs of the tracer is derived from this.

* `classifyWrite_decided` — what is known of a payload when the chain of classifiers has decided
* `handler_calls` — the calls of every handler
-/

namespace Ebpf

open Infra Prog

/-! ## The chain of classifiers -/

/-- What the classifiers have found in the payload when they decide. -/
def Decision.Decided (payload : Memory) (size : Nat) : Decision → Prop
  | .closeStatement protocol _ =>
    protocol = .postgres ∨ (protocol = .mysql ∧ (isMysqlQuery payload size).1 = true)
  | .produce protocol _ => protocol = .rabbitmq ∨ protocol = .nats
  | .request .mysql _ _ streamId => (isMysqlQuery payload size).1 = true ∧ streamId = -1
  | .request .cassandra _ _ streamId => isCassandraRequest payload size = some streamId
  | .request .dns _ _ streamId => isDnsRequest payload size = some streamId
  | .request _ _ _ streamId => streamId = -1
  | _ => True

section

variable (requestType : UInt8) (payload : Memory) (size totalSize : Nat)

theorem classifyRest_decided :
    (classifyRest requestType payload size totalSize).Decided payload size := by
  fun_cases classifyRest requestType payload size totalSize with
  | case2 => exact .inl rfl
  | case3 => exact .inr rfl
  | case4 _ _ _ streamId hcassandra => exact hcassandra
  | case5 => trivial
  | case10 _ _ _ _ _ _ _ _ _ streamId hdns => exact hdns
  | case12 => trivial
  | _ => rfl

/-- **A stream id comes from the classifier of Cassandra or DNS, and what is taken for MySQL was
accepted by `is_mysql_query`.** -/
theorem classifyWrite_decided :
    (classifyWrite requestType payload size totalSize).Decided payload size := by
  fun_cases classifyWrite requestType payload size totalSize with
  | case2 => exact .inl rfl
  | case6 _ _ _ _ _ _ _ _ _ _ _ hmysql => exact .inr ⟨rfl, by rw [hmysql]⟩
  | case7 _ _ _ _ _ _ _ _ _ _ _ hmysql => exact ⟨by rw [hmysql], rfl⟩
  | case8 => exact classifyRest_decided _ payload size totalSize
  | _ => rfl

end

/-! ## What a handler knows -/

/-- What the replies have told a handler. -/
structure Known where
  /-- the connection it has found -/
  conn : Option (ConnectionId × Connection)
  /-- the request that was looked up last, with its key -/
  got : Option (L7RequestKey × L7Request)
  /-- the key that was looked up in vain -/
  missed : Option L7RequestKey
  /-- the payload of the request was copied -/
  copied : Bool
  /-- what the clock has read since -/
  now : Option Nat

namespace Known

def nothing : Known := ⟨none, none, none, false, none⟩

def tell (n : Known) : (op : BpfOp) → op.Reply → Known
  | .lookupConnection cid, r => { n with conn := Option.map (Prod.mk cid) r }
  | .lookupRequest k, none => { n with got := none, missed := some k, copied := false, now := none }
  | .lookupRequest k, some req => { n with got := some (k, req), copied := false, now := none }
  | .truncateRequest _, _ => { n with copied := true }
  | .ktime, t => { n with now := some t }
  | _, _ => n

def Has (n : Known) (cid : ConnectionId) : Prop := ∃ conn, n.conn = some (cid, conn)

/-- The event is on the connection that was found. -/
def On (n : Known) (e : L7Event) : Prop :=
  ∃ conn, n.conn = some (⟨e.fd, e.pid⟩, conn) ∧ e.connectionTimestamp = conn.timestamp

/-- The start time is what the clock has read, or that of the request that was looked up last. -/
def Started (n : Known) (ns : Nat) : Prop :=
  n.now = some ns ∨ n.now = none ∧ ∃ k prev, n.got = some (k, prev) ∧ ns = prev.ns

end Known

/-- The buffer is filled with what fits of a payload. -/
def Filled (payload : Memory) (size : Nat) (before after : Buffer) : Prop :=
  ∃ bytes, probeRead payload 0 (truncatePayloadSize size) = some bytes ∧ after = before.fill bytes

/-- The event tells of the request. `before` is what the buffer of the event held. -/
structure L7Event.TellsOf (e : L7Event) (req : L7Request) (before : Buffer) : Prop where
  protocol : e.protocol = req.protocol
  payloadSize : e.payloadSize = req.payloadSize
  payload : e.payload = before.fill (req.payload.first (truncatePayloadSize req.payloadSize))

/-- The buffers of the slots still have the zero at the last index. -/
structure Slots.Clean (s : Slots) : Prop where
  event : s.event.payload Buffer.last = 0
  request : s.request.payload Buffer.last = 0

/-- A handler leaves clean slots clean. -/
def Leaves (old left : Slots) (_ : Known) : Prop := old.Clean → left.Clean

theorem Filled.last {payload : Memory} {size : Nat} {b b' : Buffer} (h : Filled payload size b b') :
    b' Buffer.last = b Buffer.last := by
  obtain ⟨bytes, hr, rfl⟩ := h
  exact fill_last (probeRead_eq_some.mp hr).1

theorem Slots.Clean.withIovec {s : Slots} (h : s.Clean) (iovec : Memory) :
    ({ s with iovec } : Slots).Clean :=
  ⟨h.event, h.request⟩

theorem Leaves.of_iovec {old left : Slots} {n : Known} {iovec : Memory}
    (h : Leaves { old with iovec } left n) : Leaves old left n :=
  fun hs => h (hs.withIovec iovec)

/-- The event that `send_event` puts out. -/
def L7Event.on (e : L7Event) (cid : ConnectionId) (conn : Connection) : L7Event :=
  { e with connectionTimestamp := conn.timestamp, fd := cid.fd, pid := cid.pid }

section

variable {A : Known → BpfOp → Prop} {n : Known} {old slots : Slots} {e : L7Event}
  {cid : ConnectionId} {conn : Connection} {k : L7RequestKey} {req : L7Request} {payload : Memory}
  {size : Nat}

theorem sendEvent_obeys (hs : Leaves old { slots with event := e } n)
    (he : A n (.sendL7 (e.on cid conn))) :
    (sendEvent slots e cid conn).Obeys Known.tell A (Leaves old) n :=
  obeys_step he fun _ h => ⟨(hs h).event, (hs h).request⟩

theorem sendPayload_obeys (hs : Leaves old { slots with event := e } n)
    (he : ∀ b, Filled payload size e.payload b →
      A n (.sendL7 (L7Event.on { e with payloadSize := size, payload := b } cid conn))) :
    (sendPayload slots e payload size cid conn).Obeys Known.tell A (Leaves old) n := by
  unfold sendPayload
  simp only
  cases hr : probeRead payload 0 (truncatePayloadSize size) with
  | none => exact fun h => ⟨(hs h).event, (hs h).request⟩
  | some bytes =>
    have hfilled : Filled payload size e.payload (e.payload.fill bytes) := ⟨bytes, hr, rfl⟩
    refine sendEvent_obeys (fun h => ⟨?_, (hs h).request⟩) (he _ hfilled)
    exact hfilled.last.trans (hs h).event

theorem startTime_obeys (hlookup : A n (.lookupRequest k))
    (htime : ∀ n' : Known, n'.conn = n.conn → A n' .ktime) (protocol : Protocol) :
    (startTime k protocol).Obeys Known.tell A
      (fun ns n' => n'.conn = n.conn ∧ n'.Started ns) n := by
  have hclock : ∀ n' : Known, n'.conn = n.conn → Bpf.ktime.Obeys Known.tell A
      (fun ns n' => n'.conn = n.conn ∧ n'.Started ns) n' :=
    fun n' h => ⟨htime n' h, fun _ => ⟨h, .inl rfl⟩⟩
  unfold startTime
  split
  · refine obeys_step hlookup fun prev => ?_
    cases prev with
    | none => exact hclock _ rfl
    | some prev =>
      simp only
      split
      · exact ⟨rfl, .inr ⟨rfl, k, prev, rfl, rfl⟩⟩
      · exact hclock _ rfl
  · exact hclock n rfl

theorem storeRequest_obeys (hs : Leaves old { slots with request := req } n)
    (hlookup : A n (.lookupRequest k)) (htime : ∀ n' : Known, n'.conn = n.conn → A n' .ktime)
    (hstore : ∀ (n' : Known) ns b, n'.conn = n.conn → n'.Started ns →
      Filled payload size req.payload b →
      A n' (.updateRequest k { req with ns, payload := b })) :
    (storeRequest slots req k payload size).Obeys Known.tell A (Leaves old) n := by
  refine obeys_bind (fun ns n' hn' => ?_) (startTime_obeys hlookup htime req.protocol)
  simp only
  cases hr : probeRead payload 0 (truncatePayloadSize size) with
  | none => exact fun h => ⟨(hs h).event, (hs h).request⟩
  | some bytes =>
    have hfilled : Filled payload size req.payload (req.payload.fill bytes) := ⟨bytes, hr, rfl⟩
    refine obeys_step (hstore n' ns _ hn'.1 hn'.2 hfilled) fun _ h => ⟨(hs h).event, ?_⟩
    exact hfilled.last.trans (hs h).request

end

/-! ## The start of a write -/

/-- A request that is stored for a write. `before` is what its buffer held. -/
structure Stored (before : Buffer) (found : Found) (n : Known) (k : L7RequestKey)
    (req : L7Request) : Prop where
  started : n.Started req.ns
  payloadSize : req.payloadSize = found.size
  payload : Filled found.payload found.size before req.payload
  decided : ∃ requestType requestId, (Decision.request req.protocol requestType requestId
    k.streamId).Decided found.payload found.size

/-- An event of a write. `old` is what was in the slot. -/
inductive Sent (old : L7Event) (found : Found) (e : L7Event) : Prop
  | published (hmethod : e.method = .produce)
      (hprotocol : e.protocol = .rabbitmq ∨ e.protocol = .nats)
      (hsize : e.payloadSize = old.payloadSize) (hpayload : e.payload = old.payload)
  | copied (hmethod : e.method ≠ .produce)
      (hprotocol : e.protocol = .mysql → (isMysqlQuery found.payload found.size).1 = true)
      (hsize : e.payloadSize = found.size)
      (hpayload : Filled found.payload found.size old.payload e.payload)

/-- The calls of a write after its bytes are counted. No branch sets the status. -/
def RequestCall (old : L7Event) (before : Buffer) (found : Found) (n : Known) : BpfOp → Prop
  | .ktime => True
  | .lookupRequest k => n.Has k.cid
  | .updateRequest k req => n.Has k.cid ∧ Stored before found n k req
  | .sendL7 e => n.On e ∧ e.status = old.status ∧ Sent old found e
  | _ => False

def WriteCall (slots : Slots) (source : Source) (n : Known) : BpfOp → Prop
  | .lookupConnection _ => n.got = none
  | .addSent cid _ => n.Has cid
  | op => ∃ found, source.find slots.iovec = some found ∧
      RequestCall slots.event slots.request.payload found n op

theorem RequestCall.write {slots : Slots} {source : Source} {found : Found} {n : Known} {op : BpfOp}
    (hf : source.find slots.iovec = some found)
    (h : RequestCall slots.event slots.request.payload found n op) :
    WriteCall slots source n op := by
  cases op with
  | lookupConnection | addSent => exact h.elim
  | _ => exact ⟨found, hf, h⟩

section

variable {slots : Slots} {n : Known} {cid : ConnectionId} {conn : Connection} {found : Found}

theorem handleWrite_calls (hconn : n.conn = some (cid, conn)) (isTls : Bool) :
    (handleWrite slots cid conn isTls found.payload found.size found.totalSize).Obeys Known.tell
      (RequestCall slots.event slots.request.payload found) (Leaves slots) n := by
  have hd := classifyWrite_decided slots.request.requestType found.payload found.size
    found.totalSize
  unfold handleWrite
  simp only
  split <;> rename_i heq <;> rw [heq] at hd
  · exact fun h => ⟨h.event, h.request⟩
  · refine sendPayload_obeys (fun h => ⟨h.event, h.request⟩) fun b hb =>
      ⟨⟨conn, hconn, rfl⟩, rfl, .copied nofun (fun hp => ?_) rfl hb⟩
    rcases hd with rfl | ⟨-, hmysql⟩
    · cases hp
    · exact hmysql
  · exact sendEvent_obeys (fun h => ⟨h.event, h.request⟩)
      ⟨⟨conn, hconn, rfl⟩, rfl, .published rfl hd rfl rfl⟩
  · exact obeys_step trivial fun now => sendPayload_obeys (fun h => ⟨h.event, h.request⟩)
      fun b hb => ⟨⟨conn, hconn, rfl⟩, rfl, .copied nofun nofun rfl hb⟩
  · refine storeRequest_obeys (fun h => ⟨h.event, h.request⟩) ⟨conn, hconn⟩ (fun _ _ => trivial)
      fun n' ns b hn' hns hb => ⟨⟨conn, hn'.trans hconn⟩, hns, rfl, hb, _, _, hd⟩

/-- **The calls of a write.** -/
theorem traceEnterWrite_calls (slots : Slots) (pid fd : Nat) (isTls : Bool) (source : Source) :
    (traceEnterWrite slots pid fd isTls source).Obeys Known.tell (WriteCall slots source)
      (Leaves slots) .nothing := by
  refine obeys_step rfl fun conn => ?_
  cases conn with
  | none => exact fun h => h
  | some conn =>
    simp only
    cases hf : source.find slots.iovec with
    | none => exact fun h => h
    | some found =>
      have hwrite : ∀ n : Known, n.conn = some (⟨fd, pid⟩, conn) →
          (handleWrite { slots with iovec := found.iovec } ⟨fd, pid⟩ conn isTls found.payload
            found.size found.totalSize).Obeys Known.tell (WriteCall slots source)
              (Leaves slots) n :=
        fun n hn => Obeys.mono (fun _ _ h => RequestCall.write hf h)
          (fun _ _ => Leaves.of_iovec)
          (@handleWrite_calls { slots with iovec := found.iovec } n _ _ found hn isTls)
      simp only [countWrite]
      split
      · exact fun h => h.withIovec found.iovec
      split
      · exact hwrite _ rfl
      · exact obeys_step ⟨conn, rfl⟩ fun _ => hwrite _ rfl

end

/-! ## The end of a read -/

/-- An event of a read. `before` is what the buffer of the slot held. -/
inductive Told (before : Buffer) (n : Known) (e : L7Event) : Prop
  | consumed (hgot : n.got = none) (hmethod : e.method = .consume)
      (hprotocol : e.protocol = .rabbitmq ∨ e.protocol = .nats)
  | frames (hgot : n.got = none) (hmethod : e.method = .http2ServerFrames)
      (hprotocol : e.protocol = .http2)
  -- a response of a DNS server, which is shown instead of the request
  | resolved {k : L7RequestKey} {req : L7Request} {now : Nat} {payload : Memory}
      {answer : Int × Int} (hgot : n.got = some (k, req)) (hmissed : n.missed ≠ none)
      (hcopied : n.copied = false) (hnow : n.now = some now)
      (hduration : e.duration = sub64 now req.ns) (hprotocol : e.protocol = .dns)
      (hdns : isDnsResponse payload e.payloadSize = some answer)
      (hpayload : Filled payload e.payloadSize before e.payload)
  | answered {k : L7RequestKey} {req : L7Request} {now : Nat} (hgot : n.got = some (k, req))
      (hcopied : n.copied = true) (hnow : n.now = some now)
      (hduration : e.duration = sub64 now req.ns) (htells : e.TellsOf req before)

/-- The calls of a read after its bytes are counted. A request is looked up without a stream id
first. -/
def ResponseCall (before : Buffer) (isTls : Bool) (n : Known) : BpfOp → Prop
  | .ktime => True
  | .lookupRequest k => n.got = none ∧ n.Has k.cid ∧ k.isTls = isTls ∧
      (n.missed = none → k.streamId = -1) ∧
      ∀ k', n.missed = some k' → k' = { k with streamId := -1 }
  | .truncateRequest k | .markPartial k | .deleteRequest k => ∃ req, n.got = some (k, req)
  | .sendL7 e => n.On e ∧ Told before n e
  | _ => False

def ReadCall (slots : Slots) (isTls : Bool) (n : Known) : BpfOp → Prop
  | .lookupRead _ | .deleteRead _ => True
  | .lookupConnection _ => n.got = none
  | .addReceived cid _ => n.Has cid
  | op => ResponseCall slots.event.payload isTls n op

theorem ResponseCall.read {slots : Slots} {isTls : Bool} {n : Known} {op : BpfOp}
    (h : ResponseCall slots.event.payload isTls n op) : ReadCall slots isTls n op := by
  cases op with
  | lookupRead | deleteRead | lookupConnection | addReceived => exact h.elim
  | _ => exact h

section

variable {slots : Slots} {n : Known} {e : L7Event} {cid : ConnectionId} {conn : Connection}
  {payload : Memory} {ret totalSize : Nat} {k : L7RequestKey} {isTls : Bool}

theorem handleResponse_calls {req : L7Request} (hconn : n.conn = some (cid, conn))
    (hgot : n.got = some (k, req)) (he : e.payload = slots.event.payload) (found : Nat) :
    (handleResponse slots e cid conn k req payload ret totalSize found).Obeys Known.tell
      (ResponseCall slots.event.payload isTls) (Leaves slots) n := by
  have hlast : slots.Clean → e.payload.fill
      (req.payload.first (truncatePayloadSize req.payloadSize)) Buffer.last = 0 := by
    intro h
    rw [he]
    refine (fill_last (n := req.payloadSize) ?_).trans h.event
    rw [length_first]
    exact Nat.min_eq_left (Nat.le_trans (Nat.min_le_right _ _) (Nat.sub_le _ _))
  refine obeys_step ⟨req, hgot⟩ fun _ => ?_
  simp only
  split
  · split
    · exact obeys_step ⟨req, hgot⟩ fun _ h => ⟨hlast h, h.request⟩
    · exact fun h => ⟨hlast h, h.request⟩
  · refine obeys_step ⟨req, hgot⟩ fun _ => ?_
    split
    · exact fun h => ⟨hlast h, h.request⟩
    · exact obeys_step trivial fun now => sendEvent_obeys (fun h => ⟨hlast h, h.request⟩)
        ⟨⟨conn, hconn, rfl⟩, .answered hgot rfl rfl rfl ⟨rfl, rfl, he ▸ rfl⟩⟩

theorem handleUnmatched_calls (hconn : n.conn = some (cid, conn)) (hgot : n.got = none)
    (hk : k = ⟨cid.fd, cid.pid, isTls, -1⟩) (hmissed : n.missed = some k)
    (he : e.payload = slots.event.payload) :
    (handleUnmatched slots e cid conn k payload ret totalSize).Obeys Known.tell
      (ResponseCall slots.event.payload isTls) (Leaves slots) n := by
  subst hk
  have hclean : slots.Clean → e.payload Buffer.last = 0 := fun h => he ▸ h.event
  have hlookup : ∀ streamId, ResponseCall slots.event.payload isTls n
      (.lookupRequest ⟨cid.fd, cid.pid, isTls, streamId⟩) := fun streamId =>
    ⟨hgot, ⟨conn, hconn⟩, rfl, by simp [hmissed],
      fun k' hk' => (Option.some.inj (hmissed ▸ hk')).symm⟩
  unfold handleUnmatched
  cases hdns : isDnsResponse payload ret with
  | some answer =>
    refine obeys_step (hlookup answer.1) fun req => ?_
    cases req with
    | none => exact fun h => ⟨hclean h, h.request⟩
    | some req =>
      refine obeys_step trivial fun now => ?_
      simp only [sendPayload]
      cases hr : probeRead payload 0 (truncatePayloadSize ret) with
      | none => exact fun h => ⟨hclean h, h.request⟩
      | some bytes =>
        have hfilled : Filled payload ret slots.event.payload (e.payload.fill bytes) :=
          ⟨bytes, hr, he ▸ rfl⟩
        refine ⟨⟨⟨conn, hconn, rfl⟩, .resolved rfl ?_ rfl rfl rfl rfl hdns hfilled⟩,
          fun _ => obeys_step ⟨req, rfl⟩ fun _ h => ⟨hfilled.last.trans h.event, h.request⟩⟩
        exact hmissed ▸ Option.some_ne_none _
  | none =>
    simp only
    cases isCassandraResponse payload ret with
    | some answer =>
      refine obeys_step (hlookup answer.1) fun req => ?_
      cases req with
      | none => exact fun h => ⟨hclean h, h.request⟩
      | some req => exact handleResponse_calls (by exact hconn) (by rfl) (by exact he) 1
    | none =>
      simp only
      split
      · refine obeys_step trivial fun now => sendPayload_obeys
          (fun h => ⟨hclean h, h.request⟩) fun b hb => ⟨⟨conn, hconn, rfl⟩, .frames hgot rfl rfl⟩
      · exact fun h => ⟨hclean h, h.request⟩

theorem handleRead_calls (hconn : n.conn = some (cid, conn)) (hgot : n.got = none)
    (hmissed : n.missed = none) :
    (handleRead slots cid conn isTls payload ret totalSize).Obeys Known.tell
      (ResponseCall slots.event.payload isTls) (Leaves slots) n := by
  have hconsume : ∀ protocol, protocol = .rabbitmq ∨ protocol = .nats →
      (sendEvent slots { slots.event with
          protocol, status := statusUnknown, method := .consume, statementId := 0
          payloadSize := 0 } cid conn).Obeys Known.tell (ResponseCall slots.event.payload isTls)
        (Leaves slots) n := fun protocol hp =>
    sendEvent_obeys (fun h => ⟨h.event, h.request⟩) ⟨⟨conn, hconn, rfl⟩, .consumed hgot rfl hp⟩
  unfold handleRead
  simp only
  split
  · exact hconsume .rabbitmq (.inl rfl)
  split
  · exact hconsume .nats (.inr rfl)
  refine obeys_step ⟨hgot, ⟨conn, hconn⟩, rfl, fun _ => rfl, by simp [hmissed]⟩ fun req => ?_
  cases req with
  | some req => exact handleResponse_calls (by exact hconn) (by rfl) (by rfl) 0
  | none => exact handleUnmatched_calls (by exact hconn) (by rfl) rfl (by rfl) (by rfl)

/-- **The calls of a read.** -/
theorem traceExitRead_calls (slots : Slots) (user : UserMemory) (id pid : Nat) (isTls : Bool)
    (result : Int) :
    (traceExitRead slots user id pid isTls result).Obeys Known.tell (ReadCall slots isTls)
      (Leaves slots) .nothing := by
  refine obeys_step trivial fun args => ?_
  cases args with
  | none => exact fun h => h
  | some args =>
    refine obeys_step rfl fun conn => obeys_step trivial fun _ => ?_
    cases conn with
    | none => exact fun h => h
    | some conn =>
      simp only
      cases readResult user args result with
      | none => exact fun h => h
      | some size =>
        simp only
        cases user.find args size slots.iovec with
        | none => exact fun h => h
        | some found =>
          have hread : ∀ n : Known, n.conn = some (⟨args.fd, pid⟩, conn) → n.got = none →
              n.missed = none → (handleRead { slots with iovec := found.iovec } ⟨args.fd, pid⟩ conn
                isTls found.payload found.size found.totalSize).Obeys Known.tell
                  (ReadCall slots isTls) (Leaves slots) n :=
            fun n hn hgot hmissed => Obeys.mono (fun _ _ h => ResponseCall.read h)
              (fun _ _ => Leaves.of_iovec)
              (@handleRead_calls { slots with iovec := found.iovec } n _ _ _ _ _ _ hn hgot hmissed)
          simp only [countRead]
          split
          · exact fun h => h.withIovec found.iovec
          split
          · exact hread _ rfl rfl rfl
          · exact obeys_step ⟨conn, rfl⟩ fun _ => hread _ rfl rfl rfl

end

/-! ## The other handlers -/

/-- A call that puts out no L7 event, and neither looks a request up nor stores or copies one. -/
def SideCall : BpfOp → Prop
  | .lookupRequest _ => False
  | .updateRequest _ _ => False
  | .truncateRequest _ => False
  | .sendL7 _ => False
  | _ => True

theorem traceEnterRead_calls (id pid : Nat) (args : ReadArgs) :
    (traceEnterRead id pid args).Uses SideCall := by
  refine uses_step trivial fun conn => ?_
  cases conn with
  | none => trivial
  | some conn => exact uses_lift trivial

theorem forgetRequests_calls (id : Nat) (cid : ConnectionId) :
    (forgetRequests id cid).Uses SideCall :=
  uses_step trivial fun _ => uses_step trivial fun _ => uses_lift trivial

theorem sysExitConnect_calls (id pid : Nat) (ret : Int) :
    (sysExitConnect id pid ret).Uses SideCall := by
  refine uses_step trivial fun fd => ?_
  cases fd with
  | none => trivial
  | some fd =>
    refine uses_step trivial fun conn => ?_
    split
    · exact uses_step trivial fun now => uses_step trivial fun _ => forgetRequests_calls id _
    · exact forgetRequests_calls id _

theorem settleSocket_calls (socket : Nat) (newState : TcpState) :
    (settleSocket socket newState).Uses SideCall := by
  refine uses_step trivial fun cid => ?_
  cases cid with
  | none => trivial
  | some cid =>
    refine uses_step trivial fun conn => ?_
    cases conn with
    | none => trivial
    | some conn =>
      cases newState with
      | established => exact uses_step trivial fun now => uses_lift trivial
      | close =>
        exact uses_step trivial fun _ => uses_step trivial fun _ => uses_step trivial fun now =>
          uses_lift trivial
      | _ => trivial

theorem inetSockSetState_calls (id pid socket : Nat) (oldState newState : TcpState) :
    (inetSockSetState id pid socket oldState newState).Uses SideCall := by
  fun_cases inetSockSetState id pid socket oldState newState
  · refine uses_step trivial fun fd => ?_
    cases fd with
    | none => trivial
    | some fd =>
      exact uses_step trivial fun now => uses_step trivial fun _ => uses_step trivial fun _ =>
        uses_lift trivial
  · exact settleSocket_calls socket newState
  · exact uses_lift trivial
  · exact uses_lift trivial
  · exact uses_lift trivial
  · exact uses_lift trivial
  · trivial

theorem sysEnterClose_calls (pid fd : Nat) : (sysEnterClose pid fd).Uses SideCall := by
  refine uses_step trivial fun conn => ?_
  cases conn with
  | none => trivial
  | some conn => exact uses_step trivial fun _ => uses_lift trivial

/-! ## All handlers -/

def Handler.Call (slots : Slots) : Handler → Known → BpfOp → Prop
  | .enterWrite _ _ _ source => WriteCall slots source
  | .exitRead _ _ _ isTls _ => ReadCall slots isTls
  | _ => fun _ => SideCall

/-- **The calls of every handler.** -/
theorem handler_calls (h : Handler) (slots : Slots) :
    (h.prog slots).Obeys Known.tell (h.Call slots) (Leaves slots) .nothing := by
  have hside : ∀ {p : BpfProg Unit}, p.Uses SideCall → (p >>= fun _ => .ret slots).Obeys
      Known.tell (fun _ => SideCall) (Leaves slots) .nothing :=
    fun hp => obeys_bind (fun _ _ _ => by exact id) (hp.obeys _)
  cases h with
  | enterWrite pid fd isTls source => exact traceEnterWrite_calls slots pid fd isTls source
  | exitRead user id pid isTls result =>
    exact traceExitRead_calls slots user id pid isTls result
  | enterRead id pid args => exact hside (traceEnterRead_calls id pid args)
  | enterConnect id fd => exact hside (p := sysEnterConnect id fd) (uses_lift trivial)
  | exitConnect id pid result => exact hside (sysExitConnect_calls id pid result)
  | setState id pid socket oldState newState =>
    exact hside (inetSockSetState_calls id pid socket oldState newState)
  | enterClose pid fd => exact hside (sysEnterClose_calls pid fd)

end Ebpf
