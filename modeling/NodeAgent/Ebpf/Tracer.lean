import NodeAgent.Ebpf.Maps

/-!
# The tracer programs (`ebpftracer/ebpf/l7/l7.c`, `ebpftracer/ebpf/tcp/state.c`)

The handlers of the write, read, connect and close system calls, as programs over the shared maps.
A handler gets the slots of its CPU and returns them as it leaves them.

The memory of the process is an argument: for a write, what is at the buffer or at the iovecs when
the call is entered; for a read, what is at every address when it returns.
-/

namespace Ebpf

open Infra

/-! ## Iovecs -/

structure Iovec where
  buf : Memory
  size : Nat

/-- The buffer `iovec_buf` with some bytes written at an offset. -/
def Memory.write (m : Memory) (offset : Nat) (bytes : Bytes) : Memory := fun i =>
  if offset ≤ i ∧ i < offset + bytes.length then bytes[(i - offset).toNat]? else m i

structure IovecRead where
  offset : Nat
  totalSize : Nat
  buf : Memory

/-- The loop of `read_iovec`. An entry that cannot be read is `none`. -/
def readIovecLoop (max : Nat) : List (Option Iovec) → IovecRead → Option IovecRead
  | [], acc => some acc
  | none :: _, _ => none
  | some iov :: rest, acc =>
    if iov.size = 0 then readIovecLoop max rest acc
    else
      let acc := { acc with totalSize := (acc.totalSize + iov.size) % 2 ^ 64 }
      if acc.offset < max then
        let size := truncatePayloadSize (min iov.size (max - acc.offset))
        let offset := truncatePayloadSize acc.offset
        match probeRead iov.buf 0 size with
        | none => none
        | some bytes =>
          readIovecLoop max rest ⟨offset + size, acc.totalSize, acc.buf.write offset bytes⟩
      else readIovecLoop max rest acc

def maxIovecSize : Nat := 32

/-- `ret` is the result of the call, or 0 when it is not known. -/
def readIovec (iovecs : List (Option Iovec)) (ret : Nat) (buf : Memory) : Option IovecRead :=
  let max := if ret ≠ 0 then min ret maxPayloadSize else maxPayloadSize
  readIovecLoop max (iovecs.take maxIovecSize) ⟨0, 0, buf⟩

/-! ## Writing -/

inductive Source where
  | plain (buf : Memory) (size : Nat)
  | iovecs (list : List (Option Iovec))

/-- What the classifiers make of a payload, with the value that `req->request_type` has then. -/
inductive Decision where
  | unknown (requestType : UInt8)
  | closeStatement (protocol : Protocol) (requestType : UInt8)
  | produce (protocol : Protocol) (requestType : UInt8)
  | http2Frames (requestType : UInt8)
  | request (protocol : Protocol) (requestType : UInt8) (requestId streamId : Int)

/-- The chain of classifiers, from `is_mongo_query` on. -/
def classifyRest (requestType : UInt8) (payload : Memory) (size totalSize : Nat) : Decision :=
  if isMongoQuery payload size then .request .mongo requestType 0 (-1)
  else if isRabbitmqProduce payload size then .produce .rabbitmq requestType
  else if natsMethod payload size = .produce then .produce .nats requestType
  else
    match isCassandraRequest payload size with
    | some streamId => .request .cassandra requestType 0 streamId
    | none =>
      if looksLikeHttp2Frame payload size .http2ClientFrames then .http2Frames requestType
      else if isClickhouseQuery payload then .request .clickhouse requestType 0 (-1)
      else if isZkRequest payload totalSize then .request .zookeeper requestType 0 (-1)
      else
        match isKafkaRequest payload size with
        | some requestId => .request .kafka requestType requestId (-1)
        | none =>
          if isDubbo2Request payload size then .request .dubbo2 requestType 0 (-1)
          else
            match isDnsRequest payload size with
            | some streamId => .request .dns requestType 0 streamId
            | none =>
              if isFoundationdbRequest payload size then .request .foundationdb requestType 0 (-1)
              else .unknown requestType

/-- The chain of classifiers. `requestType` is what an earlier request left in the slot. -/
def classifyWrite (requestType : UInt8) (payload : Memory) (size totalSize : Nat) : Decision :=
  if isHttpRequest payload then .request .http requestType 0 (-1)
  else
    let (postgres, written) := isPostgresQuery payload size
    let requestType := written.getD requestType
    if postgres then
      if requestType = postgresFrameClose then .closeStatement .postgres requestType
      else .request .postgres requestType 0 (-1)
    else if isRedisQuery payload size then .request .redis requestType 0 (-1)
    else if isMemcachedQuery payload size then .request .memcached requestType 0 (-1)
    else
      let (mysql, written) := isMysqlQuery payload size
      let requestType := written.getD requestType
      if mysql then
        if requestType = mysqlComStmtClose then .closeStatement .mysql requestType
        else .request .mysql requestType 0 (-1)
      else classifyRest requestType payload size totalSize

def sub64 (a b : Nat) : Nat := toU64 ((a : Int) - b)

/-- `send_event` on the event slot. -/
def sendEvent (slots : Slots) (e : L7Event) (cid : ConnectionId) (conn : Connection) :
    BpfProg Slots := do
  let e := { e with connectionTimestamp := conn.timestamp, fd := cid.fd, pid := cid.pid }
  Bpf.call (.sendL7 e)
  .ret { slots with event := e }

/-- An event with a part of the payload in it: `COPY_PAYLOAD`, then `send_event`. -/
def sendPayload (slots : Slots) (e : L7Event) (payload : Memory) (size : Nat) (cid : ConnectionId)
    (conn : Connection) : BpfProg Slots :=
  let e := { e with payloadSize := size }
  match probeRead payload 0 (truncatePayloadSize size) with
  | none => .ret { slots with event := e }
  | some bytes => sendEvent slots { e with payload := e.payload.fill bytes } cid conn

/-- The start time of a request. A Kafka request takes the one of a Kafka request that still
waits. -/
def startTime (k : L7RequestKey) (protocol : Protocol) : BpfProg Nat :=
  if protocol = .kafka then do
    let prev ← Bpf.lookupRequest k
    match prev with
    | some prev => if prev.protocol = .kafka ∧ prev.ns ≠ 0 then .ret prev.ns else Bpf.ktime
    | none => Bpf.ktime
  else Bpf.ktime

/-- The end of `trace_enter_write`, for a request that waits for its response. -/
def storeRequest (slots : Slots) (req : L7Request) (k : L7RequestKey) (payload : Memory)
    (size : Nat) : BpfProg Slots := do
  let ns ← startTime k req.protocol
  let req := { req with ns := ns }
  match probeRead payload 0 (truncatePayloadSize size) with
  | none => .ret { slots with request := req }
  | some bytes => do
    let req := { req with payload := req.payload.fill bytes }
    Bpf.call (.updateRequest k req)
    .ret { slots with request := req }

/-- The part of `trace_enter_write` after the payload is found. -/
def handleWrite (slots : Slots) (cid : ConnectionId) (conn : Connection) (isTls : Bool)
    (payload : Memory) (size totalSize : Nat) : BpfProg Slots :=
  let req := { slots.request with
    protocol := .unknown, isPartial := false, requestId := 0, ns := 0, payloadSize := size }
  match classifyWrite req.requestType payload size totalSize with
  | .unknown requestType => .ret { slots with request := { req with requestType } }
  | .closeStatement protocol requestType =>
    sendPayload { slots with request := { req with requestType } }
      { slots.event with protocol, method := .statementClose } payload size cid conn
  | .produce protocol requestType =>
    sendEvent { slots with request := { req with requestType } }
      { slots.event with protocol, method := .produce } cid conn
  | .http2Frames requestType => do
    let now ← Bpf.ktime
    sendPayload { slots with request := { req with requestType } }
      { slots.event with protocol := .http2, method := .http2ClientFrames, duration := now }
      payload size cid conn
  | .request protocol requestType requestId streamId =>
    storeRequest slots { req with protocol, requestType, requestId }
      ⟨cid.fd, cid.pid, isTls, streamId⟩ payload size

/-- Where the payload of a call is, and what is in `iovec_buf` then. -/
structure Found where
  payload : Memory
  size : Nat
  totalSize : Nat
  iovec : Memory

def Found.ofIovecs (r : IovecRead) : Found := ⟨r.buf, r.offset, r.totalSize, r.buf⟩

def Source.find (iovec : Memory) : Source → Option Found
  | .plain buf size => some ⟨buf, size, size, iovec⟩
  | .iovecs list => (readIovec list 0 iovec).map Found.ofIovecs

/-- The part of `trace_enter_write` that counts the bytes of the connection. -/
def countWrite (slots : Slots) (cid : ConnectionId) (conn : Connection) (isTls : Bool)
    (found : Found) : BpfProg Slots :=
  let slots := { slots with iovec := found.iovec }
  if found.size = 0 then .ret slots
  else if isTls then
    handleWrite slots cid conn isTls found.payload found.size found.totalSize
  else do
    Bpf.call (.addSent cid found.totalSize)
    handleWrite slots cid conn isTls found.payload found.size found.totalSize

def traceEnterWrite (slots : Slots) (pid fd : Nat) (isTls : Bool) (source : Source) :
    BpfProg Slots := do
  let conn ← Bpf.lookupConnection ⟨fd, pid⟩
  match conn with
  | none => .ret slots
  | some conn =>
    match source.find slots.iovec with
    | none => .ret slots
    | some found => countWrite slots ⟨fd, pid⟩ conn isTls found

/-! ## Reading -/

def traceEnterRead (id pid : Nat) (args : ReadArgs) : BpfProg Unit := do
  let conn ← Bpf.lookupConnection ⟨args.fd, pid⟩
  match conn with
  | none => .ret ()
  | some _ => Bpf.call (.updateRead id args)

/-- The memory of the process at the end of a read, by address. -/
structure UserMemory where
  bytes : Nat → Memory
  iovecs : Nat → Nat → Option Iovec
  long : Nat → Option Int

/-- What the classifiers of `trace_exit_read` make of a response to a request. -/
structure Match where
  response : Nat
  status : Option Int
  method : Option Method
  statementId : Option Nat
  /-- the request stays in the map -/
  keep : Bool
  markPartial : Bool

def Match.ofAnswer (a : Answer) : Match := ⟨a.response, a.status, none, none, false, false⟩

/-- `found` is the value of `response` when the request was found by its stream id. -/
def matchResponse (req : L7Request) (payload : Memory) (ret totalSize found : Nat) : Match :=
  match req.protocol with
  | .http => .ofAnswer (isHttpResponse payload)
  | .postgres =>
    { Match.ofAnswer (isPostgresResponse payload ret) with
      method := if req.requestType = postgresFrameParse then some .statementPrepare else none }
  | .redis => .ofAnswer (isRedisResponse payload ret)
  | .memcached => .ofAnswer (isMemcachedResponse payload ret)
  | .mysql =>
    let (answer, statementId) := isMysqlResponse payload req.requestType
    { Match.ofAnswer answer with
      method := if req.requestType = mysqlComStmtPrepare then some .statementPrepare else none
      statementId }
  | .mongo =>
    let response := isMongoResponse payload ret req.isPartial
    ⟨response, none, none, none, decide (response = 2), decide (response = 2)⟩
  | .kafka => ⟨isKafkaResponse payload req.requestId, none, none, none, false, false⟩
  | .clickhouse =>
    let answer := isClickhouseResponse payload
    { Match.ofAnswer answer with keep := decide (answer.response = 0) }
  | .zookeeper =>
    let answer := isZkResponse payload totalSize req.isPartial
    { Match.ofAnswer answer with
      keep := decide (answer.response = 2), markPartial := decide (answer.response = 2) }
  | .dubbo2 => .ofAnswer (isDubbo2Response payload)
  | .foundationdb =>
    let answer := isFoundationdbResponse payload ret
    { Match.ofAnswer answer with keep := decide (answer.response = 2) }
  | .unknown | .cassandra | .rabbitmq | .nats | .http2 | .dns =>
    ⟨found, none, none, none, false, false⟩

/-- The part of `trace_exit_read` for a request that was found under `k`. -/
def handleResponse (slots : Slots) (e : L7Event) (cid : ConnectionId) (conn : Connection)
    (k : L7RequestKey) (req : L7Request) (payload : Memory) (ret totalSize found : Nat) :
    BpfProg Slots := do
  let bytes := req.payload.first (truncatePayloadSize req.payloadSize)
  -- `COPY_PAYLOAD` shortens the size in the map
  Bpf.call (.truncateRequest k)
  let m := matchResponse req payload ret totalSize found
  let e := { e with
    protocol := req.protocol, payloadSize := req.payloadSize, payload := e.payload.fill bytes
    status := m.status.getD e.status, method := m.method.getD e.method
    statementId := m.statementId.getD e.statementId }
  if m.keep then
    if m.markPartial then do
      Bpf.call (.markPartial k)
      .ret { slots with event := e }
    else .ret { slots with event := e }
  else do
    Bpf.call (.deleteRequest k)
    if m.response = 0 then .ret { slots with event := e }
    else do
      let now ← Bpf.ktime
      sendEvent slots { e with duration := sub64 now req.ns } cid conn

/-- The part of `trace_exit_read` after the first lookup of the request has failed. -/
def handleUnmatched (slots : Slots) (e : L7Event) (cid : ConnectionId) (conn : Connection)
    (k : L7RequestKey) (payload : Memory) (ret totalSize : Nat) : BpfProg Slots :=
  match isDnsResponse payload ret with
  | some (streamId, status) => do
    let k := { k with streamId }
    let e := { e with status }
    let req ← Bpf.lookupRequest k
    match req with
    | none => .ret { slots with event := e }
    | some req => do
      let now ← Bpf.ktime
      let slots ← sendPayload slots { e with protocol := .dns, duration := sub64 now req.ns }
        payload ret cid conn
      match probeRead payload 0 (truncatePayloadSize ret) with
      | none => .ret slots
      | some _ => do
        Bpf.call (.deleteRequest k)
        .ret slots
  | none =>
    match isCassandraResponse payload ret with
    | some (streamId, status) => do
      let k := { k with streamId }
      let e := { e with status }
      let req ← Bpf.lookupRequest k
      match req with
      | none => .ret { slots with event := e }
      | some req => handleResponse slots e cid conn k req payload ret totalSize 1
    | none =>
      if looksLikeHttp2Frame payload ret .http2ServerFrames then do
        let now ← Bpf.ktime
        sendPayload slots
          { e with protocol := .http2, method := .http2ServerFrames, duration := now }
          payload ret cid conn
      else .ret { slots with event := e }

/-- The part of `trace_exit_read` after the payload is found. -/
def handleRead (slots : Slots) (cid : ConnectionId) (conn : Connection) (isTls : Bool)
    (payload : Memory) (ret totalSize : Nat) : BpfProg Slots :=
  let e := { slots.event with
    protocol := .unknown, status := statusUnknown, method := .unknown, statementId := 0
    payloadSize := 0 }
  if isRabbitmqConsume payload ret then
    sendEvent slots { e with protocol := .rabbitmq, method := .consume } cid conn
  else if natsMethod payload ret = .consume then
    sendEvent slots { e with protocol := .nats, method := .consume } cid conn
  else do
    let k : L7RequestKey := ⟨cid.fd, cid.pid, isTls, -1⟩
    let req ← Bpf.lookupRequest k
    match req with
    | some req => handleResponse slots e cid conn k req payload ret totalSize 0
    | none => handleUnmatched slots e cid conn k payload ret totalSize

/-- The result of the call: `SSL_read_ex` leaves it in memory. -/
def readResult (user : UserMemory) (args : ReadArgs) (ret : Int) : Option Nat :=
  if ret ≤ 0 then none
  else
    match args.ret with
    | none => some ret.toNat
    | some ptr =>
      match user.long ptr with
      | none => none
      | some ret => if ret ≤ 0 then none else some ret.toNat

def UserMemory.find (user : UserMemory) (args : ReadArgs) (ret : Nat) (iovec : Memory) :
    Option Found :=
  if args.iovlen = 0 then some ⟨user.bytes args.buf, ret, ret, iovec⟩
  else
    (readIovec ((List.range args.iovlen).map (user.iovecs args.buf)) ret iovec).map Found.ofIovecs

/-- The part of `trace_exit_read` that counts the bytes of the connection. -/
def countRead (slots : Slots) (cid : ConnectionId) (conn : Connection) (isTls : Bool)
    (found : Found) : BpfProg Slots :=
  let slots := { slots with iovec := found.iovec }
  if found.size = 0 then .ret slots
  else if isTls then
    handleRead slots cid conn isTls found.payload found.size found.totalSize
  else do
    Bpf.call (.addReceived cid found.totalSize)
    handleRead slots cid conn isTls found.payload found.size found.totalSize

def traceExitRead (slots : Slots) (user : UserMemory) (id pid : Nat) (isTls : Bool) (ret : Int) :
    BpfProg Slots := do
  let args ← Bpf.lookupRead id
  match args with
  | none => .ret slots
  | some args => do
    let conn ← Bpf.lookupConnection ⟨args.fd, pid⟩
    Bpf.call (.deleteRead id)
    match conn with
    | none => .ret slots
    | some conn =>
      match readResult user args ret with
      | none => .ret slots
      | some ret =>
        match user.find args ret slots.iovec with
        | none => .ret slots
        | some found => countRead slots ⟨args.fd, pid⟩ conn isTls found

/-! ## Connections -/

inductive TcpState where
  | close
  | synSent
  | established
  | finWait1
  | closeWait
  | listen
  | other
  deriving DecidableEq

/-- The part of `inet_sock_set_state` for a connection that the thread opens. -/
def openSocket (id pid socket : Nat) : BpfProg Unit := do
  let fd ← Bpf.lookupFd id
  match fd with
  | none => .ret ()
  | some fd => do
    let now ← Bpf.ktime
    Bpf.call (.deleteFd id)
    Bpf.call (.updateSocket socket ⟨fd, pid⟩)
    Bpf.call (.updateConnection ⟨fd, pid⟩ ⟨now, 0, 0⟩)

/-- The part of `inet_sock_set_state` for a connection that is established or fails. -/
def settleSocket (socket : Nat) (newState : TcpState) : BpfProg Unit := do
  let cid ← Bpf.lookupSocket socket
  match cid with
  | none => .ret ()
  | some cid => do
    let conn ← Bpf.lookupConnection cid
    match conn with
    | none => .ret ()
    | some conn =>
      match newState with
      | .established => do
        let now ← Bpf.ktime
        Bpf.call (.sendTcp ⟨.connectionOpen, cid.fd, cid.pid, conn.timestamp,
          sub64 now conn.timestamp, 0, 0⟩)
      | .close => do
        Bpf.call (.deleteSocket socket)
        Bpf.call (.deleteConnection cid)
        let now ← Bpf.ktime
        Bpf.call (.sendTcp ⟨.connectionError, cid.fd, cid.pid, 0, sub64 now conn.timestamp, 0, 0⟩)
      | _ => .ret ()

def inetSockSetState (id pid socket : Nat) (oldState newState : TcpState) : BpfProg Unit :=
  match oldState, newState with
  | .close, .synSent => openSocket id pid socket
  | .synSent, _ => settleSocket socket newState
  | .established, .finWait1 | .established, .closeWait => Bpf.call (.deleteSocket socket)
  | .close, .listen => Bpf.call (.sendTcp ⟨.listenOpen, 0, pid, 0, 0, 0, 0⟩)
  | .listen, .close => Bpf.call (.sendTcp ⟨.listenClose, 0, pid, 0, 0, 0, 0⟩)
  | _, _ => .ret ()

def sysEnterConnect (id fd : Nat) : BpfProg Unit := Bpf.call (.updateFd id fd)

/-- The end of `sys_exit_connect`. -/
def forgetRequests (id : Nat) (cid : ConnectionId) : BpfProg Unit := do
  Bpf.call (.deleteRequest ⟨cid.fd, cid.pid, false, -1⟩)
  Bpf.call (.deleteRequest ⟨cid.fd, cid.pid, true, -1⟩)
  Bpf.call (.deleteFd id)

def sysExitConnect (id pid : Nat) (ret : Int) : BpfProg Unit := do
  let fd ← Bpf.lookupFd id
  match fd with
  | none => .ret ()
  | some fd => do
    let cid : ConnectionId := ⟨fd, pid⟩
    let conn ← Bpf.lookupConnection cid
    if conn = none ∧ ret = 0 then do
      let now ← Bpf.ktime
      Bpf.call (.updateConnection cid ⟨now, 0, 0⟩)
      forgetRequests id cid
    else forgetRequests id cid

def sysEnterClose (pid fd : Nat) : BpfProg Unit := do
  let cid : ConnectionId := ⟨fd, pid⟩
  let conn ← Bpf.lookupConnection cid
  match conn with
  | none => .ret ()
  | some conn => do
    Bpf.call (.sendTcp ⟨.connectionClose, fd, pid, conn.timestamp, 0, conn.bytesSent,
      conn.bytesReceived⟩)
    Bpf.call (.deleteConnection cid)

/-! ## All handlers -/

/-- A call of the kernel that the tracer handles, with the data it has. `id` is the thread. -/
inductive Handler where
  | enterWrite (pid fd : Nat) (isTls : Bool) (source : Source)
  | enterRead (id pid : Nat) (args : ReadArgs)
  | exitRead (user : UserMemory) (id pid : Nat) (isTls : Bool) (ret : Int)
  | enterConnect (id fd : Nat)
  | exitConnect (id pid : Nat) (ret : Int)
  | setState (id pid socket : Nat) (oldState newState : TcpState)
  | enterClose (pid fd : Nat)

def Handler.prog (slots : Slots) : Handler → BpfProg Slots
  | .enterWrite pid fd isTls source => traceEnterWrite slots pid fd isTls source
  | .enterRead id pid args => do traceEnterRead id pid args; .ret slots
  | .exitRead user id pid isTls ret => traceExitRead slots user id pid isTls ret
  | .enterConnect id fd => do sysEnterConnect id fd; .ret slots
  | .exitConnect id pid ret => do sysExitConnect id pid ret; .ret slots
  | .setState id pid socket oldState newState => do
    inetSockSetState id pid socket oldState newState
    .ret slots
  | .enterClose pid fd => do sysEnterClose pid fd; .ret slots

end Ebpf
