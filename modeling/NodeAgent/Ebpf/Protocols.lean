import NodeAgent.Ebpf.Memory

/-!
# Protocol classifiers (`ebpftracer/ebpf/l7/*.c`)

The functions that recognise a request or a response by its first bytes, one section for each
source file. `buf` is the memory at the payload: a classifier may read past the end of the message.

A classifier returns 0 where a read fails, and it returns what it writes through its pointers. An
`Option` result is `none` where the pointer is not written to.
-/

namespace Ebpf

open Infra

inductive Protocol where
  | unknown
  | http
  | postgres
  | redis
  | memcached
  | mysql
  | mongo
  | kafka
  | cassandra
  | rabbitmq
  | nats
  | http2
  | dubbo2
  | dns
  | clickhouse
  | zookeeper
  | foundationdb
  deriving DecidableEq

inductive Method where
  | unknown
  | produce
  | consume
  | statementPrepare
  | statementClose
  | http2ClientFrames
  | http2ServerFrames
  deriving DecidableEq

def statusUnknown : Int := 0
def statusOk : Int := 200
def statusFailed : Int := 500

/-- What the classifier of a response returns, and what it has written to `*status`. -/
structure Answer where
  response : Nat
  status : Option Int
  deriving DecidableEq

namespace Answer

/-- `return 0` -/
def no : Answer := ⟨0, none⟩

/-- `*status = STATUS_OK; return 1` -/
def ok : Answer := ⟨1, some statusOk⟩

/-- `*status = STATUS_FAILED; return 1` -/
def failed : Answer := ⟨1, some statusFailed⟩

/-- `return 2`, the answer is not complete -/
def partialRead : Answer := ⟨2, none⟩

end Answer

/-! ## `http.c` -/

def isHttpRequest (buf : Memory) : Bool :=
  match probeReadStr16 buf with
  | none => false
  | some b =>
    ["GET", "POST", "HEAD", "PUT", "DELETE", "CONNECT", "OPTIONS", "PATCH"].any
      (fun m => hasPrefix b (ascii m))

def isHttpResponse (buf : Memory) : Answer :=
  match probeReadStr16 buf with
  | none => .no
  | some b =>
    if !hasPrefix b (ascii "HTTP/") then .no
    else if !isDigit (byte b 5) then .no
    else if byte b 6 ≠ 46 then .no
    else if !isDigit (byte b 7) then .no
    else if byte b 8 ≠ 32 then .no
    else if !isDigit (byte b 9) || !isDigit (byte b 10) || !isDigit (byte b 11) then .no
    else
      let digit := fun i => ((byte b i).toNat : Int) - 48
      ⟨1, some (digit 9 * 100 + digit 10 * 10 + digit 11)⟩

/-! ## `postgres.c` -/

def postgresFrameParse : UInt8 := 80
def postgresFrameClose : UInt8 := 67

/-- The second component is what was written to `*request_type`. -/
def isPostgresQuery (buf : Memory) (bufSize : Nat) : Bool × Option UInt8 :=
  if bufSize < 5 then (false, none)
  else
    bpfRead (false, none) buf 0 1 fun cmd =>
    bpfRead (false, none) buf 1 4 fun len =>
      let fCmd := byte cmd 0
      let fLength := signed 32 (big len)
      if (fCmd = 81 ∨ fCmd = postgresFrameClose) ∧ toU64 (fLength + 1) = bufSize then
        (true, some fCmd)
      else
        bpfRead (false, some fCmd) buf (truncatePayloadSize bufSize - 5) 5 fun sync =>
          (decide (sync = [83, 0, 0, 0, 4]), some fCmd)

/-- What the command of a message says about the request. -/
def postgresAnswer (cmd : UInt8) : Answer :=
  if cmd = 69 then .failed
  else if cmd = 116 ∨ cmd = 84 ∨ cmd = 68 ∨ cmd = 67 then .ok
  else .no

def isPostgresResponse (buf : Memory) (bufSize : Nat) : Answer :=
  bpfRead .no buf 0 1 fun cmd =>
  bpfRead .no buf 1 4 fun len =>
    let length := signed 32 (big len)
    if toU64 (length + 1) > bufSize then .no
    else if (byte cmd 0 = 49 ∨ byte cmd 0 = 50) ∧ length = 4 ∧ bufSize ≥ 10 then
      bpfRead .no buf 5 1 fun cmd =>
      bpfRead .no buf 6 4 fun _ => postgresAnswer (byte cmd 0)
    else postgresAnswer (byte cmd 0)

/-! ## `redis.c` -/

def isRedisQuery (buf : Memory) (bufSize : Nat) : Bool :=
  if bufSize < 5 then false
  else
    bpfRead false buf 0 5 fun b =>
      if byte b 0 ≠ 42 || !isDigit (byte b 1) then false
      else if byte b 2 = 13 ∧ byte b 3 = 10 then true
      else decide (isDigit (byte b 2) = true ∧ byte b 3 = 13 ∧ byte b 4 = 10)

/-- The text ends in CRLF, as far as it is looked at. -/
def endsInCRLF {α : Type} (no : α) (buf : Memory) (bufSize : Nat) (k : α) : α :=
  bpfRead no buf ((truncatePayloadSize bufSize : Int) - 2) 2 fun tail =>
    if tail ≠ [13, 10] then no else k

def isRedisResponse (buf : Memory) (bufSize : Nat) : Answer :=
  bpfRead .no buf 0 1 fun b =>
  endsInCRLF .no buf bufSize (
    if byte b 0 = 42 ∨ byte b 0 = 58 ∨ byte b 0 = 36 ∨ byte b 0 = 43 then .ok
    else if byte b 0 = 45 then .failed
    else .no)

/-! ## `memcached.c` -/

def memcachedCommands : List String :=
  ["set ", "add ", "cas ", "get ", "gets", "gat ", "gats", "incr ", "decr ", "touch ", "delete ",
    "append ", "prepend", "replace"]

def isMemcachedQuery (buf : Memory) (bufSize : Nat) : Bool :=
  if bufSize < 9 then false
  else
    bpfRead false buf 0 7 fun b =>
    endsInCRLF false buf bufSize (memcachedCommands.any (fun c => hasPrefix b (ascii c)))

def isMemcachedResponse (buf : Memory) (bufSize : Nat) : Answer :=
  bpfRead .no buf 0 3 fun r =>
  endsInCRLF .no buf bufSize (
    if ["VAL", "STO", "DEL", "TOC", "NOT", "EXI"].any (fun c => r = ascii c) then .ok
    else if ["ERR", "CLI", "SER"].any (fun c => r = ascii c) then .failed
    else if isDigit (byte r 0) then .ok
    else .no)

/-! ## `mysql.c` -/

def mysqlComStmtPrepare : UInt8 := 0x16
def mysqlComStmtClose : UInt8 := 0x19

/-- The second component is what was written to `*request_type`. -/
def isMysqlQuery (buf : Memory) (bufSize : Nat) : Bool × Option UInt8 :=
  if bufSize < 5 then (false, none)
  else
    bpfRead (false, none) buf 0 5 fun b =>
      if little (b.take 3) + 4 ≠ bufSize ∨ byte b 3 ≠ 0 then (false, none)
      else if byte b 4 = 3 ∨ byte b 4 = 0x17 then (true, none)
      else if byte b 4 = mysqlComStmtClose then (true, some mysqlComStmtClose)
      else if byte b 4 = mysqlComStmtPrepare then (true, some mysqlComStmtPrepare)
      else (false, none)

/-- The second component is what was written to `*statement_id`. -/
def isMysqlResponse (buf : Memory) (requestType : UInt8) : Answer × Option Nat :=
  bpfRead (.no, none) buf 0 5 fun b =>
    if byte b 3 < 1 then (.no, none)
    else if little (b.take 3) = 1 ∨ byte b 4 = 0xfe then (.ok, none)
    else if byte b 4 = 0 then
      if requestType = mysqlComStmtPrepare then
        bpfRead (.no, none) buf 5 4 fun id => (.ok, some (little id))
      else (.ok, none)
    else if byte b 4 = 0xff then (.failed, none)
    else (.no, none)

/-! ## `mongo.c` -/

def isMongoOp (opCode : Int) : Bool := opCode = 2013 || opCode = 2012

def isMongoQuery (buf : Memory) (bufSize : Nat) : Bool :=
  if bufSize < 16 then false
  else
    bpfRead false buf 0 16 fun h =>
      signed 32 (little ((h.drop 8).take 4)) = 0 && isMongoOp (signed 32 (little (h.drop 12)))

def mongoAnswer (responseTo opCode : Int) : Nat :=
  if responseTo = 0 then 0 else if isMongoOp opCode then 1 else 0

def isMongoResponse (buf : Memory) (bufSize : Nat) (isPartial : Bool) : Nat :=
  if !isPartial && bufSize = 4 then 2
  else if isPartial then
    bpfRead 0 buf 4 4 fun responseTo =>
    bpfRead 0 buf 8 4 fun opCode =>
      mongoAnswer (signed 32 (little responseTo)) (signed 32 (little opCode))
  else
    bpfRead 0 buf 0 16 fun h =>
      mongoAnswer (signed 32 (little ((h.drop 8).take 4))) (signed 32 (little (h.drop 12)))

/-! ## `kafka.c` -/

def isKafkaRequest (buf : Memory) (bufSize : Nat) : Option Int :=
  if bufSize < 12 then none
  else
    bpfRead none buf 0 12 fun h =>
      let length := signed 32 (big (h.take 4))
      let apiKey := signed 16 (big ((h.drop 4).take 2))
      let correlationId := signed 32 (big (h.drop 8))
      if toU64 (length + 4) ≠ bufSize then none
      else if correlationId > 0 ∧ apiKey ≥ 0 ∧ apiKey ≤ 67 then some correlationId
      else none

def isKafkaResponse (buf : Memory) (requestId : Int) : Nat :=
  bpfRead 0 buf 0 8 fun h => if signed 32 (big (h.drop 4)) = requestId then 1 else 0

/-! ## `cassandra.c` -/

def isCassandraRequest (buf : Memory) (bufSize : Nat) : Option Int :=
  if bufSize < 6 then none
  else
    bpfRead none buf 0 6 fun h =>
      if byte h 0 ≠ 0x04 then none
      else if byte h 4 = 0x07 ∨ byte h 4 = 0x0a ∨ byte h 4 = 0x0d then
        some (signed 16 (little ((h.drop 2).take 2)))
      else none

def isCassandraResponse (buf : Memory) (bufSize : Nat) : Option (Int × Int) :=
  if bufSize < 6 then none
  else
    bpfRead none buf 0 6 fun h =>
      let streamId := signed 16 (little ((h.drop 2).take 2))
      if byte h 0 ≠ 0x84 then none
      else if byte h 4 = 0x08 then some (streamId, statusOk)
      else if byte h 4 = 0x00 then some (streamId, statusFailed)
      else none

/-! ## `rabbitmq.c` -/

def rabbitmqMethodIs (buf : Memory) (bufSize expectedMethod : Nat) : Bool :=
  if bufSize < 12 then false
  else
    bpfRead false buf 0 1 fun type =>
      if byte type 0 ≠ 1 then false
      else
        bpfRead false buf 3 4 fun size =>
          -- `7 + size + 1` is computed in 32 bits
          if (7 + big size + 1) % 2 ^ 32 > bufSize then false
          else
            bpfRead false buf (7 + truncatePayloadSize (big size)) 1 fun last =>
              if byte last 0 ≠ 0xce then false
              else
                bpfRead false buf 7 2 fun cls =>
                  if big cls ≠ 60 then false
                  else bpfRead false buf 9 2 fun method => decide (big method = expectedMethod)

def isRabbitmqProduce (buf : Memory) (bufSize : Nat) : Bool := rabbitmqMethodIs buf bufSize 40

def isRabbitmqConsume (buf : Memory) (bufSize : Nat) : Bool := rabbitmqMethodIs buf bufSize 60

/-! ## `nats.c` -/

def natsMethod (buf : Memory) (bufSize : Nat) : Method :=
  if bufSize < 7 then .unknown
  else
    bpfRead .unknown buf 0 5 fun b =>
    endsInCRLF .unknown buf bufSize (
      if ["PUB ", "PUB\t", "HPUB ", "HPUB\t"].any (fun m => hasPrefix b (ascii m)) then .produce
      else if ["MSG ", "MSG\t", "HMSG ", "HMSG\t"].any (fun m => hasPrefix b (ascii m)) then
        .consume
      else .unknown)

/-! ## `http2.c` -/

def isClientPreface (buf : Memory) (size : Nat) (method : Method) : Bool :=
  if method ≠ .http2ClientFrames ∨ size < 24 then false
  else bpfRead false buf 0 5 fun b => decide (b = ascii "PRI *")

def looksLikeHttp2Frame (buf : Memory) (size : Nat) (method : Method) : Bool :=
  bpfRead false buf 0 4 fun len =>
    if big len / 256 + 9 > size then isClientPreface buf size method
    else
      bpfRead false buf 3 1 fun frameType =>
        if byte frameType 0 > 0x9 then isClientPreface buf size method
        else
          bpfRead false buf 5 4 fun streamId =>
            -- the lowest bit of the last byte: a stream that the client has opened
            if byte streamId 3 &&& 1 = 0 then
              decide (method = .http2ServerFrames ∧ byte frameType 0 = 0x4 ∧ little streamId = 0)
            else true

/-! ## `dubbo2.c` -/

def isDubbo2Request (buf : Memory) (bufSize : Nat) : Bool :=
  if bufSize < 16 then false
  else
    bpfRead false buf 0 16 fun b =>
      if byte b 0 ≠ 0xda ∨ byte b 1 ≠ 0xbb then false
      else decide (byte b 2 &&& 0x1f ≠ 0 ∧ byte b 2 &&& 0x80 ≠ 0 ∧ byte b 2 &&& 0x40 ≠ 0 ∧
        byte b 2 &&& 0x20 = 0)

def isDubbo2Response (buf : Memory) : Answer :=
  bpfRead .no buf 0 16 fun b =>
    if byte b 0 ≠ 0xda ∨ byte b 1 ≠ 0xbb then .no
    else if byte b 2 &&& 0x1f = 0 ∨ byte b 2 &&& 0x80 ≠ 0 ∨ byte b 2 &&& 0x20 ≠ 0 then .no
    else if byte b 3 = 20 then .ok
    else if byte b 3 ∈ ([30, 31, 40, 90, 60, 50, 70, 80, 100] : List UInt8) then .failed
    else ⟨1, some statusUnknown⟩

/-! ## `dns.c` -/

def isDnsRequest (buf : Memory) (bufSize : Nat) : Option Int :=
  if bufSize < 6 then none
  else
    bpfRead none buf 0 6 fun h =>
      if byte h 2 &&& 0x80 ≠ 0 then none
      else if byte h 2 &&& 0x78 ≠ 0 then none
      else if signed 16 (big (h.drop 4)) ≠ 1 then none
      else some (signed 16 (little (h.take 2)))

def isDnsResponse (buf : Memory) (bufSize : Nat) : Option (Int × Int) :=
  if bufSize < 6 then none
  else
    bpfRead none buf 0 6 fun h =>
      if byte h 2 &&& 0x80 = 0 then none
      else if byte h 2 &&& 0x78 ≠ 0 then none
      else if signed 16 (big (h.drop 4)) ≠ 1 then none
      else some (signed 16 (little (h.take 2)), ((byte h 3 &&& 0x0f).toNat : Int))

/-! ## `clickhouse.c` -/

def isClickhouseQuery (buf : Memory) : Bool :=
  bpfRead false buf 0 39 fun b =>
    if byte b 0 ≠ 1 then false
    else if byte b 1 = 0 then decide (byte b 2 = 1 ∨ byte b 2 = 2)
    else if byte b 1 = 36 then decide (byte b 38 = 1 ∨ byte b 38 = 2)
    else false

def isClickhouseResponse (buf : Memory) : Answer :=
  bpfRead .no buf 0 1 fun code =>
    if byte code 0 = 1 ∨ byte code 0 = 5 then .ok
    else if byte code 0 = 2 then .failed
    else .no

/-! ## `zookeeper.c` -/

def isZkXid (xid : Int) : Bool := !(decide (xid < 0 ∧ xid ≠ -1 ∧ xid ≠ -2))

def isZkRequest (buf : Memory) (bufSize : Nat) : Bool :=
  bpfRead false buf 0 12 fun req =>
    let op := signed 32 (big (req.drop 8))
    if (big (req.take 4) + 4) % 2 ^ 32 ≠ bufSize then false
    else if !isZkXid (signed 32 (big ((req.drop 4).take 4))) then false
    else if 0 ≤ op ∧ op ≤ 19 then true
    else decide (op = 21 ∨ op = -11 ∨ op = 100 ∨ op = 101 ∨ op = -1)

/-- The end of `is_zk_response`. -/
def zkAnswer (xid errCode : Bytes) : Answer :=
  let status := signed 32 (big errCode)
  if !isZkXid (signed 32 (big xid)) then .no
  else if status > 0 ∨ status < -123 then ⟨0, some status⟩
  else ⟨1, some status⟩

def isZkResponse (buf : Memory) (bufSize : Nat) (isPartial : Bool) : Answer :=
  if !isPartial && bufSize = 4 then .partialRead
  else if isPartial then
    bpfRead .no buf 0 4 fun xid =>
    bpfRead .no buf 12 4 fun errCode => zkAnswer xid errCode
  else
    bpfRead .no buf 0 24 fun resp =>
      if (big (resp.take 4) + 4) % 2 ^ 32 ≠ bufSize then .no
      else zkAnswer ((resp.drop 4).take 4) ((resp.drop 16).take 4)

/-! ## `foundationdb.c` -/

/-- The file identifiers of requests and interfaces, in the order of `is_known_fdb_operation`. -/
def fdbOperations : List Nat :=
  [8454530, 6795746, 6795747, 93948, 838566, 7554186, 8500026, 10457870, 14747733, 214728,
    2828131, 9144680, 9467439, 9467438, 14332605, 1254174, 905920, 16665642, 8265613, 10344153,
    15604392, 6416816, 4022206, 11001131, 10072821, 13290999, 14419140, 4707015, 10624019,
    4146513, 72435, 5838547, 2567474, 1985879, 4149140, 4150141, 2508597, 905381, 4844288,
    7932681, 4980139, 4180191, 2378138, 923040, 103841, 178935, 601281, 3104275, 2323417,
    15302073, 8743216, 8954922, 5979145, 5983305, 12383874, 16308510, 1755944, 8358753, 369169,
    1303419, 4983265, 14712718, 15888863, 985636]

/-- The file identifiers of replies, in the order of `is_known_reply_file_id`. -/
def fdbReplies : List Nat :=
  [1378929, 1783066, 1783067, 11226513, 15709388, 1389929, 3, 11, 11365689, 10072848, 15491478,
    10390645, 15877089, 3568822, 9467439, 9980504, 9956350, 16475696, 14465374, 3152015, 9908409,
    6095215, 6858612, 2923309, 6857512, 12680327, 10636023, 2034110, 2934851, 234859, 4014928,
    11544290, 11530792, 7784298, 7784299, 14254927, 3985192, 5355080, 13838807, 16684234, 2010442]

def isKnownFdbOperation (fileId : Nat) : Bool := fdbOperations.contains fileId

/-- The lower 24 bits name the reply. -/
def isKnownReplyFileId (fileId : Nat) : Bool := fdbReplies.contains (fileId % 2 ^ 24)

def isFoundationdbConnectPacket (payload : Memory) : Bool :=
  bpfRead false payload 10 2 fun magic => decide (little magic = 0x1fdb)

/-- The file identifier lies at 32 without TLS and at 24 with it. A read that fails here does not
end the function. -/
def parseFdbPacket (packet : Memory) (start : Int) (isRequest : Bool) : Bool :=
  let known := fun (id : Bytes) =>
    if isRequest then isKnownFdbOperation (little id) else isKnownReplyFileId (little id)
  bpfRead false packet (start + 32) 4 known || bpfRead false packet (start + 24) 4 known

def isFoundationdbRequest (payload : Memory) (size : Nat) : Bool :=
  if isFoundationdbConnectPacket payload then
    bpfRead false payload 0 4 fun len =>
      let actual := (little len + 4) % 2 ^ 32
      if size = actual then false
      else if size > actual then parseFdbPacket payload actual true
      else false
  else parseFdbPacket payload 0 true

def isFoundationdbResponse (payload : Memory) (size : Nat) : Answer :=
  let parsed := fun (start : Int) =>
    Answer.mk (if parseFdbPacket payload start false then 1 else 0) (some statusOk)
  if isFoundationdbConnectPacket payload then
    bpfRead ⟨0, some statusOk⟩ payload 0 4 fun len =>
      let actual := (little len + 4) % 2 ^ 32
      if size > actual then parsed actual else ⟨2, some statusOk⟩
  else parsed 0

end Ebpf
