import NodeAgent.Ebpf.Tracer

/-!
# The commands of MySQL

`is_postgres_query` runs before `is_mysql_query` and leaves the first byte of the payload, the low
byte of the length of a MySQL packet, in `req->request_type`. `is_mysql_query` does not set it for a
query or an execution, so one of the wrong length is taken for a statement that is closed, or is
stored as one that is prepared.

* `mysql_classified_iff` — the command byte decides if and only if the length is not one of the two
-/

namespace Ebpf

open Infra Prog

variable {payload : Memory} {size : Nat} {b : Bytes}

/-- The payload gets through the chain of `trace_enter_write` to `is_mysql_query`, and passes. -/
structure ReachesMysql (payload : Memory) (size : Nat) : Prop where
  http : isHttpRequest payload = false
  postgres : (isPostgresQuery payload size).1 = false
  redis : isRedisQuery payload size = false
  memcached : isMemcachedQuery payload size = false
  mysql : (isMysqlQuery payload size).1 = true

/-- The fifth byte. -/
def mysqlCommand (payload : Memory) : UInt8 := (payload 4).getD 0

/-- `COM_QUERY` or `COM_STMT_EXECUTE` -/
def RunsQuery (payload : Memory) : Prop := mysqlCommand payload = 3 ∨ mysqlCommand payload = 0x17

instance : Decidable (RunsQuery payload) := inferInstanceAs (Decidable (_ ∨ _))

/-- The value of `req->request_type` when the chain has been run. -/
def Decision.requestType : Decision → UInt8
  | .unknown requestType => requestType
  | .closeStatement _ requestType => requestType
  | .produce _ requestType => requestType
  | .http2Frames requestType => requestType
  | .request _ requestType _ _ => requestType

/-! ## The bytes that are read -/

theorem byte_of_probeRead {offset : Int} (h : probeRead payload offset size = some b) {i : Nat}
    (hi : i < size) : (payload (offset + i)).getD 0 = byte b i := by
  rw [(probeRead_eq_some.mp h).2 i hi, byte, List.getD_eq_getElem?_getD]

theorem probeRead_part {start n : Nat} (h : probeRead payload 0 size = some b)
    (hpart : start + n ≤ size) : probeRead payload start n = some ((b.drop start).take n) := by
  obtain ⟨hlength, hbytes⟩ := probeRead_eq_some.mp h
  refine probeRead_eq_some.mpr ⟨?_, fun i hi => ?_⟩
  · rw [List.length_take, List.length_drop]
    omega
  · have hbyte := hbytes (start + i) (by omega)
    rw [List.getElem?_take, if_pos hi, List.getElem?_drop, ← hbyte]
    congr 1
    omega

theorem isPostgresQuery_writes (hsize : 5 ≤ size) (h : probeRead payload 0 5 = some b) :
    (isPostgresQuery payload size).2 = some (byte b 0) := by
  have hcmd : probeRead payload 0 1 = some ((b.drop 0).take 1) :=
    @probeRead_part payload 5 b 0 1 h (by omega)
  have hlen : probeRead payload 1 4 = some ((b.drop 1).take 4) :=
    @probeRead_part payload 5 b 1 4 h (by omega)
  have hfirst : byte ((b.drop 0).take 1) 0 = byte b 0 := by
    rw [byte, byte, List.getD_eq_getElem?_getD, List.getD_eq_getElem?_getD, List.getElem?_take,
      if_pos Nat.zero_lt_one, List.drop_zero]
  unfold isPostgresQuery bpfRead
  rw [if_neg (Nat.not_lt.mpr hsize), hcmd, hlen]
  simp only [hfirst]
  split
  · rfl
  · split <;> rfl

/-- What `is_mysql_query` has read of a payload that it accepts. -/
structure MysqlPacket (payload : Memory) (size : Nat) (b : Bytes) : Prop where
  enough : 5 ≤ size
  read : probeRead payload 0 5 = some b
  length : little (b.take 3) + 4 = size
  written : (isMysqlQuery payload size).2 =
    if RunsQuery payload then none else some (mysqlCommand payload)
  command : RunsQuery payload ∨ mysqlCommand payload = mysqlComStmtClose ∨
    mysqlCommand payload = mysqlComStmtPrepare

theorem isMysqlQuery_accepted (h : (isMysqlQuery payload size).1 = true) :
    ∃ b, MysqlPacket payload size b := by
  by_cases hsize : size < 5
  · rw [isMysqlQuery, if_pos hsize] at h
    cases h
  cases hread : probeRead payload 0 5 with
  | none =>
    rw [isMysqlQuery, if_neg hsize, bpfRead, hread] at h
    cases h
  | some b =>
    have hcommand : mysqlCommand payload = byte b 4 := byte_of_probeRead (i := 4) hread (by omega)
    have hquery : RunsQuery payload ↔ byte b 4 = 3 ∨ byte b 4 = 0x17 := by
      rw [RunsQuery, hcommand]
    have hresult : isMysqlQuery payload size =
        if little (b.take 3) + 4 ≠ size ∨ byte b 3 ≠ 0 then (false, none)
        else if byte b 4 = 3 ∨ byte b 4 = 0x17 then (true, none)
        else if byte b 4 = mysqlComStmtClose then (true, some mysqlComStmtClose)
        else if byte b 4 = mysqlComStmtPrepare then (true, some mysqlComStmtPrepare)
        else (false, none) := by
      rw [isMysqlQuery, if_neg hsize, bpfRead, hread]
    have hheader : ¬ (little (b.take 3) + 4 ≠ size ∨ byte b 3 ≠ 0) := by
      intro hbad
      rw [hresult, if_pos hbad] at h
      cases h
    rw [if_neg hheader] at hresult
    refine ⟨b, Nat.not_lt.mp hsize, hread, not_not.mp (not_or.mp hheader).1, ?_, ?_⟩
    · rw [hcommand]
      by_cases hruns : byte b 4 = 3 ∨ byte b 4 = 0x17
      · rw [hresult, if_pos hruns, if_pos (hquery.mpr hruns)]
      · rw [if_neg hruns] at hresult
        rw [if_neg (fun hq => hruns (hquery.mp hq)), hresult]
        by_cases hclose : byte b 4 = mysqlComStmtClose
        · rw [if_pos hclose, hclose]
        · by_cases hprepare : byte b 4 = mysqlComStmtPrepare
          · rw [if_neg hclose, if_pos hprepare, hprepare]
          · rw [hresult, if_neg hclose, if_neg hprepare] at h
            cases h
    · rw [hcommand, hquery]
      by_contra hnone
      obtain ⟨hruns, hother⟩ := not_or.mp hnone
      obtain ⟨hclose, hprepare⟩ := not_or.mp hother
      rw [hresult, if_neg hruns, if_neg hclose, if_neg hprepare] at h
      cases h

theorem MysqlPacket.first_byte (h : MysqlPacket payload size b) :
    (byte b 0).toNat = (size - 4) % 256 := by
  have hlength := (probeRead_eq_some.mp h.read).1
  have hpacket := h.length
  cases b with
  | nil => cases hlength
  | cons x rest =>
    have hlow : little ((x :: rest).take 3) = x.toNat + 256 * little (rest.take 2) := rfl
    have hx := x.toNat_lt
    show x.toNat = _
    omega

/-! ## The chain -/

/-- What is in `req->request_type` when a payload has passed `is_mysql_query`. -/
def mysqlRequestType (payload : Memory) : UInt8 :=
  if RunsQuery payload then (payload 0).getD 0 else mysqlCommand payload

/-- **What an earlier request left in the slot does not matter, and what `is_postgres_query` wrote
does.** -/
theorem classifyWrite_mysql (h : ReachesMysql payload size) (requestType : UInt8)
    (totalSize : Nat) : classifyWrite requestType payload size totalSize =
      if mysqlRequestType payload = mysqlComStmtClose then
        .closeStatement .mysql (mysqlRequestType payload)
      else .request .mysql (mysqlRequestType payload) 0 (-1) := by
  obtain ⟨b, hb⟩ := isMysqlQuery_accepted h.mysql
  have hpostgres : isPostgresQuery payload size = (false, some (byte b 0)) :=
    Prod.ext h.postgres (isPostgresQuery_writes hb.enough hb.read)
  have hmysql : isMysqlQuery payload size =
      (true, if RunsQuery payload then none else some (mysqlCommand payload)) :=
    Prod.ext h.mysql hb.written
  have htype : (if RunsQuery payload then none else some (mysqlCommand payload) :
      Option UInt8).getD (byte b 0) = mysqlRequestType payload := by
    have hfirst : (payload 0).getD 0 = byte b 0 := byte_of_probeRead (i := 0) hb.read (by omega)
    rw [mysqlRequestType, hfirst]
    split <;> rfl
  unfold classifyWrite
  rw [h.http, hpostgres, h.redis, h.memcached, hmysql]
  simp only [Option.getD_some, htype]
  rfl

theorem requestType_mysql (h : ReachesMysql payload size) (requestType : UInt8) (totalSize : Nat) :
    (classifyWrite requestType payload size totalSize).requestType = mysqlRequestType payload := by
  rw [classifyWrite_mysql h]
  split <;> rfl

theorem mysqlRequestType_eq (h : ReachesMysql payload size) :
    (RunsQuery payload → (mysqlRequestType payload = mysqlComStmtClose ↔ size % 256 = 29) ∧
      (mysqlRequestType payload = mysqlComStmtPrepare ↔ size % 256 = 26)) ∧
    (¬ RunsQuery payload → mysqlRequestType payload = mysqlCommand payload) := by
  obtain ⟨b, hb⟩ := isMysqlQuery_accepted h.mysql
  refine ⟨fun hruns => ?_, fun hruns => if_neg hruns⟩
  have hfirst : (payload 0).getD 0 = byte b 0 := byte_of_probeRead (i := 0) hb.read (by omega)
  have htype : mysqlRequestType payload = byte b 0 := (if_pos hruns).trans hfirst
  have hlow := hb.first_byte
  have hsize := hb.enough
  rw [htype, ← UInt8.toNat_inj, ← UInt8.toNat_inj, hlow]
  have hclose : mysqlComStmtClose.toNat = 25 := rfl
  have hprepare : mysqlComStmtPrepare.toNat = 22 := rfl
  omega

/-! ## The handler -/

theorem connect_ne_none (m : Maps) (cid : ConnectionId) (conn : Connection) :
    (m.connect cid conn).connections cid ≠ none := by
  show Function.update m.connections cid (some conn) cid ≠ none
  rw [Function.update_self]
  exact Option.some_ne_none conn

/-- `COPY_PAYLOAD` does not fail. -/
def CanCopy (payload : Memory) (size : Nat) : Prop :=
  probeRead payload 0 (truncatePayloadSize size) ≠ none

/-- What a write leaves in `active_l7_requests`. -/
structure Handled (k : L7RequestKey) (payload : Memory) (size : Nat)
    (requests left : L7RequestKey → Option L7Request) : Prop where
  skipped : mysqlRequestType payload = mysqlComStmtClose ∨ ¬ CanCopy payload size → left = requests
  stored : mysqlRequestType payload ≠ mysqlComStmtClose → CanCopy payload size →
    ∃ req, req.protocol = .mysql ∧ req.requestType = mysqlRequestType payload ∧
      left k = (requests k).or (some req)

section

variable {slots : Slots} {cid : ConnectionId} {conn : Connection} {isTls : Bool} {totalSize : Nat}
  {m : Maps} {env : Nat → Nat}

theorem handled_closeStatement {e : L7Event}
    (hclose : mysqlRequestType payload = mysqlComStmtClose) (k : L7RequestKey) :
    Handled k payload size m.requests
      (play bpfStep (sendPayload slots e payload size cid conn) env m).2.requests := by
  refine ⟨fun _ => ?_, fun hne => absurd hclose hne⟩
  unfold sendPayload
  simp only
  split <;> rfl

theorem handled_storeRequest {req : L7Request} (hprotocol : req.protocol = .mysql)
    (htype : req.requestType = mysqlRequestType payload)
    (hne : mysqlRequestType payload ≠ mysqlComStmtClose) (k : L7RequestKey) :
    Handled k payload size m.requests
      (play bpfStep (storeRequest slots req k payload size) env m).2.requests := by
  have hstart : startTime k req.protocol = Bpf.ktime := by
    rw [startTime, hprotocol, if_neg (by decide)]
  unfold storeRequest
  rw [hstart]
  cases hread : probeRead payload 0 (truncatePayloadSize size) with
  | none => exact ⟨fun _ => rfl, fun _ hcopy => absurd hread hcopy⟩
  | some bytes =>
    have hcopy : CanCopy payload size := fun hnone => by rw [hread] at hnone; cases hnone
    refine ⟨fun h => (h.elim hne fun hnot => hnot hcopy).elim, fun _ _ => ?_⟩
    refine ⟨{ req with ns := env 0, payload := req.payload.fill bytes }, hprotocol, htype, ?_⟩
    exact Function.update_self k _ m.requests

theorem handled_handleWrite {fd pid : Nat} (h : ReachesMysql payload size) :
    Handled ⟨fd, pid, isTls, -1⟩ payload size m.requests
      (play bpfStep (handleWrite slots ⟨fd, pid⟩ conn isTls payload size
        totalSize) env m).2.requests := by
  unfold handleWrite
  simp only [classifyWrite_mysql h]
  by_cases hclose : mysqlRequestType payload = mysqlComStmtClose
  · rw [if_pos hclose]
    exact handled_closeStatement hclose _
  · rw [if_neg hclose]
    exact handled_storeRequest rfl rfl hclose _

end

section

variable {slots : Slots} {source : Source} {found : Found} (pid fd : Nat) (isTls : Bool)

theorem handled_traceEnterWrite (hfind : source.find slots.iovec = some found)
    (h : ReachesMysql found.payload found.size) {m : Maps} (hconn : m.connections ⟨fd, pid⟩ ≠ none)
    (env : Nat → Nat) :
    Handled ⟨fd, pid, isTls, -1⟩ found.payload found.size m.requests
      (play bpfStep (traceEnterWrite slots pid fd isTls source) env m).2.requests := by
  obtain ⟨conn, hconn⟩ := Option.ne_none_iff_exists'.mp hconn
  obtain ⟨b, hb⟩ := isMysqlQuery_accepted h.mysql
  have hsize : found.size ≠ 0 := Nat.ne_of_gt (Nat.lt_of_lt_of_le (by omega) hb.enough)
  have hcount : play bpfStep (traceEnterWrite slots pid fd isTls source) env m =
      play bpfStep (countWrite slots ⟨fd, pid⟩ conn isTls found) (fun i => env (i + 1)) m := by
    refine (play_lift (BpfOp.lookupConnection ⟨fd, pid⟩) _ env m).trans ?_
    rw [show (bpfStep (env 0) (.lookupConnection ⟨fd, pid⟩) m).1 = some conn from hconn, hfind]
    rfl
  rw [hcount, countWrite, if_neg hsize]
  cases isTls with
  | true =>
    rw [if_pos rfl]
    exact handled_handleWrite h
  | false =>
    rw [if_neg Bool.false_ne_true]
    exact handled_handleWrite (m := (bpfStep (env 1) (.addSent ⟨fd, pid⟩ found.totalSize) m).2) h

/-- The write is entered as a request of MySQL, unless a request waits on the connection already. -/
def Recorded (slots : Slots) (source : Source) : Prop :=
  ∀ (env : Nat → Nat) (m : Maps), m.connections ⟨fd, pid⟩ ≠ none →
    ∃ req, req.protocol = .mysql ∧
      (play bpfStep (traceEnterWrite slots pid fd isTls source) env m).2.requests
        ⟨fd, pid, isTls, -1⟩ = (m.requests ⟨fd, pid, isTls, -1⟩).or (some req)

/-- An entry that the write makes under a free key has the type of a statement that is prepared if
and only if this is the command. -/
def PreparesStored (slots : Slots) (source : Source) (command : UInt8) : Prop :=
  ∀ (env : Nat → Nat) (m : Maps) (req : L7Request), m.connections ⟨fd, pid⟩ ≠ none →
    m.requests ⟨fd, pid, isTls, -1⟩ = none →
    (play bpfStep (traceEnterWrite slots pid fd isTls source) env m).2.requests
      ⟨fd, pid, isTls, -1⟩ = some req →
    (req.requestType = mysqlComStmtPrepare ↔ command = mysqlComStmtPrepare)

theorem recorded_iff (hfind : source.find slots.iovec = some found)
    (h : ReachesMysql found.payload found.size) :
    Recorded pid fd isTls slots source ↔
      mysqlRequestType found.payload ≠ mysqlComStmtClose ∧ CanCopy found.payload found.size := by
  constructor
  · -- on a connection without requests, what is not stored is not there
    intro hrecorded
    by_contra hnot
    have hskip : mysqlRequestType found.payload = mysqlComStmtClose ∨
        ¬ CanCopy found.payload found.size := by
      by_contra hneither
      obtain ⟨hne, hcopy⟩ := not_or.mp hneither
      exact hnot ⟨hne, not_not.mp hcopy⟩
    let m := Maps.empty.connect ⟨fd, pid⟩ ⟨0, 0, 0⟩
    have hconn : m.connections ⟨fd, pid⟩ ≠ none := connect_ne_none _ _ _
    obtain ⟨req, _, hstored⟩ := hrecorded (fun _ => 0) m hconn
    rw [(handled_traceEnterWrite pid fd isTls hfind h hconn _).skipped hskip] at hstored
    cases hstored
  · rintro ⟨hne, hcopy⟩ env m hconn
    obtain ⟨req, hprotocol, _, hreq⟩ :=
      (handled_traceEnterWrite pid fd isTls hfind h hconn env).stored hne hcopy
    exact ⟨req, hprotocol, hreq⟩

theorem preparesStored_iff (hfind : source.find slots.iovec = some found)
    (h : ReachesMysql found.payload found.size) (command : UInt8) :
    PreparesStored pid fd isTls slots source command ↔
      (mysqlRequestType found.payload ≠ mysqlComStmtClose → CanCopy found.payload found.size →
        (mysqlRequestType found.payload = mysqlComStmtPrepare ↔
          command = mysqlComStmtPrepare)) := by
  constructor
  · intro hstored hne hcopy
    let m := Maps.empty.connect ⟨fd, pid⟩ ⟨0, 0, 0⟩
    have hconn : m.connections ⟨fd, pid⟩ ≠ none := connect_ne_none _ _ _
    obtain ⟨req, _, htype, hreq⟩ :=
      (handled_traceEnterWrite pid fd isTls hfind h hconn fun _ => 0).stored hne hcopy
    rw [← htype]
    exact hstored _ m req hconn rfl hreq
  · intro hiff env m req hconn hfree hreq
    have hhandled := handled_traceEnterWrite pid fd isTls hfind h hconn env
    have hnot : ¬ (mysqlRequestType found.payload = mysqlComStmtClose ∨
        ¬ CanCopy found.payload found.size) := by
      intro hskip
      rw [hhandled.skipped hskip, hfree] at hreq
      cases hreq
    obtain ⟨hne, hcopy⟩ := not_or.mp hnot
    obtain ⟨req', _, htype, hreq'⟩ := hhandled.stored hne (not_not.mp hcopy)
    rw [hfree, Option.none_or, hreq] at hreq'
    rw [Option.some.inj hreq', htype]
    exact hiff hne (not_not.mp hcopy)

/-- **For every write that gets to `is_mysql_query` and passes it, the command byte alone decides
what is closed, what is stored as prepared and what waits for a response, if and only if a query or
an execution does not have one of two lengths, modulo 256, and can be copied.** -/
theorem mysql_classified_iff (hfind : source.find slots.iovec = some found)
    (h : ReachesMysql found.payload found.size) :
    (((classifyWrite slots.request.requestType found.payload found.size
          found.totalSize).requestType = mysqlComStmtClose ↔
        mysqlCommand found.payload = mysqlComStmtClose) ∧
      PreparesStored pid fd isTls slots source (mysqlCommand found.payload) ∧
      (RunsQuery found.payload → Recorded pid fd isTls slots source)) ↔
    (RunsQuery found.payload → found.size % 256 ≠ 29 ∧ found.size % 256 ≠ 26 ∧
      CanCopy found.payload found.size) := by
  rw [requestType_mysql h, preparesStored_iff pid fd isTls hfind h,
    recorded_iff pid fd isTls hfind h]
  obtain ⟨hquery, hother⟩ := mysqlRequestType_eq h
  by_cases hruns : RunsQuery found.payload
  · obtain ⟨hclose, hprepare⟩ := hquery hruns
    -- the command of a query is neither of the two
    have hcommand : mysqlCommand found.payload ≠ mysqlComStmtClose ∧
        mysqlCommand found.payload ≠ mysqlComStmtPrepare := by
      rcases hruns with hruns | hruns
      · rw [hruns]; decide
      · rw [hruns]; decide
    rw [Ne, hclose, hprepare, iff_false_intro hcommand.1, iff_false_intro hcommand.2, iff_false,
      iff_false]
    constructor
    · rintro ⟨hc, hp, hrecorded⟩ _
      have hcopy := (hrecorded hruns).2
      exact ⟨hc, hp hc hcopy, hcopy⟩
    · intro hcond
      obtain ⟨hc, hp, hcopy⟩ := hcond hruns
      exact ⟨hc, fun _ _ => hp, fun _ => ⟨hc, hcopy⟩⟩
  · rw [hother hruns]
    exact iff_of_true ⟨Iff.rfl, fun _ _ => Iff.rfl, fun hq => absurd hq hruns⟩
      fun hq => absurd hq hruns

end

/-! ## Three queries -/

/-- A packet with the command `COM_QUERY`. -/
def queryPacket (text : String) : Bytes :=
  [UInt8.ofNat (text.length + 1), 0, 0, 0, 3] ++ ascii text

def queryWrite (text : String) : Source :=
  .plain (Memory.ofBytes (queryPacket text)) (queryPacket text).length

/-- The maps and the slots after the query is written on a new connection. -/
def afterQuery (text : String) : Slots × Maps :=
  play bpfStep (traceEnterWrite Slots.zero 1 3 false (queryWrite text)) (fun _ => 0)
    (Maps.empty.connect ⟨3, 1⟩ ⟨0, 0, 0⟩)

instance : Decidable (ReachesMysql payload size) :=
  decidable_of_iff (isHttpRequest payload = false ∧ (isPostgresQuery payload size).1 = false ∧
      isRedisQuery payload size = false ∧ isMemcachedQuery payload size = false ∧
      (isMysqlQuery payload size).1 = true)
    ⟨fun ⟨h1, h2, h3, h4, h5⟩ => ⟨h1, h2, h3, h4, h5⟩, fun ⟨h1, h2, h3, h4, h5⟩ =>
      ⟨h1, h2, h3, h4, h5⟩⟩

theorem mysql_classified_short :
    RunsQuery (Memory.ofBytes (queryPacket "select 1")) ∧
      PreparesStored 1 3 false Slots.zero (queryWrite "select 1") 3 ∧
      Recorded 1 3 false Slots.zero (queryWrite "select 1") := by
  have hruns : RunsQuery (Memory.ofBytes (queryPacket "select 1")) := by decide +kernel
  have hreaches : ReachesMysql (Memory.ofBytes (queryPacket "select 1"))
      (queryPacket "select 1").length := by decide +kernel
  have hfind : (queryWrite "select 1").find Slots.zero.iovec =
      some ⟨Memory.ofBytes (queryPacket "select 1"), (queryPacket "select 1").length,
        (queryPacket "select 1").length, Slots.zero.iovec⟩ := rfl
  obtain ⟨-, hprepares, hrecorded⟩ := (mysql_classified_iff 1 3 false hfind hreaches).mpr fun _ =>
    ⟨by decide +kernel, by decide +kernel, show probeRead _ _ _ ≠ none by decide +kernel⟩
  exact ⟨hruns, hprepares, hrecorded hruns⟩

/-- **A query of 25 bytes is taken for a statement that is closed, and one of 22 bytes is stored as
a statement that is prepared.** -/
theorem query_taken_for_close :
    ReachesMysql (Memory.ofBytes (queryPacket "select id from customers")) 29 ∧
    mysqlCommand (Memory.ofBytes (queryPacket "select id from customers")) = 3 ∧
    (afterQuery "select id from customers").1.request.requestType = mysqlComStmtClose ∧
    ((afterQuery "select id from customers").2.requests ⟨3, 1, false, -1⟩).isNone = true ∧
    (afterQuery "select id from customers").2.l7Events.map L7Event.method = [.statementClose] ∧
    ReachesMysql (Memory.ofBytes (queryPacket "select id from orders")) 26 ∧
    mysqlCommand (Memory.ofBytes (queryPacket "select id from orders")) = 3 ∧
    ((afterQuery "select id from orders").2.requests ⟨3, 1, false, -1⟩).map
      L7Request.requestType = some mysqlComStmtPrepare := by
  refine ⟨?_, ?_, ?_, ?_, ?_, ?_, ?_, ?_⟩ <;> decide +kernel

end Ebpf
