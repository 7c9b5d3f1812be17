import NodeAgent.Ebpf.Replies
import NodeAgent.Infra.Latest
import NodeAgent.Infra.Sequences
import NodeAgent.L7.Sql

/-!
# Prepared statements

`onL7Request` gives every message to the parser of its connection and does not tell it what the
server made of the message. What is reported for a statement is the latest preparation that the
parser has seen and stored. What the server executes is the latest one that it has accepted.

* `texts_iff` — when the text that is reported is the one that is executed
-/

namespace L7

open Infra Ebpf

/-! ## What is reported and what is executed -/

structure Dialect (π ε κ : Type) where
  new : π
  /-- what `onL7Request` does with the event -/
  parse : π → ε → Checked (Bytes × π)
  action : ε → Action κ Bytes
  /-- how the parser writes the name of a statement -/
  written : κ → Bytes
  /-- the queries that the parser stores -/
  stores : Bytes → Bool

/-- The parser of a connection, which the first event makes, and the events so far, the last one
first. -/
structure Session (π ε : Type) where
  parser : Option π
  history : List ε

section

variable {π ε κ : Type} [DecidableEq κ] (D : Dialect π ε κ)

def Session.report (s : Session π ε) (e : ε) : Checked (Bytes × π) :=
  D.parse (s.parser.getD D.new) e

/-- The session after an event. A panic would end it. -/
def Session.next (s : Session π ε) (e : ε) : Session π ε where
  parser := match s.report D e with
    | .ok (_, p) => some p
    | .error _ => s.parser
  history := e :: s.history

def Dialect.text (key : κ) (query : Option Bytes) : Bytes :=
  query.getD (unknownStatement (D.written key))

/-- The latest preparation that the server has accepted. -/
def Dialect.executed (key : κ) (history : List ε) : Option Bytes :=
  latest (fun _ accepted => accepted) key (history.map D.action)

/-- The latest preparation, accepted or not, whose query is stored. -/
def Dialect.seen (key : κ) (history : List ε) : Option Bytes :=
  latest (fun query _ => D.stores query) key (history.map D.action)

/-- For a statement that is used, the text of what the server executes is reported. -/
def TextRight (s : Session π ε) (e : ε) : Prop :=
  ∀ key, D.action e = .get key →
    ∃ p, s.report D e = .ok (D.text key (D.executed key s.history), p)

/-- The latest preparation that was seen has the query of the latest one that was accepted. -/
def SameText (s : Session π ε) (e : ε) : Prop :=
  ∀ key, D.action e = .get key →
    D.text key (D.seen key s.history) = D.text key (D.executed key s.history)

/-- The parser does to its table what the events say, and reports what is in it. -/
structure Dialect.Faithful (table : π → Dict Bytes Bytes) : Prop where
  injective : Function.Injective D.written
  new : table D.new = ∅
  step : ∀ p e, ∃ text p', D.parse p e = .ok (text, p') ∧
    table p' = (D.action e).apply (fun query _ => D.stores query) D.written (table p) ∧
    ∀ key, D.action e = .get key → text = D.text key ((table p).lookup (D.written key))

variable {D} {table : π → Dict Bytes Bytes}

def Remembers (D : Dialect π ε κ) (table : π → Dict Bytes Bytes) (s : Session π ε) : Prop :=
  ∀ key, (table (s.parser.getD D.new)).lookup (D.written key) = D.seen key s.history

theorem Dialect.Faithful.remembers_next (h : D.Faithful table) {s : Session π ε}
    (hs : Remembers D table s) (e : ε) : Remembers D table (s.next D e) := by
  obtain ⟨text, p', hparse, htable, _⟩ := h.step (s.parser.getD D.new) e
  have hnext : s.next D e = ⟨some p', e :: s.history⟩ := by
    rw [Session.next, Session.report, hparse]
  intro key
  rw [hnext]
  show (table p').lookup (D.written key) = latest _ key (D.action e :: s.history.map D.action)
  rw [htable]
  exact lookup_apply h.injective hs (D.action e) key

theorem Dialect.Faithful.textRight_iff (h : D.Faithful table) {s : Session π ε}
    (hs : Remembers D table s) (e : ε) : TextRight D s e ↔ SameText D s e := by
  obtain ⟨text, p', hparse, _, htext⟩ := h.step (s.parser.getD D.new) e
  refine forall_congr' fun key => forall_congr' fun hkey => ?_
  rw [Session.report, hparse, htext key hkey, hs key]
  constructor
  · rintro ⟨p, heq⟩
    exact (Prod.mk.inj (Except.ok.inj heq)).1
  · intro heq
    exact ⟨p', by rw [heq]⟩

theorem texts_iff (h : D.Faithful table) (events : List ε) :
    EveryStep (Session.next D) (TextRight D) ⟨none, []⟩ events ↔
      EveryStep (Session.next D) (SameText D) ⟨none, []⟩ events := by
  refine everyStep_congr (I := Remembers D table) (fun s e hs _ => h.remembers_next hs e)
    (fun s e hs => h.textRight_iff hs e) events fun key => ?_
  show (table D.new).lookup _ = none
  rw [h.new]
  rfl

end

/-! ## Postgres -/

structure CString where
  bytes : Bytes
  zero_notMem : 0 ∉ bytes

/-- The name of a statement that is not the unnamed one. -/
structure StatementName extends CString where
  named : bytes ≠ []

inductive PostgresMessage where
  | parse (name : StatementName) (query : CString) (types : Bytes)
  | bind (portal : CString) (name : StatementName) (values : Bytes)
  | close (name : StatementName)

namespace PostgresMessage

def type : PostgresMessage → UInt8
  | .parse .. => postgresFrameParse
  | .bind .. => postgresFrameBind
  | .close _ => postgresFrameClose

def body : PostgresMessage → Bytes
  | .parse name query types => name.bytes ++ 0 :: (query.bytes ++ 0 :: types)
  | .bind portal name values => portal.bytes ++ 0 :: (name.bytes ++ 0 :: values)
  | .close name => 83 :: (name.bytes ++ 0 :: [])

def wire (m : PostgresMessage) : Bytes :=
  m.type :: (toBigEndian 4 (m.body.length + 4) ++ m.body)

end PostgresMessage

structure PostgresEvent where
  message : PostgresMessage
  accepted : Bool

def PostgresEvent.action (e : PostgresEvent) : Action Bytes Bytes :=
  match e.message with
  | .parse name query _ => .put name.bytes query.bytes e.accepted
  | .bind _ name _ => .get name.bytes
  | .close name => .drop name.bytes

def postgresDialect : Dialect PostgresParser PostgresEvent Bytes where
  new := newPostgresParser
  parse := fun p e => p.parse e.message.wire
  action := PostgresEvent.action
  written := id
  stores := fun _ => true

theorem cutQuery_append {query : Bytes} (h : 0 ∉ query) (rest : Bytes) :
    cutQuery (query ++ 0 :: rest) = query := by
  rw [cutQuery, cut_append_cons rest h]

theorem postgres_faithful : postgresDialect.Faithful PostgresParser.preparedStatements where
  injective := Function.injective_id
  new := rfl
  step := by
    rintro p ⟨message, accepted⟩
    have hfield : ∀ n, (toBigEndian 4 n).length = 4 := length_toBigEndian 4
    cases message with
    | parse name query types =>
      refine ⟨_, _, p.parse_parse (hfield _) name.zero_notMem, ?_, nofun⟩
      rw [cutQuery_append query.zero_notMem]
      rfl
    | bind portal name values =>
      refine ⟨_, _, p.parse_bind (hfield _) portal.zero_notMem name.zero_notMem, rfl, ?_⟩
      rintro key hkey
      cases hkey
      rfl
    | close name => exact ⟨_, _, p.parse_close (hfield _) name.zero_notMem, rfl, nofun⟩

/-! ## MySQL -/

/-- A packet that announces `size` bytes, the command among them. -/
def mysqlMessage (size : Nat) (command : UInt8) (body : Bytes) : Bytes :=
  ((toBigEndian 3 size).reverse ++ [0]) ++ command :: body

def mysqlPacket (command : UInt8) (body : Bytes) : Bytes :=
  mysqlMessage (body.length + 1) command body

def mysqlId (id : UInt32) : Bytes := (toBigEndian 4 id.toNat).reverse

section

variable (size : Nat) (command : UInt8) (body : Bytes)

theorem length_mysqlMessage : (mysqlMessage size command body).length = body.length + 5 := by
  simp only [mysqlMessage, List.length_append, List.length_reverse, length_toBigEndian,
    List.length_cons, List.length_nil]
  omega

theorem mysqlMessage_command : (mysqlMessage size command body).getD 4 0 = command := by
  rw [mysqlMessage, List.getD_eq_getElem?_getD, List.getElem?_append_right (by simp)]
  simp

theorem mysqlMessage_drop : (mysqlMessage size command body).drop 5 = body := by
  rw [mysqlMessage, List.drop_append, List.drop_eq_nil_of_le (by simp)]
  simp

theorem little_reverse {width n : Nat} (h : n < 256 ^ width) :
    little (toBigEndian width n).reverse = n := big_toBigEndian h

theorem mysqlMessage_msgSize {size : Nat} (h : size < 2 ^ 24) :
    msgSize (mysqlMessage size command body) = size := by
  have hthree : (mysqlMessage size command body).take 3 = (toBigEndian 3 size).reverse := by
    rw [mysqlMessage, List.append_assoc, List.take_left' (by simp)]
  rw [msgSize_eq (by rw [length_mysqlMessage]; omega), hthree, little_reverse h]

theorem readQuery_mysqlMessage (h : body.length < size) :
    readQuery (mysqlMessage size command body) size =
      .ok (if body.length + 1 = size then body else body ++ ellipsis) := by
  have hlen := length_mysqlMessage size command body
  by_cases hall : body.length + 1 = size
  · rw [readQuery, mysqlMsgHeaderSize, if_neg (by omega), if_pos hall,
      slice_eq_ok (by omega) (by omega), mysqlMessage_drop, List.take_of_length_le (by omega)]
  · rw [readQuery, mysqlMsgHeaderSize, if_pos (by omega), if_neg hall,
      slice_eq_ok (by omega) (by omega), mysqlMessage_drop, List.take_of_length_le (by omega)]
    rfl

theorem readStatementId_mysqlMessage (id : UInt32) (rest : Bytes) :
    readStatementId (mysqlMessage size command (mysqlId id ++ rest)) = .ok (decimal id.toNat) := by
  have hid : (mysqlId id).length = 4 := by simp [mysqlId]
  rw [readStatementId_eq (by rw [length_mysqlMessage, List.length_append]; omega),
    mysqlMessage_drop, List.take_left' hid, mysqlId, little_reverse id.toNat_lt]

end

section

variable (p : MysqlParser) (statementId : Nat)

theorem MysqlParser.parse_prepare {query : Bytes} (hlong : 4 ≤ query.length)
    (fits : query.length + 1 < 2 ^ 24) :
    p.parse (mysqlPacket mysqlComStmtPrepare query) statementId =
      .ok (ascii "PREPARE " ++ decimal statementId ++ ascii " FROM " ++ query,
        ⟨p.preparedStatements.insert (decimal statementId) query⟩) := by
  have hlen := length_mysqlMessage (query.length + 1) mysqlComStmtPrepare query
  rw [mysqlPacket, MysqlParser.parse_eq p (by omega), mysqlMessage_command,
    mysqlMessage_msgSize _ _ fits, readQuery_mysqlMessage _ _ _ (Nat.lt_succ_self _), if_pos rfl]
  rfl

theorem MysqlParser.parse_prepare_short {query : Bytes} (hshort : ¬ 4 ≤ query.length) :
    p.parse (mysqlPacket mysqlComStmtPrepare query) statementId = .ok ([], p) := by
  have hlen := length_mysqlMessage (query.length + 1) mysqlComStmtPrepare query
  exact if_pos (by rw [mysqlPacket, hlen, mysqlMsgHeaderSize]; omega)

theorem length_mysqlId (id : UInt32) (command : UInt8) (rest : Bytes) :
    9 ≤ (mysqlPacket command (mysqlId id ++ rest)).length := by
  rw [mysqlPacket, length_mysqlMessage, List.length_append, mysqlId, List.length_reverse,
    length_toBigEndian]
  omega

theorem MysqlParser.parse_execute (id : UInt32) (rest : Bytes) :
    p.parse (mysqlPacket mysqlComStmtExecute (mysqlId id ++ rest)) statementId =
      .ok ((p.preparedStatements.lookup (decimal id.toNat)).getD
        (unknownStatement (decimal id.toNat)), p) := by
  rw [MysqlParser.parse_eq p (length_mysqlId id _ rest), mysqlPacket, mysqlMessage_command,
    readStatementId_mysqlMessage]
  rfl

theorem MysqlParser.parse_close (id : UInt32) (rest : Bytes) :
    p.parse (mysqlPacket mysqlComStmtClose (mysqlId id ++ rest)) statementId =
      .ok ([], ⟨p.preparedStatements.erase (decimal id.toNat)⟩) := by
  rw [MysqlParser.parse_eq p (length_mysqlId id _ rest), mysqlPacket, mysqlMessage_command,
    readStatementId_mysqlMessage]
  rfl

end

inductive MysqlMessage where
  | prepare (query : Bytes) (fits : query.length + 1 < 2 ^ 24)
  | execute (id : UInt32) (rest : Bytes)
  | close (id : UInt32)

def MysqlMessage.wire : MysqlMessage → Bytes
  | .prepare query _ => mysqlPacket mysqlComStmtPrepare query
  | .execute id rest => mysqlPacket mysqlComStmtExecute (mysqlId id ++ rest)
  | .close id => mysqlPacket mysqlComStmtClose (mysqlId id ++ [])

/-- A message, what the server made of it, and the number of the statement that it gave to a
preparation. -/
structure MysqlEvent where
  message : MysqlMessage
  accepted : Bool
  statementId : UInt32

def MysqlEvent.action (e : MysqlEvent) : Action UInt32 Bytes :=
  match e.message with
  | .prepare query _ => .put e.statementId query e.accepted
  | .execute id _ => .get id
  | .close id => .drop id

def mysqlDialect : Dialect MysqlParser MysqlEvent UInt32 where
  new := newMysqlParser
  parse := fun p e => p.parse e.message.wire e.statementId.toNat
  action := MysqlEvent.action
  written := fun id => decimal id.toNat
  stores := fun query => decide (4 ≤ query.length)

theorem mysqlDialect_parse (p : MysqlParser) (e : MysqlEvent) :
    mysqlDialect.parse p e = p.parse e.message.wire e.statementId.toNat :=
  rfl

theorem mysql_faithful : mysqlDialect.Faithful MysqlParser.preparedStatements where
  injective := fun a b h => UInt32.toNat_inj.mp (decimal_injective h)
  new := rfl
  step := by
    rintro p ⟨message, accepted, statementId⟩
    simp only [mysqlDialect_parse]
    cases message with
    | prepare query fits =>
      rw [MysqlMessage.wire]
      by_cases hlong : 4 ≤ query.length
      · refine ⟨_, _, p.parse_prepare statementId.toNat hlong fits, ?_, fun _ hkey => by cases hkey⟩
        exact (if_pos (decide_eq_true hlong)).symm
      · have hstores : ¬ decide (4 ≤ query.length) = true := by rwa [decide_eq_true_eq]
        refine ⟨_, _, p.parse_prepare_short statementId.toNat hlong, ?_, nofun⟩
        exact (if_neg hstores).symm
    | execute id rest =>
      refine ⟨_, _, p.parse_execute statementId.toNat id rest, rfl, ?_⟩
      rintro key hkey
      cases hkey
      rfl
    | close id => exact ⟨_, _, p.parse_close statementId.toNat id [], rfl, nofun⟩

/-! ## Both -/

/-- **On every connection, the text that is reported for a statement is the one the server executes
if and only if, whenever a statement is used, the latest preparation that was seen and stored has
the query of the latest one that was accepted.** -/
theorem statement_texts_iff (events : List PostgresEvent) (events' : List MysqlEvent) :
    (EveryStep (Session.next postgresDialect) (TextRight postgresDialect) ⟨none, []⟩ events ↔
      EveryStep (Session.next postgresDialect) (SameText postgresDialect) ⟨none, []⟩ events) ∧
    (EveryStep (Session.next mysqlDialect) (TextRight mysqlDialect) ⟨none, []⟩ events' ↔
      EveryStep (Session.next mysqlDialect) (SameText mysqlDialect) ⟨none, []⟩ events') :=
  ⟨texts_iff postgres_faithful events, texts_iff mysql_faithful events'⟩

def statementName : StatementName := ⟨⟨ascii "s1", by decide +kernel⟩, by decide +kernel⟩

/-- The server has the statement already, and rejects the second preparation. -/
def preparedTwice : Session PostgresParser PostgresEvent :=
  ((⟨none, []⟩ : Session PostgresParser PostgresEvent).next postgresDialect
    ⟨.parse statementName ⟨ascii "select 1", by decide +kernel⟩ [0, 0], true⟩).next postgresDialect
    ⟨.parse statementName ⟨ascii "select 2", by decide +kernel⟩ [0, 0], false⟩

/-- The server has rejected the only preparation, and the event has no number. -/
def preparedInVain : Session MysqlParser MysqlEvent :=
  (⟨none, []⟩ : Session MysqlParser MysqlEvent).next mysqlDialect
    ⟨.prepare (ascii "select x") (by decide +kernel), false, 0⟩

/-- **The query of a preparation that the server has rejected is reported.** -/
theorem rejected_text_reported :
    postgresDialect.executed (ascii "s1") preparedTwice.history = some (ascii "select 1") ∧
    ((preparedTwice.report postgresDialect
      ⟨.bind ⟨[], by decide +kernel⟩ statementName [0, 0, 0, 0, 0, 0], true⟩).toOption.map
        Prod.fst) = some (ascii "select 2") ∧
    mysqlDialect.executed 0 preparedInVain.history = none ∧
    ((preparedInVain.report mysqlDialect
      ⟨.execute 0 [0, 1, 0, 0, 0], false, 0⟩).toOption.map Prod.fst) =
        some (ascii "select x") := by
  refine ⟨?_, ?_, ?_, ?_⟩ <;> decide +kernel

end L7
