import NodeAgent.L7.Text

/-!
# SQL (`ebpftracer/l7/postgres.go`, `mysql.go`)

The parsers that find the query in the payload of an event. A connection has one parser, which
remembers the statements that were prepared. A query that does not end in the payload is marked.
-/

namespace L7

open Infra Ebpf

/-- What is reported for a statement that is not in the table. -/
def unknownStatement (name : Bytes) : Bytes := ascii "EXECUTE " ++ name ++ ascii " /* unknown */"

def ellipsis : Bytes := ascii "..."

/-! ## Postgres -/

def postgresFrameQuery : UInt8 := 81
def postgresFrameBind : UInt8 := 66
def postgresFrameParse : UInt8 := 80
def postgresFrameClose : UInt8 := 67

structure PostgresParser where
  preparedStatements : Dict Bytes Bytes

def newPostgresParser : PostgresParser := ⟨∅⟩

/-- The query up to its zero, or a query that is cut off. -/
def cutQuery (b : Bytes) : Bytes :=
  match cut [0] b with
  | some (query, _) => query
  | none => b ++ ellipsis

def PostgresParser.parse (p : PostgresParser) (payload : Bytes) :
    Checked (Bytes × PostgresParser) :=
  if payload.length < 5 then return ([], p)
  else do
    let cmd ← elemAt payload 0
    if cmd = postgresFrameQuery then
      let rest ← sliceFrom payload 5
      return (cutQuery rest, p)
    else if cmd = postgresFrameBind then
      let rest ← sliceFrom payload 5
      match cut [0] rest with
      | none => return ([], p)
      | some (_, rest) =>
        match cut [0] rest with
        | none => return ([], p)
        | some (name, _) =>
          return ((p.preparedStatements.lookup name).getD (unknownStatement name), p)
    else if cmd = postgresFrameParse then
      let rest ← sliceFrom payload 5
      match cut [0] rest with
      | none => return ([], p)
      | some (name, rest) =>
        let query := cutQuery rest
        return (ascii "PREPARE " ++ name ++ ascii " AS " ++ query,
          ⟨p.preparedStatements.insert name query⟩)
    else if cmd = postgresFrameClose then
      if payload.length < 7 then return ([], p)
      else
        let kind ← elemAt payload 5
        if kind ≠ 83 then return ([], p)
        else
          let rest ← sliceFrom payload 6
          match cut [0] rest with
          | none => return ([], p)
          | some (name, _) => return ([], ⟨p.preparedStatements.erase name⟩)
    else return ([], p)

section

variable (p : PostgresParser) {field : Bytes} (hfield : field.length = 4) (rest : Bytes)

theorem length_message (type : UInt8) (field rest : Bytes) :
    (type :: (field ++ rest)).length = 1 + field.length + rest.length := by
  rw [List.length_cons, List.length_append]
  omega

include hfield

theorem sliceFrom_message (type : UInt8) : sliceFrom (type :: (field ++ rest)) 5 = .ok rest := by
  have hlen := length_message type field rest
  rw [sliceFrom_eq_ok (by omega), List.drop_succ_cons, List.drop_left' hfield]

theorem PostgresParser.parse_query :
    p.parse (postgresFrameQuery :: (field ++ rest)) = .ok (cutQuery rest, p) := by
  have hlen := length_message postgresFrameQuery field rest
  rw [PostgresParser.parse, if_neg (by omega), sliceFrom_message hfield]
  rfl

theorem PostgresParser.parse_bind {portal name tail : Bytes} (hportal : 0 ∉ portal)
    (hname : 0 ∉ name) :
    p.parse (postgresFrameBind :: (field ++ (portal ++ 0 :: (name ++ 0 :: tail)))) =
      .ok ((p.preparedStatements.lookup name).getD (unknownStatement name), p) := by
  have hlen := length_message postgresFrameBind field (portal ++ 0 :: (name ++ 0 :: tail))
  rw [PostgresParser.parse, if_neg (by omega), sliceFrom_message hfield]
  show (match cut [0] (portal ++ 0 :: (name ++ 0 :: tail)) with
    | none => _
    | some (_, rest) => _) = _
  rw [cut_append_cons _ hportal]
  show (match cut [0] (name ++ 0 :: tail) with
    | none => _
    | some (name, _) => _) = _
  rw [cut_append_cons _ hname]
  rfl

theorem PostgresParser.parse_parse {name tail : Bytes} (hname : 0 ∉ name) :
    p.parse (postgresFrameParse :: (field ++ (name ++ 0 :: tail))) =
      .ok (ascii "PREPARE " ++ name ++ ascii " AS " ++ cutQuery tail,
        ⟨p.preparedStatements.insert name (cutQuery tail)⟩) := by
  have hlen := length_message postgresFrameParse field (name ++ 0 :: tail)
  rw [PostgresParser.parse, if_neg (by omega), sliceFrom_message hfield]
  show (match cut [0] (name ++ 0 :: tail) with
    | none => _
    | some (name, rest) => _) = _
  rw [cut_append_cons _ hname]
  rfl

theorem PostgresParser.parse_close {name tail : Bytes} (hname : 0 ∉ name) :
    p.parse (postgresFrameClose :: (field ++ (83 :: (name ++ 0 :: tail)))) =
      .ok ([], ⟨p.preparedStatements.erase name⟩) := by
  have hlen := length_message postgresFrameClose field (83 :: (name ++ 0 :: tail))
  have hbody : (83 :: (name ++ 0 :: tail) : Bytes).length = name.length + tail.length + 2 := by
    simp only [List.length_cons, List.length_append]
    omega
  have hkind : elemAt (postgresFrameClose :: (field ++ (83 :: (name ++ 0 :: tail)))) 5 =
      .ok 83 := by
    rw [elemAt, List.getElem?_cons_succ, List.getElem?_append_right (by omega), hfield]
    rfl
  have hrest : sliceFrom (postgresFrameClose :: (field ++ (83 :: (name ++ 0 :: tail)))) 6 =
      .ok (name ++ 0 :: tail) := by
    rw [sliceFrom_eq_ok (by omega), List.drop_succ_cons, List.drop_append, hfield,
      List.drop_eq_nil_of_le (by omega)]
    rfl
  rw [PostgresParser.parse, if_neg (by omega), hkind, hrest]
  show (if _ then _ else (match cut [0] (name ++ 0 :: tail) with
    | none => _
    | some (name, _) => _)) = _
  rw [if_neg (by omega), cut_append_cons _ hname]
  rfl

end

/-- **No payload makes the parser panic.** -/
theorem PostgresParser.parse_noPanic (p : PostgresParser) (payload : Bytes) :
    NoPanic (p.parse payload) := by
  unfold PostgresParser.parse
  split
  · exact noPanic_ok _
  rename_i hlen
  rw [elemAt_eq_ok (by omega) 0, sliceFrom_eq_ok (by omega)]
  refine noPanic_bind (noPanic_ok _) fun cmd _ => ?_
  split
  · exact noPanic_ok _
  split
  · refine noPanic_bind (noPanic_ok _) fun rest _ => ?_
    split
    · exact noPanic_ok _
    · split <;> exact noPanic_ok _
  split
  · refine noPanic_bind (noPanic_ok _) fun rest _ => ?_
    split <;> exact noPanic_ok _
  split
  · split
    · exact noPanic_ok _
    rename_i hlen
    rw [elemAt_eq_ok (by omega) 0, sliceFrom_eq_ok (by omega)]
    refine noPanic_bind (noPanic_ok _) fun kind _ => ?_
    split
    · exact noPanic_ok _
    · refine noPanic_bind (noPanic_ok _) fun rest _ => ?_
      split <;> exact noPanic_ok _
  · exact noPanic_ok _

/-! ## MySQL -/

def mysqlComQuery : UInt8 := 3
def mysqlComStmtPrepare : UInt8 := 0x16
def mysqlComStmtExecute : UInt8 := 0x17
def mysqlComStmtClose : UInt8 := 0x19

def mysqlMsgHeaderSize : Nat := 4

structure MysqlParser where
  preparedStatements : Dict Bytes Bytes

def newMysqlParser : MysqlParser := ⟨∅⟩

/-- The closure `readQuery`: the query, up to where the packet ends. -/
def readQuery (payload : Bytes) (msgSize : Nat) : Checked Bytes :=
  let stop := mysqlMsgHeaderSize + msgSize
  if stop > payload.length then do
    let query ← slice payload (mysqlMsgHeaderSize + 1) payload.length
    return query ++ ellipsis
  else slice payload (mysqlMsgHeaderSize + 1) stop

/-- The closure `readStatementId`. -/
def readStatementId (payload : Bytes) : Checked Bytes := do
  let b ← sliceFrom payload (mysqlMsgHeaderSize + 1)
  -- `binary.LittleEndian.Uint32` looks at the last byte first
  let _ ← elemAt b 3
  return decimal (little (b.take 4))

def MysqlParser.parse (p : MysqlParser) (payload : Bytes) (statementId : Nat) :
    Checked (Bytes × MysqlParser) :=
  if payload.length < mysqlMsgHeaderSize + 5 then return ([], p)
  else do
    let b0 ← elemAt payload 0
    let b1 ← elemAt payload 1
    let b2 ← elemAt payload 2
    let msgSize := little [b0, b1, b2]
    let cmd ← elemAt payload 4
    if cmd = mysqlComQuery then
      let query ← readQuery payload msgSize
      return (query, p)
    else if cmd = mysqlComStmtExecute then
      let id ← readStatementId payload
      return ((p.preparedStatements.lookup id).getD (unknownStatement id), p)
    else if cmd = mysqlComStmtPrepare then
      let query ← readQuery payload msgSize
      let id := decimal statementId
      return (ascii "PREPARE " ++ id ++ ascii " FROM " ++ query,
        ⟨p.preparedStatements.insert id query⟩)
    else if cmd = mysqlComStmtClose then
      let id ← readStatementId payload
      return ([], ⟨p.preparedStatements.erase id⟩)
    else return ([], p)

def msgSize (payload : Bytes) : Nat := little [payload.getD 0 0, payload.getD 1 0, payload.getD 2 0]

theorem msgSize_eq {payload : Bytes} (h : 3 ≤ payload.length) :
    msgSize payload = little (payload.take 3) := by
  obtain ⟨a, b, c, rest, rfl⟩ : ∃ a b c rest, payload = a :: b :: c :: rest := by
    match payload, h with
    | a :: b :: c :: rest, _ => exact ⟨a, b, c, rest, rfl⟩
  rfl

theorem MysqlParser.parse_eq (p : MysqlParser) {payload : Bytes} (h : 9 ≤ payload.length)
    (statementId : Nat) : p.parse payload statementId =
      if payload.getD 4 0 = mysqlComQuery then do
        let query ← readQuery payload (msgSize payload)
        return (query, p)
      else if payload.getD 4 0 = mysqlComStmtExecute then do
        let id ← readStatementId payload
        return ((p.preparedStatements.lookup id).getD (unknownStatement id), p)
      else if payload.getD 4 0 = mysqlComStmtPrepare then do
        let query ← readQuery payload (msgSize payload)
        return (ascii "PREPARE " ++ decimal statementId ++ ascii " FROM " ++ query,
          ⟨p.preparedStatements.insert (decimal statementId) query⟩)
      else if payload.getD 4 0 = mysqlComStmtClose then do
        let id ← readStatementId payload
        return ([], ⟨p.preparedStatements.erase id⟩)
      else return ([], p) := by
  rw [MysqlParser.parse, if_neg (by rw [mysqlMsgHeaderSize]; omega),
    elemAt_eq_ok (i := 0) (by omega) 0, elemAt_eq_ok (i := 1) (by omega) 0,
    elemAt_eq_ok (i := 2) (by omega) 0, elemAt_eq_ok (i := 4) (by omega) 0]
  rfl

theorem readQuery_noPanic {payload : Bytes} (h : 5 ≤ payload.length) {size : Nat}
    (hsize : 1 ≤ size) : NoPanic (readQuery payload size) := by
  unfold readQuery
  dsimp only
  split
  · rw [mysqlMsgHeaderSize, slice_eq_ok h (Nat.le_refl _)]
    exact noPanic_ok _
  · rename_i hstop
    rw [slice_eq_ok (by omega) (by omega)]
    exact noPanic_ok _

theorem readStatementId_eq {payload : Bytes} (h : 9 ≤ payload.length) :
    readStatementId payload = .ok (decimal (little ((payload.drop 5).take 4))) := by
  rw [readStatementId, mysqlMsgHeaderSize, sliceFrom_eq_ok (by omega)]
  show (elemAt (payload.drop 5) 3 >>= fun _ => _) = _
  rw [elemAt_eq_ok (by rw [List.length_drop]; omega) 0]
  rfl

/-- **A packet that announces at least its command does not make the parser panic.** -/
theorem MysqlParser.parse_noPanic (p : MysqlParser) {payload : Bytes} (h : 1 ≤ msgSize payload)
    (statementId : Nat) : NoPanic (p.parse payload statementId) := by
  by_cases hlen : payload.length < 9
  · have hshort : p.parse payload statementId = .ok ([], p) := if_pos hlen
    rw [hshort]
    exact noPanic_ok _
  have hlen : 9 ≤ payload.length := Nat.not_lt.mp hlen
  have hquery : NoPanic (readQuery payload (msgSize payload)) :=
    readQuery_noPanic (Nat.le_trans (by decide) hlen) h
  rw [MysqlParser.parse_eq p hlen, readStatementId_eq hlen]
  split
  · exact noPanic_bind hquery fun query _ => noPanic_ok _
  split
  · exact noPanic_ok _
  split
  · exact noPanic_bind hquery fun query _ => noPanic_ok _
  split
  · exact noPanic_ok _
  · exact noPanic_ok _

/-- The parser alone is not safe: a packet of no bytes. -/
example : (newMysqlParser.parse [0, 0, 0, 0, 3, 0, 0, 0, 0] 0).isOk = false := by decide +kernel

end L7
