import NodeAgent.Ebpf.Reported
import NodeAgent.L7.PreparedStatements

/-!
# Queries that are cut off

The kernel copies at most `MAX_PAYLOAD_SIZE - 1` bytes of a write, and the agent takes
`MAX_PAYLOAD_SIZE`. The last one is the zero of a buffer that nobody has written to. The parser of
Postgres takes it for the end of the query; the one of MySQL goes by the length in the packet and
takes it for a part of the query.

* `truncation_marked_iff` — exactly which queries are reported whole or marked
-/

namespace L7

open Infra Ebpf Prog

/-- The text is the query, or a proper beginning of it that is marked. -/
def Marked (query text : Bytes) : Prop :=
  text = query ∨ ∃ part, part <+: query ∧ part ≠ query ∧ text = part ++ ellipsis

theorem marked_take_iff {query : Bytes} {n : Nat} :
    Marked query (query.take n) ↔ query.length ≤ n ∨ ellipsis <:+ query.take n := by
  constructor
  · rintro (hall | ⟨part, _, _, hpart⟩)
    · have hlen := congrArg List.length hall
      rw [List.length_take] at hlen
      exact .inl (by omega)
    · exact .inr ⟨part, hpart.symm⟩
  · rintro (hlen | ⟨part, hpart⟩)
    · exact .inl (List.take_of_length_le hlen)
    · have hprefix : part <+: query := (List.prefix_append part ellipsis).trans
        (hpart ▸ List.take_prefix n query)
      refine .inr ⟨part, hprefix, fun heq => ?_, hpart.symm⟩
      have hlen : (part ++ ellipsis).length ≤ query.length := by
        rw [hpart, List.length_take]
        omega
      rw [heq, List.length_append] at hlen
      exact absurd hlen (by simp [ellipsis, ascii])

/-! ## Postgres -/

/-- What is shown of the body of a message: all of it, or what fits and a zero. -/
def shownBody (body : Bytes) : Bytes :=
  if body.length < maxPayloadSize - 5 then body else body.take (maxPayloadSize - 6) ++ [0]

theorem shown_message {field : Bytes} (hfield : field.length = 4) (type : UInt8) (body : Bytes) :
    shown (type :: (field ++ body)) = type :: (field ++ shownBody body) := by
  have hmax : maxPayloadSize = 1024 := rfl
  have hlen := length_message type field body
  unfold shown shownBody
  by_cases hshort : body.length < maxPayloadSize - 5
  · rw [if_pos hshort, if_pos (by omega)]
  · rw [if_neg hshort, if_neg (by omega), hmax]
    show (type :: (field ++ body)).take (1022 + 1) ++ [0] =
      type :: (field ++ (body.take 1018 ++ [0]))
    rw [List.take_succ_cons, List.take_append, List.take_of_length_le (by omega), hfield,
      List.cons_append, List.append_assoc]

section

variable {query : Bytes} (hquery : 0 ∉ query) (rest : Bytes)

include hquery

theorem cutQuery_take (n : Nat) : cutQuery ((query ++ 0 :: rest).take n ++ [0]) = query.take n := by
  by_cases hn : n ≤ query.length
  · -- the query is cut, and the zero ends it
    rw [List.take_append_of_le_length hn]
    exact cutQuery_append (fun h => hquery (List.mem_of_mem_take h)) []
  · obtain ⟨k, hk⟩ : ∃ k, n - query.length = k + 1 := ⟨n - query.length - 1, by omega⟩
    rw [List.take_append, List.take_of_length_le (by omega), hk, List.take_succ_cons,
      List.append_assoc, List.cons_append, cutQuery_append hquery]

theorem cutQuery_shownBody : cutQuery (shownBody (query ++ 0 :: rest)) = query.take 1018 := by
  unfold shownBody
  split
  · rename_i hshort
    have hmax : maxPayloadSize = 1024 := rfl
    rw [List.length_append, List.length_cons] at hshort
    rw [cutQuery_append hquery, List.take_of_length_le (by omega)]
  · exact cutQuery_take hquery rest 1018

end

theorem shownBody_name {name tail : Bytes} (hname : name.length < 1018) :
    ∃ tail', shownBody (name ++ 0 :: tail) = name ++ 0 :: tail' ∧
      (tail' = tail ∧ name.length + tail.length < 1018 ∨
        tail' = tail.take (1017 - name.length) ++ [0]) := by
  have hmax : maxPayloadSize = 1024 := rfl
  have hlen : (name ++ 0 :: tail).length = name.length + tail.length + 1 := by
    rw [List.length_append, List.length_cons]
    rfl
  unfold shownBody
  by_cases hshort : (name ++ 0 :: tail).length < maxPayloadSize - 5
  · rw [if_pos hshort]
    exact ⟨tail, rfl, .inl ⟨rfl, by omega⟩⟩
  · refine ⟨_, ?_, .inr rfl⟩
    obtain ⟨k, hk⟩ : ∃ k, maxPayloadSize - 6 - name.length = k + 1 :=
      ⟨1017 - name.length, by omega⟩
    rw [if_neg hshort, List.take_append, List.take_of_length_le (by omega), hk,
      List.take_succ_cons, List.append_assoc, List.cons_append,
      show k = 1017 - name.length by omega]

theorem shownBody_long {name : Bytes} (hname : ¬ name.length < 1018) (tail : Bytes) :
    shownBody (name ++ 0 :: tail) = name.take 1018 ++ 0 :: [] := by
  have hmax : maxPayloadSize = 1024 := rfl
  have hlen : (name ++ 0 :: tail).length = name.length + tail.length + 1 := by
    rw [List.length_append, List.length_cons]
    rfl
  rw [shownBody, if_neg (by omega), hmax, List.take_append_of_le_length (by omega)]

theorem cutQuery_shown {name query : Bytes} (hquery : 0 ∉ query) (rest : Bytes) {tail : Bytes}
    (htail : tail = query ++ 0 :: rest ∧ name.length + (query ++ 0 :: rest).length < 1018 ∨
      tail = (query ++ 0 :: rest).take (1017 - name.length) ++ [0]) :
    cutQuery tail = query.take (1017 - name.length) := by
  rcases htail with ⟨rfl, hlen⟩ | rfl
  · rw [List.length_append, List.length_cons] at hlen
    rw [cutQuery_append hquery, List.take_of_length_le (by omega)]
  · exact cutQuery_take hquery rest _

/-! ## Messages -/

/-- A message with a query, as it is written. Of a query that is too long for one packet, MySQL
sends the first part. -/
inductive SqlMessage where
  | query (text : CString) (rest : Bytes)
  | parse (name query : CString) (types rest : Bytes)
  | comQuery (text : Bytes)

namespace SqlMessage

def protocol : SqlMessage → Protocol
  | .query .. | .parse .. => .postgres
  | .comQuery _ => .mysql

def text : SqlMessage → Bytes
  | .query text _ => text.bytes
  | .parse _ q _ _ => q.bytes
  | .comQuery text => text

def wire : SqlMessage → Bytes
  | .query text rest =>
    postgresFrameQuery :: (toBigEndian 4 (text.bytes.length + 5) ++ (text.bytes ++ 0 :: rest))
  | .parse name q types rest =>
    postgresFrameParse ::
      (toBigEndian 4 (name.bytes.length + q.bytes.length + types.length + 6) ++
        (name.bytes ++ 0 :: (q.bytes ++ 0 :: (types ++ rest))))
  | .comQuery text => mysqlPacket mysqlComQuery (text.take (2 ^ 24 - 2))

/-- The text is reported as the query of the payload. -/
def Reads (payload text : Bytes) : SqlMessage → Prop
  | .query .. => ∀ p : PostgresParser, p.parse payload = .ok (text, p)
  | .parse .. => ∀ p : PostgresParser, ∃ name, p.parse payload =
      .ok (ascii "PREPARE " ++ name ++ ascii " AS " ++ text,
        ⟨p.preparedStatements.insert name text⟩)
  | .comQuery _ => ∀ (p : MysqlParser) (statementId : Nat),
      p.parse payload statementId = .ok (text, p)

def reported : SqlMessage → Bytes
  | .query text _ => text.bytes.take 1018
  | .parse name q _ _ =>
    if name.bytes.length < 1018 then q.bytes.take (1017 - name.bytes.length) else ellipsis
  | .comQuery text =>
    if text.length < 4 then []
    else if text.length ≤ 1018 then text
    else if text.length = 1019 then text.take 1018 ++ [0]
    else text.take 1018 ++ [0] ++ ellipsis

/-- The query fits, or it happens to end in dots or in a zero where it is cut off. -/
def Fits : SqlMessage → Prop
  | .query text _ => text.bytes.length ≤ 1018 ∨ ellipsis <:+ text.bytes.take 1018
  | .parse name q _ _ =>
    if name.bytes.length < 1018 then
      name.bytes.length + q.bytes.length ≤ 1017 ∨
        ellipsis <:+ q.bytes.take (1017 - name.bytes.length)
    else q.bytes ≠ []
  | .comQuery text =>
    (text = [] ∨ 4 ≤ text.length) ∧ (text.length ≤ 1018 ∨ text[1018]? = some 0)

end SqlMessage

/-! ## What is reported -/

theorem reads_query (text : CString) (rest : Bytes) :
    (SqlMessage.query text rest).Reads (shown (SqlMessage.query text rest).wire)
      (SqlMessage.query text rest).reported := by
  intro p
  rw [SqlMessage.wire, shown_message (length_toBigEndian 4 _),
    p.parse_query (length_toBigEndian 4 _), cutQuery_shownBody text.zero_notMem]
  rfl

theorem reads_parse (name query : CString) (types rest : Bytes) :
    (SqlMessage.parse name query types rest).Reads
      (shown (SqlMessage.parse name query types rest).wire)
      (SqlMessage.parse name query types rest).reported := by
  intro p
  rw [SqlMessage.wire, shown_message (length_toBigEndian 4 _), SqlMessage.reported]
  by_cases hname : name.bytes.length < 1018
  · obtain ⟨tail, hshown, htail⟩ := @shownBody_name name.bytes
      (query.bytes ++ 0 :: (types ++ rest)) hname
    refine ⟨name.bytes, ?_⟩
    rw [if_pos hname, hshown, p.parse_parse (length_toBigEndian 4 _) name.zero_notMem,
      cutQuery_shown query.zero_notMem _ htail]
  · have hcut : 0 ∉ name.bytes.take 1018 := fun h => name.zero_notMem (List.mem_of_mem_take h)
    refine ⟨name.bytes.take 1018, ?_⟩
    rw [if_neg hname, shownBody_long hname, p.parse_parse (length_toBigEndian 4 _) hcut]
    rfl

theorem shown_mysqlMessage {size : Nat} {command : UInt8} {body : Bytes}
    (h : 1018 < body.length) : shown (mysqlMessage size command body) =
      mysqlMessage size command (body.take 1018 ++ [0]) := by
  have hmax : maxPayloadSize = 1024 := rfl
  have hlen := length_mysqlMessage size command body
  have hheader : ((toBigEndian 3 size).reverse ++ [0]).length = 4 := by simp
  rw [shown, if_neg (by omega), hmax, mysqlMessage, List.take_append,
    List.take_of_length_le (by omega), hheader]
  show _ ++ (command :: body).take (1018 + 1) ++ [0] = _
  rw [List.take_succ_cons, List.append_assoc]
  rfl

theorem parse_comQuery (p : MysqlParser) (statementId : Nat) {size : Nat} {body : Bytes}
    (hlong : 4 ≤ body.length) (hle : body.length < size) (hsize : size < 2 ^ 24) :
    p.parse (mysqlMessage size mysqlComQuery body) statementId =
      .ok (if body.length + 1 = size then body else body ++ ellipsis, p) := by
  have hlen := length_mysqlMessage size mysqlComQuery body
  rw [MysqlParser.parse_eq p (by omega), mysqlMessage_command, mysqlMessage_msgSize _ _ hsize,
    readQuery_mysqlMessage _ _ _ hle]
  rfl

theorem reads_comQuery (text : Bytes) :
    (SqlMessage.comQuery text).Reads (shown (SqlMessage.comQuery text).wire)
      (SqlMessage.comQuery text).reported := by
  intro p statementId
  have hmax : maxPayloadSize = 1024 := rfl
  unfold SqlMessage.wire SqlMessage.reported mysqlPacket
  dsimp only
  generalize hbody : text.take (2 ^ 24 - 2) = body
  have hlen : body.length = min (2 ^ 24 - 2) text.length := by rw [← hbody, List.length_take]
  have hpacket := length_mysqlMessage (body.length + 1) mysqlComQuery body
  by_cases hlong : 1018 < body.length
  · -- what fits, and a zero
    have htake : body.take 1018 = text.take 1018 := by
      rw [← hbody, List.take_take]
      rfl
    have hshort : (text.take 1018 ++ [0]).length = 1019 := by
      rw [List.length_append, List.length_take, List.length_singleton]
      omega
    rw [shown_mysqlMessage hlong, htake, parse_comQuery p _ (by omega) (by omega) (by omega),
      hshort, if_neg (show ¬ text.length < 4 by omega), if_neg (show ¬ text.length ≤ 1018 by omega)]
    by_cases hone : text.length = 1019
    · rw [if_pos (show 1019 + 1 = body.length + 1 by omega), if_pos hone]
    · rw [if_neg (show ¬ 1019 + 1 = body.length + 1 by omega), if_neg hone]
  · have hall : body = text := hbody.symm.trans (List.take_of_length_le (by omega))
    subst hall
    rw [shown, if_pos (by omega)]
    by_cases htiny : body.length < 4
    · rw [if_pos htiny]
      exact if_pos (by rw [hpacket, mysqlMsgHeaderSize]; omega)
    · rw [if_neg htiny, if_pos (by omega),
        parse_comQuery p _ (by omega) (Nat.lt_succ_self _) (by omega), if_pos rfl]

/-- **What is reported of a message.** -/
theorem reads_iff (m : SqlMessage) {text : Bytes} :
    m.Reads (shown m.wire) text ↔ text = m.reported := by
  cases m with
  | query q rest =>
    refine ⟨fun h => ?_, fun h => h ▸ reads_query q rest⟩
    have heq := (h newPostgresParser).symm.trans (reads_query q rest newPostgresParser)
    exact (Prod.mk.inj (Except.ok.inj heq)).1
  | parse name q types rest =>
    refine ⟨fun h => ?_, fun h => h ▸ reads_parse name q types rest⟩
    obtain ⟨name₁, h₁⟩ := h newPostgresParser
    obtain ⟨name₂, h₂⟩ := reads_parse name q types rest newPostgresParser
    -- the statement that was stored tells the query
    have htable := congrArg PostgresParser.preparedStatements
      (Prod.mk.inj (Except.ok.inj (h₁.symm.trans h₂))).2
    have hentry := List.head_eq_of_cons_eq (congrArg AList.entries htable)
    exact eq_of_heq (Sigma.mk.inj hentry).2
  | comQuery q =>
    refine ⟨fun h => ?_, fun h => h ▸ reads_comQuery q⟩
    have heq := (h newMysqlParser 0).symm.trans (reads_comQuery q newMysqlParser 0)
    exact (Prod.mk.inj (Except.ok.inj heq)).1

/-! ## What is marked -/

theorem marked_parse_iff (name query : CString) (types rest : Bytes) :
    Marked query.bytes (SqlMessage.parse name query types rest).reported ↔
      (SqlMessage.parse name query types rest).Fits := by
  rw [SqlMessage.reported, SqlMessage.Fits]
  by_cases hname : name.bytes.length < 1018
  · rw [if_pos hname, if_pos hname, marked_take_iff]
    refine or_congr ?_ Iff.rfl
    omega
  · rw [if_neg hname, if_neg hname]
    constructor
    · rintro (hall | ⟨part, hprefix, hne, _⟩) hnil
      · rw [hnil] at hall
        cases hall
      · rw [hnil] at hprefix hne
        exact hne (List.prefix_nil.mp hprefix)
    · exact fun hne => .inr ⟨[], List.nil_prefix, hne.symm, rfl⟩

theorem take_append_zero_prefix_iff {text : Bytes} {n : Nat} :
    text.take n ++ [0] <+: text ∧ n < text.length ↔ text[n]? = some 0 := by
  constructor
  · rintro ⟨⟨rest, hrest⟩, hlen⟩
    have hn : (text.take n).length = n := by
      rw [List.length_take]
      omega
    rw [← hrest, List.append_assoc, List.getElem?_append_right (by omega), hn, Nat.sub_self]
    rfl
  · intro hzero
    obtain ⟨hlen, hbyte⟩ := List.getElem?_eq_some_iff.mp hzero
    have htake : text.take (n + 1) = text.take n ++ [0] := by
      rw [List.take_add_one, hzero]
      rfl
    exact ⟨htake ▸ List.take_prefix _ _, hlen⟩

theorem marked_cut_iff {text : Bytes} (h : 1018 < text.length) :
    Marked text (if text.length = 1019 then text.take 1018 ++ [0]
      else text.take 1018 ++ [0] ++ ellipsis) ↔ text.take 1018 ++ [0] <+: text := by
  have hdots : ellipsis = [46, 46, 46] := by decide
  have hlen : (text.take 1018 ++ [0]).length = 1019 := by
    rw [List.length_append, List.length_take, List.length_singleton]
    omega
  by_cases hone : text.length = 1019
  · rw [if_pos hone]
    constructor
    · rintro (hall | ⟨part, _, _, hpart⟩)
      · exact ⟨[], (List.append_nil _).trans hall⟩
      · -- it ends in a zero
        have hlast := congrArg List.getLast? hpart
        rw [hdots, List.getLast?_append, List.getLast?_append] at hlast
        simp at hlast
    · exact fun h => .inl (h.eq_of_length (by omega))
  · rw [if_neg hone]
    constructor
    · rintro (hall | ⟨part, hprefix, _, hpart⟩)
      · exact ⟨ellipsis, hall⟩
      · rw [List.append_cancel_right hpart]
        exact hprefix
    · intro h
      refine .inr ⟨_, h, fun heq => hone ?_, rfl⟩
      rw [← heq, hlen]

theorem marked_comQuery_iff (text : Bytes) :
    Marked text (SqlMessage.comQuery text).reported ↔ (SqlMessage.comQuery text).Fits := by
  rw [SqlMessage.reported, SqlMessage.Fits]
  by_cases htiny : text.length < 4
  · rw [if_pos htiny]
    constructor
    · rintro (hall | ⟨part, _, _, hpart⟩)
      · exact ⟨.inl hall.symm, .inl (by omega)⟩
      · have hdots : ellipsis = [46, 46, 46] := by decide
        rw [hdots] at hpart
        exact absurd hpart.symm (by simp)
    · exact fun h => .inl (h.1.resolve_right (by omega)).symm
  rw [if_neg htiny]
  by_cases hfits : text.length ≤ 1018
  · rw [if_pos hfits]
    exact iff_of_true (.inl rfl) ⟨.inr (by omega), .inl hfits⟩
  rw [if_neg hfits, marked_cut_iff (by omega), ← take_append_zero_prefix_iff]
  constructor
  · exact fun h => ⟨.inr (by omega), .inr ⟨h, by omega⟩⟩
  · exact fun h => (h.2.resolve_left hfits).1

/-- **A query that was recorded from one buffer and reported is reported whole or marked if and only
if it fits, or happens to end in dots or in a zero where it is cut off.** -/
theorem truncation_marked_iff (m : SqlMessage) {k : L7RequestKey} {req : L7Request} {e : L7Event}
    (hw : RecordedFrom m.wire k req) (he : ReportedBy k req e) (hp : e.protocol = m.protocol) :
    (∃ text, m.Reads e.requestPayload text ∧ Marked m.text text) ↔ m.Fits := by
  have hsql : e.protocol = .postgres ∨ e.protocol = .mysql := by
    rw [hp]
    cases m with
    | query | parse => exact .inl rfl
    | comQuery => exact .inr rfl
  rw [requestPayload_shown hw he hsql]
  have hreported : (∃ text, m.Reads (shown m.wire) text ∧ Marked m.text text) ↔
      Marked m.text m.reported := by
    constructor
    · rintro ⟨text, hreads, hmarked⟩
      rwa [(reads_iff m).mp hreads] at hmarked
    · exact fun hmarked => ⟨m.reported, (reads_iff m).mpr rfl, hmarked⟩
  rw [hreported]
  cases m with
  | query text rest => exact marked_take_iff
  | parse name query types rest => exact marked_parse_iff name query types rest
  | comQuery text => exact marked_comQuery_iff text

/-! ## Two queries -/

/-- The maps after the bytes were written on a new connection, when a read has begun. -/
def afterWrite (buf : Memory) (w : Bytes) : Maps :=
  let m := (play bpfStep (traceEnterWrite Slots.zero 1 3 false (.plain buf w.length)) (fun _ => 0)
    (Maps.empty.connect ⟨3, 1⟩ ⟨0, 0, 0⟩)).2
  { m with reads := Function.update m.reads 1 (some ⟨3, 0, none, 0⟩) }

/-- The server says that the command is complete. -/
def completeReply : UserMemory :=
  ⟨fun _ => .ofBytes [67, 0, 0, 0, 5, 0], fun _ _ => none, fun _ => none⟩

def afterReply (buf : Memory) (w : Bytes) : Maps :=
  (play bpfStep (traceExitRead Slots.zero completeReply 1 1 false 6) (fun _ => 0)
    (afterWrite buf w)).2

theorem exists_reported {buf : Memory} {w : Bytes} {protocol : Protocol}
    (hbuf : buf.Shows w.length w)
    (hrequest : ((afterWrite buf w).requests ⟨3, 1, false, -1⟩).isSome = true)
    (hnone : (afterWrite buf w).l7Events.isEmpty = true)
    (hevents : (afterReply buf w).l7Events.map L7Event.protocol = [protocol]) :
    ∃ k req e, RecordedFrom w k req ∧ ReportedBy k req e ∧ e.protocol = protocol := by
  obtain ⟨req, hreq⟩ := Option.isSome_iff_exists.mp hrequest
  obtain ⟨e, hsent, hprotocol⟩ := List.map_eq_singleton_iff.mp hevents
  have hclean : Slots.zero.Clean := ⟨rfl, rfl⟩
  refine ⟨⟨3, 1, false, -1⟩, req, e, ?_, ?_, hprotocol⟩
  · exact ⟨Slots.zero, 1, 3, false, buf, fun _ => 0, Maps.empty.connect ⟨3, 1⟩ ⟨0, 0, 0⟩, hclean,
      ⟨rfl, hbuf⟩, rfl, hreq⟩
  · refine ⟨Slots.zero, completeReply, 1, 1, false, 6, fun _ => 0, afterWrite buf w,
      ⟨3, 0, none, 0⟩, hclean, ?_, rfl, hreq, ?_⟩
    · simp only [afterWrite, Function.update_self]
    · rw [List.isEmpty_iff.mp hnone]
      exact hsent

theorem shows_ofBytes (w : Bytes) : (Memory.ofBytes w).Shows w.length w :=
  fun i _ v hv => by simpa [Memory.ofBytes] using hv

theorem shortText_notMem : 0 ∉ ascii "select 1" := by decide +kernel

def shortQuery : SqlMessage := .query ⟨ascii "select 1", shortText_notMem⟩ []

theorem truncation_marked_short : ∃ (k : L7RequestKey) (req : L7Request) (e : L7Event),
    RecordedFrom shortQuery.wire k req ∧ ReportedBy k req e ∧ e.protocol = .postgres ∧
      ∃ text, shortQuery.Reads e.requestPayload text ∧ Marked shortQuery.text text := by
  obtain ⟨k, req, e, hw, he, hp⟩ := @exists_reported (.ofBytes shortQuery.wire) shortQuery.wire
    .postgres (shows_ofBytes _) (by decide +kernel) (by decide +kernel) (by decide +kernel)
  exact ⟨k, req, e, hw, he, hp,
    (truncation_marked_iff shortQuery hw he hp).mpr (.inl (by decide +kernel))⟩

def lettersBuffer (head : Bytes) (n : Nat) : Memory := fun i =>
  if i < 0 then none
  else if i < head.length then head[i.toNat]?
  else if i < head.length + n then some 97
  else if i = head.length + n then some 0
  else none

theorem lettersBuffer_shows (head : Bytes) (n size : Nat) :
    (lettersBuffer head n).Shows size (head ++ (List.replicate n 97 ++ [0])) := by
  intro i _ v hv
  simp only [lettersBuffer, show ¬ (i : Int) < 0 by omega, if_false, Int.toNat_natCast] at hv
  by_cases hhead : i < head.length
  · rw [if_pos (by omega)] at hv
    rw [List.getElem?_append_left hhead]
    exact hv
  rw [if_neg (by omega)] at hv
  rw [List.getElem?_append_right (Nat.not_lt.mp hhead)]
  by_cases hletter : i < head.length + n
  · rw [if_pos (by omega)] at hv
    rw [List.getElem?_append_left (by rw [List.length_replicate]; omega),
      List.getElem?_replicate_of_lt (by omega)]
    exact hv
  rw [if_neg (by omega)] at hv
  rw [List.getElem?_append_right (by rw [List.length_replicate]; omega), List.length_replicate]
  by_cases hlast : i = head.length + n
  · rw [if_pos (by omega)] at hv
    rw [hlast, Nat.add_sub_cancel_left, Nat.sub_self]
    exact hv
  · rw [if_neg (by omega)] at hv
    cases hv

def longQuery : SqlMessage :=
  .query ⟨List.replicate 1019 97, fun h => absurd (List.eq_of_mem_replicate h) (by decide)⟩ []

/-- **Of a query of 1019 bytes, 1018 are reported without a mark.** -/
theorem truncation_unmarked : ∃ (k : L7RequestKey) (req : L7Request) (e : L7Event),
    RecordedFrom longQuery.wire k req ∧ ReportedBy k req e ∧ e.protocol = .postgres ∧
      longQuery.Reads e.requestPayload (List.replicate 1018 97) ∧
      ¬ Marked longQuery.text (List.replicate 1018 97) := by
  have hbuf := lettersBuffer_shows [81, 0, 0, 4, 0] 1019 longQuery.wire.length
  have hwire : [81, 0, 0, 4, 0] ++ (List.replicate 1019 97 ++ [0]) = longQuery.wire := by
    decide +kernel
  rw [hwire] at hbuf
  obtain ⟨k, req, e, hw, he, hp⟩ := @exists_reported _ longQuery.wire .postgres hbuf
    (by decide +kernel) (by decide +kernel) (by decide +kernel)
  have htake : longQuery.text.take 1018 = List.replicate 1018 97 := List.take_replicate
  have hlen : longQuery.text.length = 1019 := List.length_replicate
  refine ⟨k, req, e, hw, he, hp, ?_, ?_⟩
  · rw [requestPayload_shown hw he (.inl hp), reads_iff]
    exact htake.symm
  · rw [← htake, marked_take_iff, htake, hlen]
    rintro (hshort | ⟨part, hpart⟩)
    · exact absurd hshort (by decide)
    · have hdot : (46 : UInt8) ∈ List.replicate 1018 97 :=
        hpart ▸ List.mem_append_right part (by decide +kernel)
      exact absurd (List.eq_of_mem_replicate hdot) (by decide)

end L7
