import NodeAgent.Ebpf.Endings
import NodeAgent.Ebpf.Payload

/-!
# Replies of Postgres

A server acknowledges a Parse and a Bind message before it answers. `is_postgres_response` looks
behind one acknowledgement, and the answer to a statement that is parsed and bound in one go comes
behind two. Of a read into several buffers it is only shown what `read_iovec` has copied.

* `reply_recognised_iff` — the replies that are recognised
-/

namespace Ebpf

open Infra

/-! ## Length fields -/

theorem big_eq_bigEndian (b : Bytes) : big b = bigEndian b := by
  rw [big, little, List.foldr_reverse, bigEndian]
  congr 1
  funext n x
  rw [Nat.mul_comm, Nat.add_comm]

theorem big_toBigEndian {width n : Nat} (h : n < 256 ^ width) : big (toBigEndian width n) = n := by
  rw [big_eq_bigEndian, bigEndian_toBigEndian h]

theorem signed_of_lt {width n : Nat} (h : n < 2 ^ (width - 1)) : signed width n = n := if_pos h

theorem toU64_natCast {n : Nat} (h : n < 2 ^ 64) : toU64 (n : Int) = n := by
  rw [toU64]
  omega

/-! ## Messages -/

/-- A message of the server, with what fits an `int` as its length. -/
structure BackendMessage where
  type : UInt8
  body : Bytes
  fits : body.length + 4 < 2 ^ 31

namespace BackendMessage

/-- The length field counts itself and the body. -/
def wire (m : BackendMessage) : Bytes := m.type :: (toBigEndian 4 (m.body.length + 4) ++ m.body)

def parseComplete : BackendMessage := ⟨49, [], by decide⟩

def bindComplete : BackendMessage := ⟨50, [], by decide⟩

/-- ErrorResponse, ParameterDescription, RowDescription, DataRow or CommandComplete. -/
def IsAnswer (m : BackendMessage) : Prop := m.type ∈ ascii "EtTDC"

instance (m : BackendMessage) : Decidable m.IsAnswer := inferInstanceAs (Decidable (_ ∈ _))

def answer (m : BackendMessage) : Answer := if m.type = 69 then .failed else .ok

@[simp] theorem length_wire (m : BackendMessage) : m.wire.length = m.body.length + 5 := by
  rw [wire, List.length_cons, List.length_append, length_toBigEndian]
  omega

end BackendMessage

theorem wire_append_ne_nil (m : BackendMessage) (rest : Bytes) : m.wire ++ rest ≠ [] :=
  List.append_ne_nil_of_left_ne_nil (by simp [BackendMessage.wire]) _

/-- The acknowledgements, the answer and whatever comes behind it. -/
def reply (acks : List BackendMessage) (m : BackendMessage) (rest : Bytes) : Bytes :=
  acks.flatMap BackendMessage.wire ++ (m.wire ++ rest)

/-! ## What is read of a reply -/

def UserMemory.buffers (user : UserMemory) (args : ReadArgs) : List (Option Iovec) :=
  (List.range args.iovlen).map (user.iovecs args.buf)

/-- The call has read these bytes. The buffers are filled one after the other, and can be read. -/
def Delivers (user : UserMemory) (args : ReadArgs) (data : Bytes) : Prop :=
  if args.iovlen = 0 then (user.bytes args.buf).Holds data
  else ∃ parts, List.Forall₂ HasPart (user.buffers args) parts ∧ data <+: parts.flatten

/-- How many of the bytes are shown to the classifiers. -/
def shownSize (user : UserMemory) (args : ReadArgs) (ret : Nat) : Nat :=
  if args.iovlen = 0 then ret
  else copiedSize (min ret maxPayloadSize) ((user.buffers args).take maxIovecSize)

/-- What `trace_exit_read` finds of the bytes. `left` is what `iovec_buf` held before. -/
structure FoundReply (user : UserMemory) (args : ReadArgs) (data : Bytes) (left : Memory)
    (found : Found) : Prop where
  find : user.find args data.length left = some found
  size : found.size = shownSize user args data.length
  le : found.size ≤ data.length
  holds : found.payload.Holds (data.take (truncatePayloadSize found.size))
  beyond : args.iovlen ≠ 0 → ∀ i : Nat, found.size ≤ i → found.payload i = left i

theorem find_delivered {user : UserMemory} {args : ReadArgs} {data : Bytes}
    (h : Delivers user args data) (hne : data ≠ []) (left : Memory) :
    ∃ found, FoundReply user args data left found := by
  unfold Delivers at h
  by_cases hplain : args.iovlen = 0
  · rw [if_pos hplain] at h
    refine ⟨⟨user.bytes args.buf, data.length, data.length, left⟩, ?_⟩
    exact ⟨if_pos hplain, (if_pos hplain).symm, Nat.le_refl _, h.take _, fun hnot =>
      absurd hplain hnot⟩
  · rw [if_neg hplain] at h
    obtain ⟨parts, hparts, hdata⟩ := h
    have hmax : min data.length maxPayloadSize ≤ maxPayloadSize := Nat.min_le_right _ _
    have hfirst := List.forall₂_take maxIovecSize hparts
    obtain ⟨r, hr⟩ := @readIovecLoop_isSome (min data.length maxPayloadSize) _ _ ⟨0, 0, left⟩ hfirst
    have hgathered := readIovecLoop_gathered hmax (hfirst.imp fun _ _ => HasPart.writes)
      (gathered_nil _ left) hr
    rw [List.nil_append] at hgathered
    have hprefix : (parts.take maxIovecSize).flatten <+: parts.flatten := by
      refine ⟨(parts.drop maxIovecSize).flatten, ?_⟩
      rw [← List.flatten_append, List.take_append_drop]
    have hoffset : r.offset ≤ data.length :=
      Nat.le_trans hgathered.bound (Nat.min_le_left _ _)
    refine ⟨.ofIovecs r, ?_, ?_, hoffset, ?_, fun _ => (readIovecLoop_beyond hmax hr).2⟩
    · rw [UserMemory.find, if_neg hplain, readIovec, if_pos (by simpa using hne)]
      exact congrArg (Option.map Found.ofIovecs) hr
    · rw [shownSize, if_neg hplain]
      exact offset_of_zero hmax rfl hr
    · -- both are a beginning of what the buffers hold
      have hsame : (parts.take maxIovecSize).flatten.take (truncatePayloadSize r.offset) =
          data.take (truncatePayloadSize r.offset) := by
        have hle : truncatePayloadSize r.offset ≤ r.offset := Nat.min_le_left _ _
        rw [List.prefix_iff_eq_take.mp hprefix, List.prefix_iff_eq_take.mp hdata, List.take_take,
          List.take_take, Nat.min_eq_left hgathered.truncated_le, Nat.min_eq_left (by omega)]
      show r.buf.Holds (data.take (truncatePayloadSize r.offset))
      rw [← hsame]
      exact hgathered.holds

/-- The reply is shown to `is_postgres_response`, and this is what it makes of it. -/
def Recognised (user : UserMemory) (args : ReadArgs) (left : Memory) (ret : Nat)
    (answer : Answer) : Prop :=
  ∃ found, user.find args ret left = some found ∧ found.size ≠ 0 ∧
    isPostgresResponse found.payload found.size = answer

theorem FoundReply.seen_iff {user : UserMemory} {args : ReadArgs} {data : Bytes}
    {left : Memory} {found : Found} (h : FoundReply user args data left found) {answer : Answer} :
    Recognised user args left data.length answer ↔
      found.size ≠ 0 ∧ isPostgresResponse found.payload found.size = answer := by
  constructor
  · rintro ⟨found', hfind, hrest⟩
    cases hfind.symm.trans h.find
    exact hrest
  · exact fun hrest => ⟨found, h.find, hrest⟩

/-! ## The header that is looked at -/

section

variable {buf : Memory} {m : BackendMessage} {rest : Bytes} {n : Nat}

theorem postgresAnswer_of_isAnswer (h : m.IsAnswer) : postgresAnswer m.type = m.answer := by
  have hall : ∀ t ∈ ascii "EtTDC", postgresAnswer t = if t = 69 then .failed else .ok := by
    decide +kernel
  exact hall m.type h

theorem BackendMessage.answer_ne_no (m : BackendMessage) : m.answer ≠ .no := by
  unfold answer
  split <;> decide

theorem length_field : signed 32 (big (((m.wire ++ rest).drop 1).take 4)) = m.body.length + 4 := by
  have hfits := m.fits
  have hfield : ((m.wire ++ rest).drop 1).take 4 = toBigEndian 4 (m.body.length + 4) := by
    show ((toBigEndian 4 (m.body.length + 4) ++ m.body) ++ rest).take 4 = _
    rw [List.append_assoc, List.take_left' (length_toBigEndian 4 _)]
  rw [hfield, big_toBigEndian (by omega), signed_of_lt (by omega)]
  rfl

/-- A part of the bytes that are shown. -/
theorem bpfRead_shown {α : Type} {data : Bytes}
    (hbuf : buf.Holds (data.take (truncatePayloadSize n))) (hn : n ≤ data.length) {offset : Int}
    {k : Nat} (hoffset : 0 ≤ offset) (hk : offset + k ≤ n) (hsmall : offset + k ≤ 10) (failed : α)
    (f : Bytes → α) :
    bpfRead failed buf offset k f = f ((data.drop offset.toNat).take k) := by
  have hshown : offset + k ≤ truncatePayloadSize n := by
    simp only [truncatePayloadSize, maxPayloadSize]
    omega
  rw [hbuf.bpfRead hoffset (by rw [List.length_take]; omega), List.drop_take, List.take_take,
    Nat.min_eq_left (by omega)]

/-- **What is made of a message that is shown with its header.** -/
theorem isPostgresResponse_shown
    (hbuf : buf.Holds ((m.wire ++ rest).take (truncatePayloadSize n)))
    (hn : n ≤ (m.wire ++ rest).length) (hheader : 5 ≤ n) :
    isPostgresResponse buf n =
      if n < m.wire.length then .no
      else if (m.type = 49 ∨ m.type = 50) ∧ m.body = [] ∧ 10 ≤ n then postgresAnswer (byte rest 0)
      else postgresAnswer m.type := by
  have hfits := m.fits
  have htype : byte (((m.wire ++ rest).drop (0 : Int).toNat).take 1) 0 = m.type := rfl
  have hlength : toU64 ((m.body.length : Int) + 4 + 1) = m.wire.length := by
    have hcast : (m.body.length : Int) + 4 + 1 = (m.body.length + 5 : Nat) := by omega
    rw [hcast, toU64_natCast (by omega), BackendMessage.length_wire]
  have hempty : (m.body.length : Int) + 4 = 4 ↔ m.body = [] := by
    rw [← List.length_eq_zero_iff]
    omega
  unfold isPostgresResponse
  rw [bpfRead_shown hbuf hn (by omega) (by omega) (by omega),
    bpfRead_shown hbuf hn (by omega) (by omega) (by omega)]
  simp only [Int.toNat_one, length_field, htype, hlength]
  refine if_congr Iff.rfl rfl ?_
  by_cases hack : (m.type = 49 ∨ m.type = 50) ∧ m.body = [] ∧ 10 ≤ n
  · obtain ⟨htypes, hbody, hlong⟩ := hack
    have hbehind : (m.wire ++ rest).drop (5 : Int).toNat = rest :=
      List.drop_left' (by rw [BackendMessage.length_wire, hbody]; rfl)
    rw [if_pos ⟨htypes, hempty.mpr hbody, hlong⟩, if_pos ⟨htypes, hbody, hlong⟩,
      bpfRead_shown hbuf hn (by omega) (by omega) (by omega),
      bpfRead_shown hbuf hn (by omega) (by omega) (by omega), hbehind, byte_take 0 Nat.zero_lt_one]
  · rw [if_neg hack, if_neg (fun h => hack ⟨h.1, hempty.mp h.2.1, h.2.2⟩)]

/-- Behind an acknowledgement, nothing is looked at unless a second header is there. -/
theorem isPostgresResponse_short
    (hbuf : buf.Holds ((m.wire ++ rest).take (truncatePayloadSize n)))
    (hn : n ≤ (m.wire ++ rest).length) (hpos : n ≠ 0) (hshort : n < 10) :
    isPostgresResponse buf n = .no ∨ isPostgresResponse buf n = postgresAnswer m.type := by
  have htype : byte (((m.wire ++ rest).drop (0 : Int).toNat).take 1) 0 = m.type := rfl
  unfold isPostgresResponse
  rw [bpfRead_shown hbuf hn (by omega) (by omega) (by omega), htype, bpfRead]
  cases probeRead buf 1 4 with
  | none => exact .inl rfl
  | some len =>
    simp only
    split
    · exact .inl rfl
    · rw [if_neg (fun h => by omega)]
      exact .inr rfl

theorem big_four (b c d e : UInt8) : big [b, c, d, e] =
    e.toNat + 256 * (d.toNat + 256 * (c.toNat + 256 * b.toNat)) := by
  show little [e, d, c, b] = _
  simp [little]

theorem exists_four {l : Bytes} (h : l.length = 4) : ∃ b c d e, l = [b, c, d, e] := by
  obtain ⟨b, l, rfl⟩ := List.exists_cons_of_length_eq_add_one h
  obtain ⟨c, d, e, rfl⟩ := List.length_eq_three.mp (Nat.succ.inj h)
  exact ⟨b, c, d, e, rfl⟩

theorem first_length_byte : ∀ b, m.wire[1]? = some b → b.toNat < 128 := by
  intro b hb
  have hfits := m.fits
  have hlength := length_toBigEndian 4 (m.body.length + 4)
  have hbig : big (toBigEndian 4 (m.body.length + 4)) = m.body.length + 4 :=
    big_toBigEndian (by omega)
  change (toBigEndian 4 (m.body.length + 4) ++ m.body)[0]? = some b at hb
  rw [List.getElem?_append_left (by omega)] at hb
  generalize toBigEndian 4 (m.body.length + 4) = field at *
  obtain ⟨b', c, d, e, rfl⟩ := exists_four hlength
  cases hb
  rw [big_four] at hbig
  omega

/-- A message without its whole header is not recognised, if the bytes behind it are large. -/
theorem isPostgresResponse_cut
    (hbuf : buf.Holds ((m.wire ++ rest).take (truncatePayloadSize n)))
    (hn : n ≤ (m.wire ++ rest).length) (hshort : n < 5)
    (hbeyond : ∀ i : Nat, n ≤ i → i < 5 → buf i = some 127) : isPostgresResponse buf n = .no := by
  unfold isPostgresResponse bpfRead
  cases probeRead buf 0 1 with
  | none => rfl
  | some cmd =>
  cases hlen : probeRead buf 1 4 with
  | none => rfl
  | some len =>
  simp only
  obtain ⟨hlength, hbytes⟩ := probeRead_eq_some.mp hlen
  have htop : ∀ b, len[0]? = some b → b.toNat < 128 := by
    intro b hb
    rw [← hbytes 0 (by omega)] at hb
    change buf (1 : Nat) = some b at hb
    by_cases hcut : 1 < n
    · have hshown : 1 < truncatePayloadSize n := by
        simp only [truncatePayloadSize, maxPayloadSize]
        omega
      have hheld := hbuf 1 (by rw [List.length_take]; omega)
      rw [hb, List.getElem?_take, if_pos hshown,
        List.getElem?_append_left (by rw [BackendMessage.length_wire]; omega)] at hheld
      exact first_length_byte b hheld.symm
    · rw [hbeyond 1 (by omega) (by omega)] at hb
      cases hb
      decide
  have hlow : len[3]? = some 127 := by
    rw [← hbytes 3 (by omega)]
    exact hbeyond 4 (by omega) (by omega)
  obtain ⟨b, c, d, e, rfl⟩ := exists_four hlength
  cases hlow
  have hb := htop b rfl
  have hc := c.toNat_lt
  have hd := d.toNat_lt
  have he : (127 : UInt8).toNat = 127 := rfl
  have hbig := big_four b c d 127
  rw [he] at hbig
  rw [if_pos]
  rw [signed_of_lt (by omega)]
  have hcast : ((big [b, c, d, 127] : Nat) : Int) + 1 = (big [b, c, d, 127] + 1 : Nat) := rfl
  rw [hcast, toU64_natCast (by omega)]
  omega

end

/-! ## Replies -/

theorem BackendMessage.IsAnswer.not_ack {m : BackendMessage} (hm : m.IsAnswer) :
    m.type ≠ 49 ∧ m.type ≠ 50 := by
  have hall : ∀ t ∈ ascii "EtTDC", t ≠ 49 ∧ t ≠ 50 := by decide +kernel
  exact hall m.type hm

/-- How many bytes of a reply have to be shown: those of an answer that comes first, or else those
of two headers. -/
def neededSize (acks : List BackendMessage) (m : BackendMessage) : Nat :=
  if acks.length = 0 then m.wire.length else 10

section

variable {user : UserMemory} {args : ReadArgs} {m : BackendMessage} {rest : Bytes}

/-- The contents of `iovec_buf` from an earlier call. -/
def Leftover (left : Memory) : Prop := ∃ bytes : Bytes, bytes.length = 2 * maxPayloadSize ∧
  left = .ofBytes bytes

theorem recognised_none_iff (hm : m.IsAnswer) (h : Delivers user args (reply [] m rest)) :
    (∀ left, Leftover left → Recognised user args left (reply [] m rest).length m.answer) ↔
      m.wire.length ≤ shownSize user args (reply [] m rest).length := by
  have hne := wire_append_ne_nil m rest
  have hwire := m.length_wire
  constructor
  · intro hall
    by_contra hlarge
    let left := Memory.ofBytes (List.replicate (2 * maxPayloadSize) 127)
    obtain ⟨found, hfound⟩ := find_delivered h hne left
    obtain ⟨-, hanswer⟩ := hfound.seen_iff.mp (hall left ⟨_, List.length_replicate .., rfl⟩)
    rw [← hfound.size] at hlarge
    refine m.answer_ne_no (hanswer.symm.trans ?_)
    by_cases hheader : 5 ≤ found.size
    · rw [isPostgresResponse_shown hfound.holds hfound.le hheader, if_pos (by omega)]
    · refine isPostgresResponse_cut hfound.holds hfound.le (by omega) fun i hi hsmall => ?_
      have hvectored : args.iovlen ≠ 0 := by
        intro hplain
        have hsize := hfound.size
        rw [shownSize, if_pos hplain, show reply [] m rest = m.wire ++ rest from rfl,
          List.length_append] at hsize
        omega
      rw [hfound.beyond hvectored i hi]
      show (if (0 : Int) ≤ i then _ else _) = _
      rw [if_pos (Int.natCast_nonneg i), Int.toNat_natCast, List.getElem?_replicate, if_pos]
      simp only [maxPayloadSize]
      omega
  · intro hshown left _
    obtain ⟨found, hfound⟩ := find_delivered h hne left
    rw [← hfound.size] at hshown
    refine hfound.seen_iff.mpr ⟨by omega, ?_⟩
    rw [isPostgresResponse_shown hfound.holds hfound.le (by omega), if_neg (by omega),
      if_neg (fun hack => hack.1.elim hm.not_ack.1 hm.not_ack.2)]
    exact postgresAnswer_of_isAnswer hm

/-- What is made of a reply that begins with an acknowledgement. -/
theorem isPostgresResponse_ack {ack : BackendMessage} (htype : ack.type = 49 ∨ ack.type = 50)
    (hbody : ack.body = []) {found : Found} {left : Memory}
    (h : FoundReply user args (ack.wire ++ rest) left found) (hpos : found.size ≠ 0) :
    isPostgresResponse found.payload found.size =
      if 10 ≤ found.size then postgresAnswer (byte rest 0) else .no := by
  have hack : postgresAnswer ack.type = .no := by
    rcases htype with htype | htype <;> rw [htype] <;> decide
  have hwire := ack.length_wire
  rw [hbody, List.length_nil] at hwire
  by_cases hlong : 10 ≤ found.size
  · rw [isPostgresResponse_shown h.holds h.le (by omega), if_neg (by omega),
      if_pos ⟨htype, hbody, hlong⟩, if_pos hlong]
  · rw [if_neg hlong]
    rcases isPostgresResponse_short h.holds h.le hpos (by omega) with hno | hno
    · exact hno
    · exact hno.trans hack

theorem recognised_ack_iff {ack : BackendMessage} (htype : ack.type = 49 ∨ ack.type = 50)
    (hbody : ack.body = []) {answer : Answer} (hanswer : answer ≠ .no) {left : Memory}
    (h : Delivers user args (ack.wire ++ rest)) :
    Recognised user args left (ack.wire ++ rest).length answer ↔
      10 ≤ shownSize user args (ack.wire ++ rest).length ∧
        postgresAnswer (byte rest 0) = answer := by
  obtain ⟨found, hfound⟩ := find_delivered h (wire_append_ne_nil ack rest) left
  rw [hfound.seen_iff, ← hfound.size]
  constructor
  · rintro ⟨hpos, hresponse⟩
    rw [isPostgresResponse_ack htype hbody hfound hpos] at hresponse
    split at hresponse
    · next hlong => exact ⟨hlong, hresponse⟩
    · exact absurd hresponse.symm hanswer
  · rintro ⟨hlong, hresponse⟩
    have hpos : found.size ≠ 0 := by omega
    refine ⟨hpos, ?_⟩
    rw [isPostgresResponse_ack htype hbody hfound hpos, if_pos hlong]
    exact hresponse

/-- **The answer behind acknowledgements is recognised, for what it is and whatever an earlier call
has left in `iovec_buf`, if and only if there are not two of them and enough of the reply is
shown.** All of it is shown after a plain read. -/
theorem reply_recognised_iff {user : UserMemory} {args : ReadArgs} {acks : List BackendMessage}
    {m : BackendMessage} {rest : Bytes} (hacks : acks.Sublist [.parseComplete, .bindComplete])
    (hm : m.IsAnswer) (h : Delivers user args (reply acks m rest)) :
    (∀ left, Leftover left → Recognised user args left (reply acks m rest).length m.answer) ↔
      acks.length ≤ 1 ∧ neededSize acks m ≤ shownSize user args (reply acks m rest).length := by
  have hleft : Leftover (.ofBytes (List.replicate (2 * maxPayloadSize) 0)) :=
    ⟨_, List.length_replicate .., rfl⟩
  have hone : ∀ ack : BackendMessage, (ack.type = 49 ∨ ack.type = 50) → ack.body = [] →
      acks = [ack] → ((∀ left, Leftover left →
        Recognised user args left (reply acks m rest).length m.answer) ↔
          acks.length ≤ 1 ∧
            neededSize acks m ≤ shownSize user args (reply acks m rest).length) := by
    rintro ack htype hbody rfl
    have heq : reply [ack] m rest = ack.wire ++ (m.wire ++ rest) := by
      rw [reply, List.flatMap_singleton]
    rw [heq] at h ⊢
    have hshows : postgresAnswer (byte (m.wire ++ rest) 0) = m.answer :=
      postgresAnswer_of_isAnswer hm
    simp only [recognised_ack_iff htype hbody m.answer_ne_no h, hshows, and_true]
    exact ⟨fun hall => ⟨Nat.le_refl 1, hall _ hleft⟩, fun hcond _ _ => hcond.2⟩
  have hcases : acks = [] ∨ acks = [.parseComplete] ∨ acks = [.bindComplete] ∨
      acks = [.parseComplete, .bindComplete] := by
    simp only [List.sublist_cons_iff, List.sublist_nil] at hacks
    rcases hacks with (rfl | ⟨r, rfl, rfl⟩) | ⟨r, rfl, rfl | ⟨r, rfl, rfl⟩⟩
    · exact .inl rfl
    · exact .inr (.inr (.inl rfl))
    · exact .inr (.inl rfl)
    · exact .inr (.inr (.inr rfl))
  rcases hcases with rfl | hack | hack | rfl
  · rw [recognised_none_iff hm h]
    exact (and_iff_right (Nat.zero_le 1)).symm
  · exact hone _ (.inl rfl) rfl hack
  · exact hone _ (.inr rfl) rfl hack
  · -- the second acknowledgement is taken for the answer
    refine iff_of_false (fun hall => ?_) (fun hcond => absurd hcond.1 (by decide))
    have heq : reply [.parseComplete, .bindComplete] m rest = BackendMessage.parseComplete.wire ++
        (BackendMessage.bindComplete.wire ++ (m.wire ++ rest)) := by
      simp [reply]
    rw [heq] at h hall
    obtain ⟨-, hsecond⟩ :=
      (recognised_ack_iff (.inl rfl) rfl m.answer_ne_no h).mp (hall _ hleft)
    exact m.answer_ne_no hsecond.symm

end

def commandComplete : BackendMessage := ⟨67, ascii "SELECT 1" ++ [0], by decide⟩

/-- A read of these bytes into one buffer, which is given as such or as the only one of a list. -/
def readOf (data : Bytes) : UserMemory :=
  ⟨fun _ => .ofBytes data, fun _ _ => some ⟨.ofBytes data, data.length⟩, fun _ => none⟩

def plainRead : ReadArgs := ⟨3, 0, none, 0⟩

def vectoredRead : ReadArgs := ⟨3, 0, none, 1⟩

theorem delivers_plainRead (data : Bytes) : Delivers (readOf data) plainRead data :=
  holds_ofBytes data

theorem delivers_vectoredRead (data : Bytes) : Delivers (readOf data) vectoredRead data :=
  ⟨[data], .cons ⟨_, rfl, rfl, holds_ofBytes data⟩ .nil, by simp⟩

/-- Behind one acknowledgement the answer is recognised, also after a read into a list of buffers.
-/
theorem reply_behind_one :
    let data := reply [.bindComplete] commandComplete []
    (∀ left, Leftover left → Recognised (readOf data) plainRead left data.length .ok) ∧
      ∀ left, Leftover left → Recognised (readOf data) vectoredRead left data.length .ok := by
  intro data
  have hacks : [BackendMessage.bindComplete].Sublist [.parseComplete, .bindComplete] :=
    List.sublist_cons_self _ _
  have hm : commandComplete.IsAnswer := by decide
  exact ⟨(reply_recognised_iff hacks hm (delivers_plainRead data)).mpr (by decide +kernel),
    (reply_recognised_iff hacks hm (delivers_vectoredRead data)).mpr (by decide +kernel)⟩

/-- A row of 2000 bytes. -/
def dataRow : BackendMessage := ⟨68, List.replicate 2000 0, by rw [List.length_replicate]; decide⟩

/-- **The answer to a statement that is parsed, bound and executed in one go is not recognised, and
neither is a row of 2000 bytes after a read into a list of buffers.** -/
theorem reply_behind_two :
    let data := reply [.parseComplete, .bindComplete] commandComplete []
    let row := reply [] dataRow []
    ((readOf data).find plainRead data.length Slots.zero.iovec).map (fun found =>
      isPostgresResponse found.payload found.size) = some .no ∧
    (∀ left, Leftover left → Recognised (readOf row) plainRead left row.length .ok) ∧
    ¬ ∀ left, Leftover left → Recognised (readOf row) vectoredRead left row.length .ok := by
  intro data row
  have hm : dataRow.IsAnswer := by decide
  have hwire : dataRow.wire.length = 2005 := by
    rw [BackendMessage.length_wire, dataRow, List.length_replicate]
  have hrow : row.length = 2005 := by
    show (dataRow.wire ++ []).length = 2005
    rw [List.append_nil, hwire]
  refine ⟨by decide +kernel, (recognised_none_iff hm (delivers_plainRead row)).mpr ?_,
    fun hall => ?_⟩
  · rw [hwire]
    exact hrow.ge
  · have hshown := (recognised_none_iff hm (delivers_vectoredRead row)).mp hall
    have hfew : FewBuffers (((readOf row).buffers vectoredRead).take maxIovecSize) :=
      List.countP_le_length
    rw [shownSize, if_neg (by decide), copiedSize, if_pos hfew, hwire] at hshown
    exact absurd (Nat.le_trans hshown (Nat.min_le_right _ _)) (by decide)

end Ebpf
