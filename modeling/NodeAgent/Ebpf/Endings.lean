import NodeAgent.Ebpf.Statements

/-!
# The end of a message

The classifiers look at the end of a message, for CRLF or a Sync message. `TRUNCATE_PAYLOAD_SIZE`
rewrites the size before, so that in a message of `MAX_PAYLOAD_SIZE` bytes or more the bytes before
the last index of a payload buffer are taken for the end.

* `recognised_iff` — the messages that are recognised
-/

namespace Ebpf

open Infra

variable {buf : Memory} {w t : Bytes}

/-! ## Reading a message -/

theorem Memory.Holds.bpfRead {α : Type} (h : buf.Holds w) {offset : Int} {n : Nat}
    (hoffset : 0 ≤ offset) (hn : offset + n ≤ w.length) (failed : α) (k : Bytes → α) :
    Ebpf.bpfRead failed buf offset n k = k ((w.drop offset.toNat).take n) := by
  obtain ⟨start, rfl⟩ := Int.eq_ofNat_of_zero_le hoffset
  rw [Ebpf.bpfRead, probeRead_part h.probeRead (by omega), Int.toNat_natCast]

theorem Memory.Holds.bpfRead_zero {α : Type} (h : buf.Holds w) {n : Nat} (hn : n ≤ w.length)
    (failed : α) (k : Bytes → α) : Ebpf.bpfRead failed buf 0 n k = k (w.take n) :=
  h.bpfRead (Int.le_refl 0) (by omega) failed k

theorem byte_take {n : Nat} (i : Nat) (h : i < n) : byte (w.take n) i = byte w i := by
  rw [byte, byte, List.getD_eq_getElem?_getD, List.getD_eq_getElem?_getD, List.getElem?_take,
    if_pos h]

/-! ## The bytes that are taken for the end -/

/-- The last `n` bytes, as far as a truncated size goes. -/
def lookedAt (n : Nat) (w : Bytes) : Bytes := (w.drop (truncatePayloadSize w.length - n)).take n

/-- The message is shorter than a payload buffer, or has the bytes of its end before the last index.
-/
def EndSeen (t w : Bytes) : Prop :=
  w.length < maxPayloadSize ∨ (w.drop (maxPayloadSize - 1 - t.length)).take t.length = t

instance : Decidable (EndSeen t w) := inferInstanceAs (Decidable (_ ∨ _))

/-- **The bytes that are looked at are the end of the message in these cases only.** -/
theorem lookedAt_eq_iff (h : t <:+ w) : lookedAt t.length w = t ↔ EndSeen t w := by
  have hmax : maxPayloadSize = 1024 := rfl
  by_cases hshort : w.length < maxPayloadSize
  · -- nothing is cut off
    have hsize : truncatePayloadSize w.length = w.length := by
      rw [truncatePayloadSize]
      omega
    refine iff_of_true ?_ (.inl hshort)
    rw [lookedAt, hsize, ← List.suffix_iff_eq_drop.mp h, List.take_length]
  · have hsize : truncatePayloadSize w.length = maxPayloadSize - 1 := by
      rw [truncatePayloadSize]
      omega
    rw [lookedAt, hsize, EndSeen]
    exact (or_iff_right hshort).symm

theorem endsInCRLF_holds {α : Type} (h : buf.Holds w) (hlong : 2 ≤ w.length) (no k : α) :
    endsInCRLF no buf w.length k = if lookedAt 2 w = [13, 10] then k else no := by
  have hmax : maxPayloadSize = 1024 := rfl
  have hsize : truncatePayloadSize w.length ≤ w.length := Nat.min_le_left _ _
  have htwo : 2 ≤ truncatePayloadSize w.length := by
    rw [truncatePayloadSize]
    omega
  have hstart : ((truncatePayloadSize w.length : Int) - 2).toNat =
      truncatePayloadSize w.length - 2 := by
    omega
  rw [endsInCRLF, h.bpfRead (by omega) (by omega), ite_not, lookedAt, hstart]

/-! ## Messages -/

def crlf : Bytes := [13, 10]

def sync : Bytes := [83, 0, 0, 0, 4]

/-- The messages that have to be recognised by where they end. -/
inductive TextKind where
  | redisReply
  | redisError
  | natsPublish
  | natsDelivery
  | memcachedCommand
  | postgresExtended
  deriving DecidableEq

namespace TextKind

def heads : TextKind → List String
  | redisReply => ["*", ":", "$", "+"]
  | redisError => ["-"]
  | natsPublish => ["PUB ", "PUB\t", "HPUB ", "HPUB\t"]
  | natsDelivery => ["MSG ", "MSG\t", "HMSG ", "HMSG\t"]
  | memcachedCommand => memcachedCommands
  | postgresExtended => [""]

def tail : TextKind → Bytes
  | postgresExtended => sync
  | _ => crlf

structure Message (kind : TextKind) (w : Bytes) : Prop where
  long : 9 ≤ w.length
  head : ∃ s ∈ kind.heads, hasPrefix w (ascii s) = true
  ending : kind.tail <:+ w

instance (kind : TextKind) (w : Bytes) : Decidable (kind.Message w) :=
  decidable_of_iff (9 ≤ w.length ∧ (∃ s ∈ kind.heads, hasPrefix w (ascii s) = true) ∧
      kind.tail <:+ w)
    ⟨fun ⟨h1, h2, h3⟩ => ⟨h1, h2, h3⟩, fun ⟨h1, h2, h3⟩ => ⟨h1, h2, h3⟩⟩

/-- The classifier of this kind accepts the message, for what it is. -/
def Recognised : TextKind → Memory → Nat → Prop
  | redisReply, buf, n => isRedisResponse buf n = .ok
  | redisError, buf, n => isRedisResponse buf n = .failed
  | natsPublish, buf, n => natsMethod buf n = .produce
  | natsDelivery, buf, n => natsMethod buf n = .consume
  | memcachedCommand, buf, n => isMemcachedQuery buf n = true
  | postgresExtended, buf, n => (isPostgresQuery buf n).1 = true

instance (kind : TextKind) (buf : Memory) (n : Nat) : Decidable (kind.Recognised buf n) := by
  cases kind <;> exact inferInstanceAs (Decidable (_ = _))

end TextKind

/-- The write is one Query or one Close message by its length field. -/
def IsSingleMessage (w : Bytes) : Prop :=
  (byte w 0 = 81 ∨ byte w 0 = postgresFrameClose) ∧
    toU64 (signed 32 (big ((w.drop 1).take 4)) + 1) = w.length

instance : Decidable (IsSingleMessage w) := inferInstanceAs (Decidable (_ ∧ _))

/-! ## The classifiers on a message -/

theorem hasPrefix_take {p : Bytes} {n : Nat} (hn : p.length ≤ n) :
    hasPrefix (w.take n) p = hasPrefix w p := by
  rw [Bool.eq_iff_iff, hasPrefix, hasPrefix, List.isPrefixOf_iff_prefix,
    List.isPrefixOf_iff_prefix]
  exact ⟨fun h => h.trans (List.take_prefix n w), fun h => List.prefix_take_iff.mpr ⟨h, hn⟩⟩

theorem any_hasPrefix_take {l : List String} {n : Nat} (hl : ∀ s ∈ l, (ascii s).length ≤ n) :
    l.any (fun s => hasPrefix (w.take n) (ascii s)) = l.any (fun s => hasPrefix w (ascii s)) := by
  rw [Bool.eq_iff_iff, List.any_eq_true, List.any_eq_true]
  constructor
  · rintro ⟨s, hs, hp⟩
    exact ⟨s, hs, hasPrefix_take (hl s hs) ▸ hp⟩
  · rintro ⟨s, hs, hp⟩
    exact ⟨s, hs, (hasPrefix_take (hl s hs)).trans hp⟩

theorem not_hasPrefix {p q : Bytes} (hp : hasPrefix w p = true) (hpq : ¬ p <+: q)
    (hqp : ¬ q <+: p) : hasPrefix w q = false := by
  rw [Bool.eq_false_iff]
  intro hq
  rw [hasPrefix, List.isPrefixOf_iff_prefix] at hp hq
  exact (List.prefix_or_prefix_of_prefix hp hq).elim hpq hqp

theorem isRedisResponse_holds (h : buf.Holds w) (hlong : 9 ≤ w.length) :
    isRedisResponse buf w.length = if lookedAt 2 w = [13, 10] then
      if byte w 0 = 42 ∨ byte w 0 = 58 ∨ byte w 0 = 36 ∨ byte w 0 = 43 then .ok
      else if byte w 0 = 45 then .failed else .no
    else .no := by
  rw [isRedisResponse, h.bpfRead_zero (by omega), endsInCRLF_holds h (by omega),
    byte_take 0 (by omega)]

theorem natsMethod_holds (h : buf.Holds w) (hlong : 9 ≤ w.length) :
    natsMethod buf w.length = if lookedAt 2 w = [13, 10] then
      if TextKind.natsPublish.heads.any (fun m => hasPrefix w (ascii m)) then .produce
      else if TextKind.natsDelivery.heads.any (fun m => hasPrefix w (ascii m)) then .consume
      else .unknown
    else .unknown := by
  have hpublish : ∀ s ∈ TextKind.natsPublish.heads, (ascii s).length ≤ 5 := by decide
  have hdelivery : ∀ s ∈ TextKind.natsDelivery.heads, (ascii s).length ≤ 5 := by decide
  rw [natsMethod, if_neg (by omega), h.bpfRead_zero (by omega),
    endsInCRLF_holds h (by omega), ← any_hasPrefix_take hpublish,
    ← any_hasPrefix_take hdelivery]
  rfl

theorem isMemcachedQuery_holds (h : buf.Holds w) (hlong : 9 ≤ w.length) :
    isMemcachedQuery buf w.length = if lookedAt 2 w = [13, 10] then
      memcachedCommands.any (fun c => hasPrefix w (ascii c)) else false := by
  have hheads : ∀ s ∈ memcachedCommands, (ascii s).length ≤ 7 := by decide
  rw [isMemcachedQuery, if_neg (by omega), h.bpfRead_zero (by omega),
    endsInCRLF_holds h (by omega), any_hasPrefix_take hheads]

theorem isPostgresQuery_holds (h : buf.Holds w) (hlong : 9 ≤ w.length) :
    (isPostgresQuery buf w.length).1 = decide (IsSingleMessage w ∨ lookedAt 5 w = sync) := by
  have hmax : maxPayloadSize = 1024 := rfl
  have hsize : truncatePayloadSize w.length ≤ w.length := Nat.min_le_left _ _
  have hfive : 5 ≤ truncatePayloadSize w.length := by
    rw [truncatePayloadSize]
    omega
  have hstart : ((truncatePayloadSize w.length : Int) - 5).toNat =
      truncatePayloadSize w.length - 5 := by
    omega
  rw [isPostgresQuery, if_neg (by omega), h.bpfRead_zero (by omega),
    h.bpfRead (by omega) (by omega)]
  simp only [byte_take 0 Nat.zero_lt_one]
  show (if IsSingleMessage w then _ else _ : Bool × Option UInt8).1 = _
  by_cases hsingle : IsSingleMessage w
  · rw [if_pos hsingle]
    exact (decide_eq_true (Or.inl hsingle)).symm
  · rw [if_neg hsingle, h.bpfRead (by omega) (by omega), hstart]
    exact decide_eq_decide.mpr (or_iff_right hsingle).symm

/-! ## The messages that are recognised -/

theorem ite_eq_iff_of_ne {α : Type} {c : Prop} [Decidable c] {a b : α} (h : b ≠ a) :
    (if c then a else b) = a ↔ c := by
  by_cases hc : c
  · rw [if_pos hc]
    exact iff_of_true rfl hc
  · rw [if_neg hc]
    exact iff_of_false h hc

theorem head_byte {s : String} {x : UInt8} (hs : ascii s = [x])
    (h : hasPrefix w (ascii s) = true) : byte w 0 = x := by
  rw [hs] at h
  have hhead := hasPrefix_head h
  cases w with
  | nil => cases hhead
  | cons y w => exact Option.some.inj hhead

theorem redisReply_head (h : ∃ s ∈ TextKind.redisReply.heads, hasPrefix w (ascii s) = true) :
    byte w 0 = 42 ∨ byte w 0 = 58 ∨ byte w 0 = 36 ∨ byte w 0 = 43 := by
  obtain ⟨s, hs, hhead⟩ := h
  simp only [TextKind.heads, List.mem_cons, List.not_mem_nil, or_false] at hs
  rcases hs with rfl | rfl | rfl | rfl
  · exact .inl (head_byte rfl hhead)
  · exact .inr (.inl (head_byte rfl hhead))
  · exact .inr (.inr (.inl (head_byte rfl hhead)))
  · exact .inr (.inr (.inr (head_byte rfl hhead)))

theorem redisError_head (h : ∃ s ∈ TextKind.redisError.heads, hasPrefix w (ascii s) = true) :
    byte w 0 = 45 := by
  obtain ⟨s, hs, hhead⟩ := h
  simp only [TextKind.heads, List.mem_cons, List.not_mem_nil, or_false] at hs
  subst hs
  exact head_byte rfl hhead

theorem natsDelivery_head
    (h : ∃ s ∈ TextKind.natsDelivery.heads, hasPrefix w (ascii s) = true) :
    ¬ TextKind.natsPublish.heads.any (fun m => hasPrefix w (ascii m)) = true := by
  obtain ⟨s, hs, hhead⟩ := h
  have happart : ∀ p ∈ TextKind.natsDelivery.heads, ∀ q ∈ TextKind.natsPublish.heads,
      ¬ ascii p <+: ascii q ∧ ¬ ascii q <+: ascii p := by decide
  rw [List.any_eq_true]
  rintro ⟨q, hq, hprefix⟩
  obtain ⟨hpq, hqp⟩ := happart s hs q hq
  rw [not_hasPrefix hhead hpq hqp] at hprefix
  cases hprefix

theorem recognised_crlf_iff {kind : TextKind} (hbuf : buf.Holds w) (hw : kind.Message w)
    (hkind : kind ≠ .postgresExtended) :
    kind.Recognised buf w.length ↔ lookedAt 2 w = crlf := by
  obtain ⟨hlong, hhead, _⟩ := hw
  cases kind with
  | redisReply =>
    show isRedisResponse buf w.length = .ok ↔ _
    rw [isRedisResponse_holds hbuf hlong, if_pos (redisReply_head hhead)]
    exact ite_eq_iff_of_ne (by decide)
  | redisError =>
    have hfirst := redisError_head hhead
    have hother : ¬ (byte w 0 = 42 ∨ byte w 0 = 58 ∨ byte w 0 = 36 ∨ byte w 0 = 43) := by
      rw [hfirst]
      decide
    show isRedisResponse buf w.length = .failed ↔ _
    rw [isRedisResponse_holds hbuf hlong, if_neg hother, if_pos hfirst]
    exact ite_eq_iff_of_ne (by decide)
  | natsPublish =>
    show natsMethod buf w.length = .produce ↔ _
    rw [natsMethod_holds hbuf hlong, if_pos (List.any_eq_true.mpr hhead)]
    exact ite_eq_iff_of_ne (by decide)
  | natsDelivery =>
    show natsMethod buf w.length = .consume ↔ _
    rw [natsMethod_holds hbuf hlong, if_neg (natsDelivery_head hhead),
      if_pos (List.any_eq_true.mpr hhead)]
    exact ite_eq_iff_of_ne (by decide)
  | memcachedCommand =>
    have hany : memcachedCommands.any (fun m => hasPrefix w (ascii m)) = true :=
      List.any_eq_true.mpr hhead
    show isMemcachedQuery buf w.length = true ↔ _
    rw [isMemcachedQuery_holds hbuf hlong, hany]
    exact ite_eq_iff_of_ne (by decide)
  | postgresExtended => exact absurd rfl hkind

/-- **A complete message is recognised, and for what it is, if and only if it is shorter than a
payload buffer, or the bytes before the last index of the buffer are those of its end, or it is a
single Query or Close message of Postgres.** -/
theorem recognised_iff {kind : TextKind} (hbuf : buf.Holds w) (hw : kind.Message w) :
    kind.Recognised buf w.length ↔
      EndSeen kind.tail w ∨ (kind = .postgresExtended ∧ IsSingleMessage w) := by
  rw [← lookedAt_eq_iff hw.ending]
  by_cases hkind : kind = .postgresExtended
  · subst hkind
    show (isPostgresQuery buf w.length).1 = true ↔ _
    rw [isPostgresQuery_holds hbuf hw.long, decide_eq_true_iff, or_comm]
    simp only [true_and]
    rfl
  · have htail : kind.tail = crlf := by
      cases kind with
      | postgresExtended => exact absurd rfl hkind
      | _ => rfl
    rw [htail, or_iff_left fun h => hkind h.1]
    exact recognised_crlf_iff hbuf hw hkind

/-- A short message is recognised. -/
theorem recognised_short :
    TextKind.natsPublish.Message (ascii "PUB news 2\r\nhi\r\n") ∧
      natsMethod (.ofBytes (ascii "PUB news 2\r\nhi\r\n")) 16 = .produce :=
  ⟨by decide +kernel, (@recognised_iff _ _ .natsPublish
    (holds_ofBytes (ascii "PUB news 2\r\nhi\r\n")) (by decide +kernel)).mpr
      (.inl (by decide +kernel))⟩

def longMessage (head tail : Bytes) : Bytes := head ++ List.replicate 1024 97 ++ tail

/-- **One message of each kind that is not recognised, because it is longer than the buffer.** -/
theorem long_messages_missed :
    (TextKind.redisReply.Message (longMessage (ascii "$1024\r\n") crlf) ∧
      isRedisResponse (.ofBytes (longMessage (ascii "$1024\r\n") crlf)) 1033 = .no) ∧
    (TextKind.redisError.Message (longMessage (ascii "-ERR ") crlf) ∧
      isRedisResponse (.ofBytes (longMessage (ascii "-ERR ") crlf)) 1031 = .no) ∧
    (TextKind.natsPublish.Message (longMessage (ascii "PUB news 1024\r\n") crlf) ∧
      natsMethod (.ofBytes (longMessage (ascii "PUB news 1024\r\n") crlf)) 1041 = .unknown) ∧
    (TextKind.natsDelivery.Message (longMessage (ascii "MSG news 1 1024\r\n") crlf) ∧
      natsMethod (.ofBytes (longMessage (ascii "MSG news 1 1024\r\n") crlf)) 1043 = .unknown) ∧
    (TextKind.memcachedCommand.Message (longMessage (ascii "set k 0 0 1024\r\n") crlf) ∧
      isMemcachedQuery (.ofBytes (longMessage (ascii "set k 0 0 1024\r\n") crlf)) 1042 = false) ∧
    (TextKind.postgresExtended.Message (longMessage [80, 0, 0, 4, 8, 0] ([0, 0, 0] ++ sync)) ∧
      (isPostgresQuery (.ofBytes (longMessage [80, 0, 0, 4, 8, 0] ([0, 0, 0] ++ sync))) 1038).1 =
        false) := by
  refine ⟨?_, ?_, ?_, ?_, ?_, ?_⟩ <;> decide +kernel

end Ebpf
