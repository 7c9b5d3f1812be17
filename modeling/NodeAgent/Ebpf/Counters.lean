import NodeAgent.Ebpf.Calls
import NodeAgent.Ebpf.Payload
import NodeAgent.Infra.Sequences

/-!
# The byte counters of a connection

The handlers add to the counters of a connection what they know of a call: for a write the size that
was asked for, for a read the result, or the sizes of the buffers if there are several, 32 at most.
The kernel may transfer fewer bytes, or more than were looked at.

* `counters_exact_iff` — the counters are right in a run if and only if every call is exact
-/

namespace Ebpf

open Infra Prog

/-! ## The system calls -/

section

variable (slots : Slots) (user : UserMemory) (id pid fd : Nat)

def sysEnterWrite (buf : Memory) (size : Nat) : BpfProg Slots :=
  traceEnterWrite slots pid fd false (.plain buf size)

def sysEnterWritev (iovecs : List (Option Iovec)) : BpfProg Slots :=
  traceEnterWrite slots pid fd false (.iovecs iovecs)

/-- A message header that cannot be read is `none`. -/
def sysEnterSendmsg : Option (List (Option Iovec)) → BpfProg Slots
  | none => .ret slots
  | some iovecs => traceEnterWrite slots pid fd false (.iovecs iovecs)

def sysEnterRead (buf : Nat) : BpfProg Unit := traceEnterRead id pid ⟨fd, buf, none, 0⟩

def sysEnterReadv (iovec iovlen : Nat) : BpfProg Unit :=
  traceEnterRead id pid ⟨fd, iovec, none, iovlen⟩

/-- The header has the address of the buffers and their number. -/
def sysEnterRecvmsg : Option (Nat × Nat) → BpfProg Unit
  | none => .ret ()
  | some (iovec, iovlen) => traceEnterRead id pid ⟨fd, iovec, none, iovlen⟩

/-- The handlers of `sys_exit_read`, `sys_exit_readv` and `sys_exit_recvmsg` are the same. -/
def sysExitRead (ret : Int) : BpfProg Slots := traceExitRead slots user id pid false ret

end

inductive IoKind where
  | write (buf : Memory) (size : Nat)
  | writev (iovecs : List (Option Iovec))
  | sendmsg (msg : Option (List (Option Iovec)))
  | read (buf : Nat)
  | readv (iovec iovlen : Nat)
  | recvmsg (msg : Option (Nat × Nat))

/-- A call by a thread: its result, the memory when it returns, the CPU and the times that are read.
-/
structure IoCall where
  kind : IoKind
  id : Nat
  ret : Int64
  user : UserMemory
  cpu : Nat
  clock : Nat → Nat

def IoCall.prog (call : IoCall) (slots : Slots) (pid fd : Nat) : BpfProg Slots :=
  match call.kind with
  | .write buf size => sysEnterWrite slots pid fd buf size
  | .writev iovecs => sysEnterWritev slots pid fd iovecs
  | .sendmsg msg => sysEnterSendmsg slots pid fd msg
  | .read buf => do
    sysEnterRead call.id pid fd buf
    sysExitRead slots call.user call.id pid call.ret.toInt
  | .readv iovec iovlen => do
    sysEnterReadv call.id pid fd iovec iovlen
    sysExitRead slots call.user call.id pid call.ret.toInt
  | .recvmsg msg => do
    sysEnterRecvmsg call.id pid fd msg
    sysExitRead slots call.user call.id pid call.ret.toInt

def IoCall.sent (call : IoCall) : Nat :=
  match call.kind with
  | .write _ _ | .writev _ | .sendmsg _ => call.ret.toInt.toNat
  | .read _ | .readv _ _ | .recvmsg _ => 0

def IoCall.received (call : IoCall) : Nat :=
  match call.kind with
  | .write _ _ | .writev _ | .sendmsg _ => 0
  | .read _ | .readv _ _ | .recvmsg _ => call.ret.toInt.toNat

/-! ## Buffers -/

/-- Every entry can be read, and so can the bytes that are copied from it behind `offset`. -/
def Gathers (max : Nat) : Nat → List (Option Iovec) → Prop
  | _, [] => True
  | _, none :: _ => False
  | offset, some iov :: rest =>
    if iov.size = 0 then Gathers max offset rest
    else if offset < max then
      probeRead iov.buf 0 (truncatePayloadSize (min iov.size (max - offset))) ≠ none ∧
        Gathers max (truncatePayloadSize offset +
          truncatePayloadSize (min iov.size (max - offset))) rest
    else Gathers max offset rest

/-- What the loop of `read_iovec` has added up, in 64 bits. -/
def AddsUp (max : Nat) (list : List (Option Iovec)) (acc : IovecRead) :
    Option IovecRead → Prop
  | none => ¬ Gathers max acc.offset list
  | some r => Gathers max acc.offset list ∧
    r.totalSize % 2 ^ 64 = (acc.totalSize + iovecBytes list) % 2 ^ 64 ∧
    (0 < acc.offset ∨ 0 < iovecBytes list → 0 < r.offset)

theorem AddsUp.of_rest {max : Nat} {list rest : List (Option Iovec)} {acc acc' : IovecRead}
    {r : Option IovecRead} (h : AddsUp max rest acc' r)
    (hgathers : Gathers max acc.offset list ↔ Gathers max acc'.offset rest)
    (htotal : (acc'.totalSize + iovecBytes rest) % 2 ^ 64 =
      (acc.totalSize + iovecBytes list) % 2 ^ 64)
    (hpos : 0 < acc.offset ∨ 0 < iovecBytes list → 0 < acc'.offset ∨ 0 < iovecBytes rest) :
    AddsUp max list acc r := by
  cases r with
  | none => exact fun hlist => h (hgathers.mp hlist)
  | some r => exact ⟨hgathers.mpr h.1, h.2.1.trans htotal, fun hlist => h.2.2 (hpos hlist)⟩

theorem readIovecLoop_spec {max : Nat} (hmax : 0 < max) :
    ∀ (list : List (Option Iovec)) (acc : IovecRead),
      AddsUp max list acc (readIovecLoop max list acc)
  | [], acc => ⟨trivial, rfl, fun h => h.elim id fun h => absurd h (Nat.lt_irrefl 0)⟩
  | none :: rest, acc => fun h => h
  | some iov :: rest, acc => by
    have hbytes : iovecBytes (some iov :: rest) = iov.size + iovecBytes rest := rfl
    unfold readIovecLoop
    by_cases hzero : iov.size = 0
    · rw [if_pos hzero]
      refine (readIovecLoop_spec hmax rest acc).of_rest ?_ (by omega) (by omega)
      rw [Gathers, if_pos hzero]
    rw [if_neg hzero]
    simp only
    by_cases hroom : acc.offset < max
    · have hcopied : 0 < truncatePayloadSize (min iov.size (max - acc.offset)) := by
        simp only [truncatePayloadSize, maxPayloadSize]
        omega
      rw [if_pos hroom]
      cases hread : probeRead iov.buf 0 (truncatePayloadSize (min iov.size (max - acc.offset))) with
      | none =>
        intro hgathers
        rw [Gathers, if_neg hzero, if_pos hroom] at hgathers
        exact hgathers.1 hread
      | some bytes =>
        refine (readIovecLoop_spec hmax rest _).of_rest ?_ ?_ fun _ => ?_
        · rw [Gathers, if_neg hzero, if_pos hroom, hread]
          exact and_iff_right (Option.some_ne_none bytes)
        · simp only
          omega
        · exact .inl (Nat.lt_of_lt_of_le hcopied (Nat.le_add_left _ _))
    · rw [if_neg hroom]
      refine (readIovecLoop_spec hmax rest _).of_rest ?_ ?_ fun _ => ?_
      · rw [Gathers, if_neg hzero, if_neg hroom]
      · simp only
        omega
      · exact .inl (Nat.lt_of_lt_of_le hmax (Nat.not_lt.mp hroom))

instance decidableGathers (max : Nat) :
    ∀ (offset : Nat) (list : List (Option Iovec)), Decidable (Gathers max offset list)
  | _, [] => isTrue trivial
  | _, none :: _ => isFalse id
  | offset, some iov :: rest =>
    have := decidableGathers max offset rest
    have := decidableGathers max
      (truncatePayloadSize offset + truncatePayloadSize (min iov.size (max - offset))) rest
    inferInstanceAs (Decidable (if iov.size = 0 then _ else if offset < max then _ ∧ _ else _))

def copyLimit (ret : Nat) : Nat := if ret ≠ 0 then min ret maxPayloadSize else maxPayloadSize

/-- What is counted for some buffers. `ret` is the result of the call, or 0 when it is not known. -/
def countedIovecs (ret : Nat) (list : List (Option Iovec)) : Nat :=
  if Gathers (copyLimit ret) 0 (list.take maxIovecSize) then iovecBytes (list.take maxIovecSize)
  else 0

theorem readIovec_spec (list : List (Option Iovec)) (ret : Nat) (buf : Memory) :
    match readIovec list ret buf with
    | none => countedIovecs ret list = 0
    | some r => r.totalSize % 2 ^ 64 = countedIovecs ret list % 2 ^ 64 ∧
        (r.offset = 0 → countedIovecs ret list = 0) := by
  have hmax : 0 < copyLimit ret := by
    simp only [copyLimit, maxPayloadSize]
    split <;> omega
  have hloop := readIovecLoop_spec hmax (list.take maxIovecSize) ⟨0, 0, buf⟩
  show match readIovecLoop (copyLimit ret) (list.take maxIovecSize) ⟨0, 0, buf⟩ with
    | none => _
    | some r => _
  unfold countedIovecs
  revert hloop
  cases readIovecLoop (copyLimit ret) (list.take maxIovecSize) ⟨0, 0, buf⟩ with
  | none => exact fun hloop => if_neg hloop
  | some r =>
    rintro ⟨hgathers, htotal, hpos⟩
    rw [if_pos hgathers]
    rw [Nat.zero_add] at htotal
    refine ⟨htotal, fun hzero => ?_⟩
    by_contra hne
    have := hpos (.inr (by omega))
    omega

def Source.counted : Source → Nat
  | .plain _ size => size
  | .iovecs list => countedIovecs 0 list

/-- What a handler has found agrees with what there is to count. -/
def Agrees (counted : Nat) : Option Found → Prop
  | none => counted = 0
  | some found => found.totalSize % 2 ^ 64 = counted % 2 ^ 64 ∧ (found.size = 0 → counted = 0)

theorem agrees_iovecs (list : List (Option Iovec)) (ret : Nat) (buf : Memory) :
    Agrees (countedIovecs ret list) ((readIovec list ret buf).map Found.ofIovecs) := by
  have hread := readIovec_spec list ret buf
  revert hread
  cases readIovec list ret buf with
  | none => exact fun h => h
  | some r => exact fun h => h

theorem Source.find_agrees (source : Source) (iovec : Memory) :
    Agrees source.counted (source.find iovec) := by
  cases source with
  | plain buf size => exact ⟨rfl, fun h => h⟩
  | iovecs list => exact agrees_iovecs list 0 iovec

/-! ## What the handlers count -/

/-- What a call adds to the counters of a connection. The reads are as before. -/
structure Counts (cid : ConnectionId) (sent received : Nat) (m m' : Maps) : Prop where
  reads : m'.reads = m.reads
  connection : ∀ c, m.connections cid = some c → m'.connections cid =
    some ⟨c.timestamp, c.bytesSent + .ofNat sent, c.bytesReceived + .ofNat received⟩

theorem add_ofNat_zero (n : UInt64) : n + .ofNat 0 = n := UInt64.add_zero n

theorem counts_nothing (cid : ConnectionId) (m : Maps) : Counts cid 0 0 m m := by
  refine ⟨rfl, fun c h => ?_⟩
  rw [h, add_ofNat_zero, add_ofNat_zero]

theorem ofNat_eq_iff_mod {a b : Nat} :
    UInt64.ofNat a = UInt64.ofNat b ↔ a % 2 ^ 64 = b % 2 ^ 64 := by
  rw [← UInt64.toNat_inj, UInt64.toNat_ofNat', UInt64.toNat_ofNat']

/-- The call leaves the connections and the reads as they are. -/
def Uncounted (op : BpfOp) : Prop := ∀ clock m,
  (bpfStep clock op m).2.connections = m.connections ∧ (bpfStep clock op m).2.reads = m.reads

theorem RequestCall.uncounted {old : L7Event} {b : Buffer} {found : Found} {n : Known} {op : BpfOp}
    (h : RequestCall old b found n op) : Uncounted op := by
  cases op with
  | lookupRequest | updateRequest | ktime | sendL7 => exact fun _ _ => ⟨rfl, rfl⟩
  | _ => exact h.elim

theorem ResponseCall.uncounted {b : Buffer} {isTls : Bool} {n : Known} {op : BpfOp}
    (h : ResponseCall b isTls n op) : Uncounted op := by
  cases op with
  | lookupRequest | truncateRequest | markPartial | deleteRequest | ktime | sendL7 =>
    exact fun _ _ => ⟨rfl, rfl⟩
  | _ => exact h.elim

section

variable {cid : ConnectionId} {conn : Connection} {sent received : Nat} {slots : Slots}
  {m m' : Maps}

/-- The clock may read anything. -/
abbrev counting {α : Type} (p : BpfProg α) (Q : Maps → Prop) (m : Maps) : Prop :=
  wp bpfStep (fun _ _ _ => True) p (fun _ => Q) (fun _ => True) m

theorem counting_uncounted {α : Type} {p : BpfProg α} (hp : p.Uses Uncounted)
    (h : Counts cid sent received m m') : counting p (Counts cid sent received m) m' := by
  refine wp_mono (fun _ _ h => h) (fun _ _ => trivial)
    (wp_of_uses (I := Counts cid sent received m) ?_ hp h)
  intro clock op m' hop _ h
  obtain ⟨hconnections, hreads⟩ := hop clock m'
  exact ⟨hreads.trans h.reads, fun c hc => by rw [hconnections]; exact h.connection c hc⟩

theorem counts_addSent {n counted : Nat} (h : n % 2 ^ 64 = counted % 2 ^ 64) (clock : Nat)
    (cid : ConnectionId) (m : Maps) :
    Counts cid counted 0 m (bpfStep clock (.addSent cid n) m).2 := by
  refine ⟨rfl, fun c hc => ?_⟩
  show Function.update m.connections cid _ cid = _
  rw [Function.update_self, hc, ← ofNat_eq_iff_mod.mpr h, add_ofNat_zero]
  rfl

theorem counts_addReceived {n counted : Nat} (h : n % 2 ^ 64 = counted % 2 ^ 64) (clock : Nat)
    (cid : ConnectionId) (m : Maps) :
    Counts cid 0 counted m (bpfStep clock (.addReceived cid n) m).2 := by
  refine ⟨rfl, fun c hc => ?_⟩
  show Function.update m.connections cid _ cid = _
  rw [Function.update_self, hc, ← ofNat_eq_iff_mod.mpr h, add_ofNat_zero]
  rfl

theorem handleWrite_uncounted (isTls : Bool) (found : Found) :
    (handleWrite slots cid conn isTls found.payload found.size found.totalSize).Uses Uncounted :=
  (handleWrite_calls (n := ⟨some (cid, conn), none, none, false, none⟩) rfl isTls).uses
    fun _ _ => RequestCall.uncounted

theorem handleRead_uncounted (isTls : Bool) (payload : Memory) (ret totalSize : Nat) :
    (handleRead slots cid conn isTls payload ret totalSize).Uses Uncounted :=
  (handleRead_calls (n := ⟨some (cid, conn), none, none, false, none⟩) rfl rfl rfl).uses
    fun _ _ => ResponseCall.uncounted

theorem countWrite_counts {found : Found} {counted : Nat} (h : Agrees counted (some found)) :
    counting (countWrite slots cid conn false found) (Counts cid counted 0 m) m := by
  unfold countWrite
  simp only
  split
  · next hsize =>
    rw [h.2 hsize]
    exact counts_nothing cid m
  · refine ⟨trivial, fun clock _ => ?_⟩
    exact counting_uncounted (handleWrite_uncounted false found) (counts_addSent h.1 clock cid m)

theorem countRead_counts {found : Found} {counted : Nat} (h : Agrees counted (some found)) :
    counting (countRead slots cid conn false found) (Counts cid 0 counted m) m := by
  unfold countRead
  simp only
  split
  · next hsize =>
    rw [h.2 hsize]
    exact counts_nothing cid m
  · refine ⟨trivial, fun clock _ => ?_⟩
    exact counting_uncounted (handleRead_uncounted false _ _ _)
      (counts_addReceived h.1 clock cid m)

/-- **A write counts what it was asked to write.** -/
theorem traceEnterWrite_counts {pid fd : Nat} (hconn : m.connections ⟨fd, pid⟩ = some conn)
    (source : Source) :
    counting (traceEnterWrite slots pid fd false source) (Counts ⟨fd, pid⟩ source.counted 0 m)
      m := by
  refine ⟨trivial, fun clock _ => ?_⟩
  have hagrees := source.find_agrees slots.iovec
  rw [show (bpfStep clock (.lookupConnection ⟨fd, pid⟩) m).1 = some conn from hconn]
  simp only
  revert hagrees
  cases source.find slots.iovec with
  | none =>
    intro hagrees
    rw [show source.counted = 0 from hagrees]
    exact counts_nothing _ m
  | some found => exact countWrite_counts

theorem Counts.after {m₀ : Maps} (h : Counts cid sent received m m') (h₀ : Counts cid 0 0 m₀ m) :
    Counts cid sent received m₀ m' := by
  refine ⟨h.reads.trans h₀.reads, fun c hc => h.connection c ?_⟩
  rw [h₀.connection c hc, add_ofNat_zero, add_ofNat_zero]

def countedRead (user : UserMemory) (ret : Int) (iovec iovlen : Nat) : Nat :=
  if ret ≤ 0 then 0
  else if iovlen = 0 then ret.toNat
  else countedIovecs ret.toNat ((List.range iovlen).map (user.iovecs iovec))

theorem UserMemory.find_agrees (user : UserMemory) {ret : Int} (hpos : ¬ ret ≤ 0)
    (fd iovec iovlen : Nat) (buf : Memory) :
    Agrees (countedRead user ret iovec iovlen)
      (user.find ⟨fd, iovec, none, iovlen⟩ ret.toNat buf) := by
  rw [countedRead, if_neg hpos, UserMemory.find]
  simp only
  split
  · exact ⟨rfl, fun h => h⟩
  · exact agrees_iovecs _ ret.toNat buf

theorem traceExitRead_counts {m₀ : Maps} {id pid fd iovec iovlen : Nat}
    (hread : m.reads id = some ⟨fd, iovec, none, iovlen⟩)
    (hconn : m.connections ⟨fd, pid⟩ = some conn)
    (hdone : Counts ⟨fd, pid⟩ 0 0 m₀ (bpfStep 0 (.deleteRead id) m).2) (user : UserMemory)
    (ret : Int) :
    counting (traceExitRead slots user id pid false ret)
      (Counts ⟨fd, pid⟩ 0 (countedRead user ret iovec iovlen) m₀) m := by
  refine ⟨trivial, fun c _ => ?_⟩
  rw [show (bpfStep c (.lookupRead id) m).1 = some ⟨fd, iovec, none, iovlen⟩ from hread]
  refine ⟨trivial, fun c' _ => ⟨trivial, fun _ _ => ?_⟩⟩
  have hlookup : (bpfStep c' (.lookupConnection ⟨fd, pid⟩) (bpfStep c (.lookupRead id) m).2).1 =
    some conn := hconn
  dsimp only
  rw [hlookup]
  by_cases hpos : ret ≤ 0
  · rw [countedRead, if_pos hpos]
    simp only [readResult, if_pos hpos]
    exact hdone
  · have hagrees := user.find_agrees hpos fd iovec iovlen slots.iovec
    simp only [readResult, if_neg hpos]
    revert hagrees
    cases user.find ⟨fd, iovec, none, iovlen⟩ ret.toNat slots.iovec with
    | none =>
      intro hagrees
      rw [show countedRead user ret iovec iovlen = 0 from hagrees]
      exact hdone
    | some found =>
      exact fun hagrees =>
        wp_mono (fun _ _ h => h.after hdone) (fun _ h => h) (countRead_counts hagrees)

/-- **A read counts its result, or the sizes of the buffers that it was given.** -/
theorem read_counts {id pid fd : Nat} (hconn : m.connections ⟨fd, pid⟩ = some conn)
    (hidle : m.reads id = none) (user : UserMemory) (ret : Int) (iovec iovlen : Nat) :
    counting (do
        traceEnterRead id pid ⟨fd, iovec, none, iovlen⟩
        traceExitRead slots user id pid false ret)
      (Counts ⟨fd, pid⟩ 0 (countedRead user ret iovec iovlen) m) m := by
  refine ⟨trivial, fun c _ => ?_⟩
  rw [show (bpfStep c (.lookupConnection ⟨fd, pid⟩) m).1 = some conn from hconn]
  refine ⟨trivial, fun clock _ => ?_⟩
  let entered := (bpfStep clock (.updateRead id ⟨fd, iovec, none, iovlen⟩) m).2
  have hdone : Counts ⟨fd, pid⟩ 0 0 m (bpfStep 0 (.deleteRead id) entered).2 := by
    refine ⟨?_, (counts_nothing _ m).connection⟩
    -- the entry of the thread is gone again
    show Function.update (Function.update m.reads id _) id none = m.reads
    rw [Function.update_idem, ← hidle, Function.update_eq_self]
  have hread : entered.reads id = some ⟨fd, iovec, none, iovlen⟩ :=
    Function.update_self id _ m.reads
  have hconn : entered.connections ⟨fd, pid⟩ = some conn := hconn
  exact traceExitRead_counts hread hconn hdone user ret

theorem exitRead_counts {id pid : Nat} (hidle : m.reads id = none) (user : UserMemory)
    (ret : Int) : counting (traceExitRead slots user id pid false ret) (Counts cid 0 0 m) m := by
  refine ⟨trivial, fun c _ => ?_⟩
  rw [show (bpfStep c (.lookupRead id) m).1 = none from hidle]
  exact counts_nothing cid m

end

/-! ## Whole calls -/

namespace IoCall

variable (call : IoCall)

def countedSent : Nat :=
  match call.kind with
  | .write _ size => size
  | .writev iovecs => countedIovecs 0 iovecs
  | .sendmsg none => 0
  | .sendmsg (some iovecs) => countedIovecs 0 iovecs
  | .read _ | .readv _ _ | .recvmsg _ => 0

def countedReceived : Nat :=
  match call.kind with
  | .write _ _ | .writev _ | .sendmsg _ => 0
  | .read _ => call.ret.toInt.toNat
  | .readv iovec iovlen => countedRead call.user call.ret.toInt iovec iovlen
  | .recvmsg none => 0
  | .recvmsg (some (iovec, iovlen)) => countedRead call.user call.ret.toInt iovec iovlen

variable {call} {m : Maps} {conn : Connection} {pid fd : Nat}

theorem countedRead_plain (user : UserMemory) (ret : Int) (buf : Nat) :
    countedRead user ret buf 0 = ret.toNat := by
  rw [countedRead]
  split
  · omega
  · exact if_pos rfl

/-- **What the handlers of a call count.** -/
theorem counts (hconn : m.connections ⟨fd, pid⟩ = some conn) (hidle : m.reads call.id = none)
    (slots : Slots) :
    counting (call.prog slots pid fd)
      (Counts ⟨fd, pid⟩ call.countedSent call.countedReceived m) m := by
  unfold prog countedSent countedReceived
  cases call.kind with
  | write buf size => exact traceEnterWrite_counts hconn (.plain buf size)
  | writev iovecs => exact traceEnterWrite_counts hconn (.iovecs iovecs)
  | sendmsg msg =>
    cases msg with
    | none => exact counts_nothing _ m
    | some iovecs => exact traceEnterWrite_counts hconn (.iovecs iovecs)
  | read buf =>
    rw [← countedRead_plain call.user call.ret.toInt buf]
    exact read_counts hconn hidle call.user call.ret.toInt buf 0
  | readv iovec iovlen => exact read_counts hconn hidle call.user call.ret.toInt iovec iovlen
  | recvmsg msg =>
    cases msg with
    | none => exact exitRead_counts hidle call.user call.ret.toInt
    | some header => exact read_counts hconn hidle call.user call.ret.toInt header.1 header.2

/-- The sizes of the buffers that are looked at add up to the result, in 64 bits. Where they cannot
be read, nothing was transferred. -/
def SizesMatch (limit : Nat) (list : List (Option Iovec)) (ret : Int) : Prop :=
  if Gathers limit 0 (list.take maxIovecSize) then
    iovecBytes (list.take maxIovecSize) % 2 ^ 64 = ret.toNat
  else ret ≤ 0

/-- What has to be the case for a read into some buffers. -/
def BuffersMatch (user : UserMemory) (ret : Int) (iovec iovlen : Nat) : Prop :=
  ret ≤ 0 ∨ iovlen = 0 ∨
    SizesMatch (min ret.toNat maxPayloadSize) ((List.range iovlen).map (user.iovecs iovec)) ret

def Exact (call : IoCall) : Prop :=
  match call.kind with
  | .write _ size => size % 2 ^ 64 = call.ret.toInt.toNat
  | .writev iovecs => SizesMatch maxPayloadSize iovecs call.ret.toInt
  | .sendmsg none => call.ret.toInt ≤ 0
  | .sendmsg (some iovecs) => SizesMatch maxPayloadSize iovecs call.ret.toInt
  | .read _ => True
  | .readv iovec iovlen => BuffersMatch call.user call.ret.toInt iovec iovlen
  | .recvmsg none => call.ret.toInt ≤ 0
  | .recvmsg (some (iovec, iovlen)) => BuffersMatch call.user call.ret.toInt iovec iovlen

section

variable {ret : Int64}

theorem ofNat_result {n : Nat} :
    UInt64.ofNat n = UInt64.ofNat ret.toInt.toNat ↔ n % 2 ^ 64 = ret.toInt.toNat := by
  have hfits := ret.toInt_lt
  rw [ofNat_eq_iff_mod, Nat.mod_eq_of_lt (a := ret.toInt.toNat) (by omega)]

theorem countedIovecs_result {limit : Nat} {list : List (Option Iovec)} :
    UInt64.ofNat (countedIovecs limit list) = UInt64.ofNat ret.toInt.toNat ↔
      SizesMatch (copyLimit limit) list ret.toInt := by
  rw [ofNat_result]
  unfold countedIovecs SizesMatch
  split
  · exact Iff.rfl
  · omega

theorem countedRead_result {user : UserMemory} {iovec iovlen : Nat} :
    UInt64.ofNat (countedRead user ret.toInt iovec iovlen) = UInt64.ofNat ret.toInt.toNat ↔
      BuffersMatch user ret.toInt iovec iovlen := by
  unfold countedRead BuffersMatch
  by_cases hret : ret.toInt ≤ 0
  · rw [if_pos hret, Int.toNat_of_nonpos hret]
    exact iff_of_true rfl (.inl hret)
  · rw [if_neg hret, or_iff_right hret]
    by_cases hlen : iovlen = 0
    · rw [if_pos hlen]
      exact iff_of_true rfl (.inl hlen)
    · have hlimit : copyLimit ret.toInt.toNat = min ret.toInt.toNat maxPayloadSize :=
        if_pos (by omega)
      rw [if_neg hlen, or_iff_right hlen, countedIovecs_result, hlimit]

end

theorem exact_iff : call.Exact ↔ UInt64.ofNat call.countedSent = UInt64.ofNat call.sent ∧
    UInt64.ofNat call.countedReceived = UInt64.ofNat call.received := by
  have hnothing : UInt64.ofNat 0 = UInt64.ofNat call.ret.toInt.toNat ↔ call.ret.toInt ≤ 0 := by
    rw [ofNat_result]
    omega
  have hwrite : ∀ iovecs, UInt64.ofNat (countedIovecs 0 iovecs) =
      UInt64.ofNat call.ret.toInt.toNat ↔ SizesMatch maxPayloadSize iovecs call.ret.toInt :=
    fun _ => countedIovecs_result
  unfold Exact countedSent countedReceived sent received
  cases call.kind with
  | write buf size => exact ofNat_result.symm.trans (and_iff_left rfl).symm
  | writev iovecs => exact (hwrite iovecs).symm.trans (and_iff_left rfl).symm
  | sendmsg msg =>
    cases msg with
    | none => exact hnothing.symm.trans (and_iff_left rfl).symm
    | some iovecs => exact (hwrite iovecs).symm.trans (and_iff_left rfl).symm
  | read buf => exact iff_of_true trivial ⟨rfl, rfl⟩
  | readv iovec iovlen => exact countedRead_result.symm.trans (and_iff_right rfl).symm
  | recvmsg msg =>
    cases msg with
    | none => exact hnothing.symm.trans (and_iff_right rfl).symm
    | some header => exact countedRead_result.symm.trans (and_iff_right rfl).symm

end IoCall

/-! ## Runs -/

/-- The maps, the slots of the CPUs, and what the kernel has transferred so far. -/
structure Transfers where
  maps : Maps
  cpus : Nat → Slots
  sent : Nat
  received : Nat

namespace Transfers

/-- A call on the connection, from its entry to its end. -/
def step (pid fd : Nat) (s : Transfers) (call : IoCall) : Transfers :=
  let left := play bpfStep (call.prog (s.cpus call.cpu) pid fd) call.clock s.maps
  ⟨left.2, Function.update s.cpus call.cpu left.1, s.sent + call.sent, s.received + call.received⟩

/-- The counters of the connection have grown by what was transferred. -/
def Right (cid : ConnectionId) (start : Connection) (s : Transfers) : Prop :=
  s.maps.connections cid =
    some ⟨start.timestamp, start.bytesSent + .ofNat s.sent,
      start.bytesReceived + .ofNat s.received⟩

/-- The connection is tracked, and no call is under way. -/
structure Tracked (cid : ConnectionId) (s : Transfers) : Prop where
  connection : s.maps.connections cid ≠ none
  idle : ∀ id, s.maps.reads id = none

variable {pid fd : Nat} {start conn : Connection} {s : Transfers}

theorem step_counts (hconn : s.maps.connections ⟨fd, pid⟩ = some conn)
    (hidle : ∀ id, s.maps.reads id = none) (call : IoCall) :
    Counts ⟨fd, pid⟩ call.countedSent call.countedReceived s.maps (s.step pid fd call).maps :=
  wp_play call.clock (IoCall.counts hconn (hidle call.id) _) fun _ _ _ => trivial

theorem Tracked.step (h : Tracked ⟨fd, pid⟩ s) (call : IoCall) :
    Tracked ⟨fd, pid⟩ (s.step pid fd call) := by
  obtain ⟨conn, hconn⟩ := Option.ne_none_iff_exists'.mp h.connection
  have hcounts := step_counts hconn h.idle call
  refine ⟨?_, fun id => ?_⟩
  · rw [hcounts.connection conn hconn]
    exact Option.some_ne_none _
  · rw [hcounts.reads]
    exact h.idle id

theorem right_step_iff (h : Tracked ⟨fd, pid⟩ s) (hright : Right ⟨fd, pid⟩ start s)
    (call : IoCall) : Right ⟨fd, pid⟩ start (s.step pid fd call) ↔ call.Exact := by
  have hcounts := (step_counts hright h.idle call).connection _ hright
  have htotals : (s.step pid fd call).sent = s.sent + call.sent ∧
      (s.step pid fd call).received = s.received + call.received := ⟨rfl, rfl⟩
  rw [Right, hcounts, htotals.1, htotals.2, IoCall.exact_iff, Option.some.injEq,
    Connection.mk.injEq, UInt64.ofNat_add, UInt64.ofNat_add, ← UInt64.add_assoc,
    ← UInt64.add_assoc, UInt64.add_right_inj, UInt64.add_right_inj]
  exact and_iff_right rfl

/-- **In every run of calls on a tracked connection, the counters agree with what the kernel has
transferred after each call, if and only if every call is exact.** -/
theorem counters_exact_iff {m : Maps} (hconn : m.connections ⟨fd, pid⟩ = some start)
    (hidle : ∀ id, m.reads id = none) (cpus : Nat → Slots) (calls : List IoCall) :
    EveryState (step pid fd) (Right ⟨fd, pid⟩ start) ⟨m, cpus, 0, 0⟩ calls ↔
      ∀ call ∈ calls, call.Exact := by
  have htracked : Tracked ⟨fd, pid⟩ ⟨m, cpus, 0, 0⟩ :=
    ⟨fun hnone => Option.some_ne_none start (hconn.symm.trans hnone), hidle⟩
  have hkeep : ∀ (s : Transfers) call, Tracked ⟨fd, pid⟩ s →
      Tracked ⟨fd, pid⟩ (s.step pid fd call) := fun _ call h => h.step call
  have hiff : ∀ (s : Transfers) call, Tracked ⟨fd, pid⟩ s → Right ⟨fd, pid⟩ start s →
      (Right ⟨fd, pid⟩ start (s.step pid fd call) ↔ IoCall.Exact call) :=
    fun _ call h hright => right_step_iff h hright call
  have hright : Right ⟨fd, pid⟩ start ⟨m, cpus, 0, 0⟩ := by
    rw [Right, add_ofNat_zero, add_ofNat_zero]
    exact hconn
  exact (everyState_iff_everyStep hkeep hiff calls htracked hright).trans (everyStep_events calls)

/-! ### Single calls -/

/-- A tracked connection on which nothing was transferred yet. -/
def tracked : Transfers :=
  ⟨Maps.empty.connect ⟨3, 1⟩ ⟨0, 0, 0⟩, fun _ => Slots.zero, 0, 0⟩

/-- The process has the byte 7 everywhere, and buffers of this size. -/
def callOf (kind : IoKind) (size : Nat) (ret : Int64) : IoCall :=
  ⟨kind, 9, ret, ⟨fun _ _ => some 7, fun _ _ => some ⟨fun _ => some 7, size⟩, fun _ => none⟩, 0,
    fun _ => 0⟩

def countersAfter (call : IoCall) : Option (UInt64 × UInt64) :=
  ((tracked.step 1 3 call).maps.connections ⟨3, 1⟩).map fun c => (c.bytesSent, c.bytesReceived)

theorem counters_exact_small :
    EveryState (step 1 3) (Right ⟨3, 1⟩ ⟨0, 0, 0⟩) tracked
      [callOf (.write (fun _ => some 7) 10) 0 10, callOf (.readv 0 2) 4 8,
        callOf (.read 0) 0 (-11)] := by
  refine (counters_exact_iff rfl (fun _ => rfl) _ _).mpr fun call hcall => ?_
  rcases List.mem_cons.mp hcall with rfl | hcall
  · exact (rfl : 10 % 2 ^ 64 = (10 : Int64).toInt.toNat)
  rcases List.mem_cons.mp hcall with rfl | hcall
  · refine .inr (.inr ?_)
    show ite _ _ _
    rw [if_pos (by decide +kernel)]
    rfl
  · rw [List.mem_singleton.mp hcall]
    trivial

/-- **A write of 10 bytes that writes 4, one that writes none, a read of 3 bytes into two buffers of
8 bytes, and a write of 33 buffers of one byte.** -/
theorem short_calls_miscounted :
    countersAfter (callOf (.write (fun _ => some 7) 10) 0 4) = some (10, 0) ∧
    countersAfter (callOf (.write (fun _ => some 7) 10) 0 (-11)) = some (10, 0) ∧
    countersAfter (callOf (.readv 0 2) 8 3) = some (0, 16) ∧
    countersAfter (callOf (.writev (List.replicate 33 (some ⟨fun _ => some 7, 1⟩))) 0 33) =
      some (32, 0) := by
  refine ⟨?_, ?_, ?_, ?_⟩ <;> decide +kernel

end Transfers

end Ebpf
