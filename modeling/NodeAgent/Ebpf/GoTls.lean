import NodeAgent.Ebpf.Counters

/-!
# Reads of Go programs over TLS

`go_crypto_tls_read_enter` leaves the arguments of a read in `active_reads`, under a key that is
made of the process and the goroutine, since a goroutine can leave `Read` on another thread. The
address of a goroutine has more than 32 bits, and its high bits are mixed with the process id.

* `goReadId_inj_iff` — when two keys are the same
* `reads_apart_iff` — the reads that are kept apart
-/

namespace Ebpf

open Infra Prog

/-! ## Keys -/

/-- `bpf_get_current_pid_tgid` -/
def pidTgid (tgid tid : Nat) : Nat := tgid <<< 32 ||| tid

def isTlsReadId : Nat := 0x8000000000000000

def goReadId (pid goroutine : Nat) : Nat := pid <<< 32 ||| goroutine ||| isTlsReadId

section

variable {pid goroutine pid' goroutine' : Nat}

/-- **The high part of the address goes into the process id.** -/
theorem goReadId_eq (hpid : pid < 2 ^ 22) (hgoroutine : goroutine < 2 ^ 47) :
    goReadId pid goroutine =
      2 ^ 63 + (2 ^ 32 * (pid ||| goroutine / 2 ^ 32) + goroutine % 2 ^ 32) := by
  have hlow : goroutine % 2 ^ 32 < 2 ^ 32 := Nat.mod_lt _ (by decide)
  have hhigh : pid ||| goroutine / 2 ^ 32 < 2 ^ 22 := Nat.or_lt_two_pow hpid (by omega)
  have hsplit : goroutine = (goroutine / 2 ^ 32) <<< 32 ||| goroutine % 2 ^ 32 := by
    rw [← Nat.shiftLeft_add_eq_or_of_lt hlow, Nat.shiftLeft_eq]
    omega
  have hword : pid <<< 32 ||| goroutine =
      2 ^ 32 * (pid ||| goroutine / 2 ^ 32) + goroutine % 2 ^ 32 := by
    conv_lhs => rw [hsplit]
    rw [← Nat.or_assoc, ← Nat.shiftLeft_or_distrib, ← Nat.shiftLeft_add_eq_or_of_lt hlow,
      Nat.shiftLeft_eq, Nat.mul_comm]
  have htls : isTlsReadId = 1 <<< 63 := rfl
  rw [goReadId, hword, Nat.or_comm, htls, ← Nat.shiftLeft_add_eq_or_of_lt (by omega),
    Nat.shiftLeft_eq, Nat.one_mul]

/-- **Two keys are the same if the low words of the addresses are, and the process ids become the
same with the high words.** -/
theorem goReadId_inj_iff (hpid : pid < 2 ^ 22) (hgoroutine : goroutine < 2 ^ 47)
    (hpid' : pid' < 2 ^ 22) (hgoroutine' : goroutine' < 2 ^ 47) :
    goReadId pid goroutine = goReadId pid' goroutine' ↔
      goroutine % 2 ^ 32 = goroutine' % 2 ^ 32 ∧
        pid ||| goroutine / 2 ^ 32 = pid' ||| goroutine' / 2 ^ 32 := by
  rw [goReadId_eq hpid hgoroutine, goReadId_eq hpid' hgoroutine']
  have hlow : goroutine % 2 ^ 32 < 2 ^ 32 := Nat.mod_lt _ (by decide)
  have hlow' : goroutine' % 2 ^ 32 < 2 ^ 32 := Nat.mod_lt _ (by decide)
  generalize pid ||| goroutine / 2 ^ 32 = high
  generalize pid' ||| goroutine' / 2 ^ 32 = high'
  omega

theorem goReadId_ne_pidTgid (hpid : pid < 2 ^ 22) (hgoroutine : goroutine < 2 ^ 47)
    {tgid tid : Nat} (htgid : tgid < 2 ^ 22) (htid : tid < 2 ^ 22) :
    goReadId pid goroutine ≠ pidTgid tgid tid := by
  have hplain : pidTgid tgid tid < 2 ^ 54 :=
    Nat.or_lt_two_pow (by rw [Nat.shiftLeft_eq]; omega) (by omega)
  rw [goReadId_eq hpid hgoroutine]
  omega

end

/-! ## The probes -/

structure GoRegs where
  param1 : Nat
  param2 : Nat
  goroutine : Nat

/-- `go_crypto_tls_get_fd_from_conn`: through the interface and the connection to the descriptor. -/
def goCryptoTlsGetFdFromConn (user : UserMemory) (regs : GoRegs) : Option Nat := do
  let conn ← probeRead (user.bytes regs.param1) 0 16
  let fdPtr ← probeRead (user.bytes (little (conn.drop 8))) 0 8
  let fd ← probeRead (user.bytes (little fdPtr)) 0x10 4
  some (little fd)

def goCryptoTlsReadEnter (user : UserMemory) (current : Nat) (regs : GoRegs) : BpfProg Unit :=
  match goCryptoTlsGetFdFromConn user regs with
  | none => .ret ()
  | some fd =>
    let pid := current >>> 32
    traceEnterRead (goReadId pid regs.goroutine) pid ⟨fd, regs.param2, none, 0⟩

def goCryptoTlsReadExit (slots : Slots) (user : UserMemory) (current : Nat) (regs : GoRegs) :
    BpfProg Slots :=
  let pid := current >>> 32
  traceExitRead slots user (goReadId pid regs.goroutine) pid true (signed 64 regs.param1)

/-! ## What an exit consumes -/

theorem pidTgid_shiftRight {tgid tid : Nat} (htid : tid < 2 ^ 22) :
    pidTgid tgid tid >>> 32 = tgid := by
  have hlow : tid < 2 ^ 32 := by omega
  rw [pidTgid, ← Nat.shiftLeft_add_eq_or_of_lt hlow, Nat.shiftRight_eq_div_pow, Nat.shiftLeft_eq]
  omega

theorem countRead_reads {slots : Slots} {cid : ConnectionId} {conn : Connection} {isTls : Bool}
    {found : Found} {m : Maps} :
    wp bpfStep (fun _ _ _ => True) (countRead slots cid conn isTls found)
      (fun _ m' => m'.reads = m.reads) (fun _ => True) m := by
  have hread : ∀ m' : Maps, m'.reads = m.reads → wp bpfStep (fun _ _ _ => True)
      (handleRead { slots with iovec := found.iovec } cid conn isTls found.payload found.size
        found.totalSize) (fun _ m' => m'.reads = m.reads) (fun _ => True) m' := fun m' hm =>
    wp_mono (fun _ _ h => h) (fun _ _ => trivial)
      (wp_of_uses (fun c op m' hop _ hm => (hop c m').2.trans hm)
        (handleRead_uncounted isTls _ _ _) hm)
  unfold countRead
  simp only
  split
  · rfl
  split
  · exact hread m rfl
  · exact ⟨trivial, fun _ _ => hread _ rfl⟩

/-- **The end of a read takes the arguments under its key away, and no others.** -/
theorem play_traceExitRead_reads (slots : Slots) (user : UserMemory) (id pid : Nat) (isTls : Bool)
    (ret : Int) (env : Nat → Nat) (m : Maps) :
    (play bpfStep (traceExitRead slots user id pid isTls ret) env m).2.reads =
      Function.update m.reads id none := by
  have hwp : wp bpfStep (fun _ _ _ => True) (traceExitRead slots user id pid isTls ret)
      (fun _ m' => m'.reads = Function.update m.reads id none) (fun _ => True) m := by
    refine ⟨trivial, fun c _ => ?_⟩
    cases hread : (bpfStep c (.lookupRead id) m).1 with
    | none =>
      have hnone : m.reads id = none := hread
      exact ((Function.update_eq_self_iff ..).mpr hnone.symm).symm
    | some args =>
      refine ⟨trivial, fun c' _ => ⟨trivial, fun c'' _ => ?_⟩⟩
      dsimp only
      cases (bpfStep c' (.lookupConnection ⟨args.fd, pid⟩) _).1 with
      | none => rfl
      | some conn =>
        simp only
        cases readResult user args ret with
        | none => rfl
        | some size =>
          simp only
          cases user.find args size slots.iovec with
          | none => rfl
          | some found =>
            exact countRead_reads (m := { m with reads := Function.update m.reads id none })
  exact wp_play env hwp fun _ _ _ => trivial

structure GoRead where
  pid : Nat
  goroutine : Nat
  pid_lt : pid < 2 ^ 22
  goroutine_lt : goroutine < 2 ^ 47

def GoRead.key (r : GoRead) : Nat := goReadId r.pid r.goroutine

/-- The end of the read, on any thread of the process, leaves the arguments under this key alone. -/
def GoRead.ExitKeeps (r : GoRead) (id : Nat) : Prop :=
  ∀ (tid param1 param2 : Nat) (slots : Slots) (user : UserMemory) (env : Nat → Nat) (m : Maps),
    tid < 2 ^ 22 →
    (play bpfStep (goCryptoTlsReadExit slots user (pidTgid r.pid tid)
      ⟨param1, param2, r.goroutine⟩) env m).2.reads id = m.reads id

theorem GoRead.exitKeeps_iff (r : GoRead) (id : Nat) : r.ExitKeeps id ↔ r.key ≠ id := by
  have hreads : ∀ {tid : Nat}, tid < 2 ^ 22 → ∀ (param1 param2 : Nat) (slots : Slots)
      (user : UserMemory) (env : Nat → Nat) (m : Maps),
      (play bpfStep (goCryptoTlsReadExit slots user (pidTgid r.pid tid)
        ⟨param1, param2, r.goroutine⟩) env m).2.reads = Function.update m.reads r.key none := by
    intro tid htid param1 param2 slots user env m
    rw [goCryptoTlsReadExit, pidTgid_shiftRight htid]
    exact play_traceExitRead_reads _ _ _ _ _ _ _ _
  constructor
  · rintro hkeeps rfl
    -- the arguments of this very read do not stay
    let m : Maps := { Maps.empty with reads := fun _ => some ⟨0, 0, none, 0⟩ }
    have hgone := hkeeps 0 0 0 Slots.zero ⟨fun _ _ => none, fun _ _ => none, fun _ => none⟩
      (fun _ => 0) m (by omega)
    rw [hreads (by omega), Function.update_self] at hgone
    cases hgone
  · intro hne tid param1 param2 slots user env m htid
    rw [hreads htid, Function.update_of_ne hne.symm]

/-- The first read does not get in the way of the second, nor of any read without TLS. -/
structure GoRead.KeptApart (r r' : GoRead) : Prop where
  keys : r.key ≠ r'.key
  kept : r.ExitKeeps r'.key
  plainKeys : ∀ tgid tid, tgid < 2 ^ 22 → tid < 2 ^ 22 → r.key ≠ pidTgid tgid tid
  plainKept : ∀ tgid tid, tgid < 2 ^ 22 → tid < 2 ^ 22 → r.ExitKeeps (pidTgid tgid tid)
  /-- and no read without TLS in the way of the first -/
  keptByPlain : ∀ tgid tid, tgid < 2 ^ 22 → tid < 2 ^ 22 →
    ∀ (slots : Slots) (user : UserMemory) (ret : Int) (env : Nat → Nat) (m : Maps),
      (play bpfStep (sysExitRead slots user (pidTgid tgid tid) tgid ret) env m).2.reads r.key =
        m.reads r.key

/-- **Two reads are kept apart if and only if the low words of the addresses differ, or the process
ids differ when the high words are mixed in.** -/
theorem reads_apart_iff (r r' : GoRead) :
    r.KeptApart r' ↔ r.goroutine % 2 ^ 32 ≠ r'.goroutine % 2 ^ 32 ∨
      r.pid ||| r.goroutine / 2 ^ 32 ≠ r'.pid ||| r'.goroutine / 2 ^ 32 := by
  have hinj := goReadId_inj_iff r.pid_lt r.goroutine_lt r'.pid_lt r'.goroutine_lt
  have hplain : ∀ tgid tid, tgid < 2 ^ 22 → tid < 2 ^ 22 → r.key ≠ pidTgid tgid tid :=
    fun tgid tid htgid htid => goReadId_ne_pidTgid r.pid_lt r.goroutine_lt htgid htid
  rw [← not_and_or, ← hinj]
  constructor
  · exact fun h => h.keys
  · intro hkeys
    refine ⟨hkeys, (r.exitKeeps_iff _).mpr hkeys, hplain, ?_, ?_⟩
    · intro tgid tid htgid htid
      exact (r.exitKeeps_iff _).mpr (hplain tgid tid htgid htid)
    · intro tgid tid htgid htid slots user ret env m
      rw [sysExitRead, play_traceExitRead_reads,
        Function.update_of_ne (hplain tgid tid htgid htid)]

/-! ## Two processes with the same program -/

/-- The memory of a process whose connection has the descriptor 3. -/
def goMemory : UserMemory where
  bytes := fun _ i => if i = 0x10 then some 3 else some 0
  iovecs := fun _ _ => none
  long := fun _ => none

/-- The maps when the goroutine of process 1 has entered `Read` and the one of process 193 has left
it. -/
def afterBoth (goroutine : Nat) : Maps :=
  let entered := (play bpfStep (goCryptoTlsReadEnter goMemory (pidTgid 1 1) ⟨0, 0, goroutine⟩)
    (fun _ => 0) (Maps.empty.connect ⟨3, 1⟩ ⟨0, 0, 0⟩)).2
  (play bpfStep (goCryptoTlsReadExit Slots.zero goMemory (pidTgid 193 193) ⟨5, 0, goroutine⟩)
    (fun _ => 0) entered).2

/-- **Process 193 consumes the arguments of process 1, for a goroutine at an address in the first
arena of Go.** -/
theorem reads_mixed_up :
    goReadId 1 0xc000006380 = goReadId 193 0xc000006380 ∧
    (play bpfStep (goCryptoTlsReadEnter goMemory (pidTgid 1 1) ⟨0, 0, 0xc000006380⟩)
      (fun _ => 0) (Maps.empty.connect ⟨3, 1⟩ ⟨0, 0, 0⟩)).2.reads (goReadId 1 0xc000006380) =
        some ⟨3, 0, none, 0⟩ ∧
    (afterBoth 0xc000006380).reads (goReadId 1 0xc000006380) = none := by
  refine ⟨?_, ?_, ?_⟩ <;> decide +kernel

end Ebpf
