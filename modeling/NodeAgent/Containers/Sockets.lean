import NodeAgent.Containers.Container
import NodeAgent.Infra.Cut
import NodeAgent.Infra.FileCalls
import NodeAgent.Infra.Slices

/-!
# Tables of sockets (`proc/net.go`)

The kernel prints an address word by word, as the host reads the words, and a port as a number.
The lines of a file are what the scanner yields.

* `sockets_decoded` — a table is read as it was written
-/

namespace Containers

open Infra

/-! ## The reader -/

/-- `Sock`, with its inode. -/
structure ProcSock extends Sock where
  inode : Bytes

/-- The first loop finds nothing to skip to if there are only spaces. -/
def skipSpaces (s : Bytes) : Bytes :=
  if s.all (· = 32) then s else s.dropWhile (· = 32)

def nextField (s : Bytes) : Bytes × Bytes :=
  match cut [32] (skipSpaces s) with
  | none => ([], [])
  | some (field, rest) => (field, 32 :: rest)

def hexValue (b : UInt8) : Option Nat :=
  if 48 ≤ b ∧ b ≤ 57 then some (b.toNat - 48)
  else if 97 ≤ b ∧ b ≤ 102 then some (b.toNat - 87)
  else if 65 ≤ b ∧ b ≤ 70 then some (b.toNat - 55)
  else none

/-- `hex.Decode` into a slice of `size` bytes, of which `room` are left. It fails with `none`. -/
def hexDecode (size : Nat) : (room : Nat) → Bytes → Checked (Option Bytes)
  | _, [] => .ok (some [])
  | _, [_] => .ok none
  | room, p :: q :: src =>
    match hexValue p, hexValue q with
    | some a, some b =>
      match room with
      | 0 => .error (.indexOutOfRange size size)
      | room + 1 => do
        let bytes ← hexDecode size room src
        .ok (bytes.map (UInt8.ofNat (16 * a + b) :: ·))
    | _, _ => .ok none

/-- `BigEndian.Uint32` and `LittleEndian.PutUint32` on every word. -/
def swapWords : Bytes → Bytes
  | a :: b :: c :: d :: rest => d :: c :: b :: a :: swapWords rest
  | rest => rest

def mappedHead : Bytes := List.replicate 10 0 ++ [255, 255]

def IP.ofFour (b : Bytes) : IP := .v4 (b.getD 0 0) (b.getD 1 0) (b.getD 2 0) (b.getD 3 0)

def IP.ofSixteen (b : Bytes) : IP := .v6 (BitVec.ofNat 128 (bigEndian b))

/-- `netaddr.IPPort{}` -/
def noIPPort : IPPort := ⟨.zero, 0⟩

section

-- `netaddr.FromStdIP`
variable (fromStdIP : Bytes → Option IP)

def decodeAddr (src : Bytes) : Checked IPPort :=
  match cut [58] src with
  | none => .ok noIPPort
  | some (addr, port) =>
    if addr.length ≠ 8 ∧ addr.length ≠ 32 then .ok noIPPort
    else do
      match ← hexDecode (addr.length / 2) (addr.length / 2) addr with
      | none => .ok noIPPort
      | some ip =>
        match ← hexDecode 2 2 port with
        | none => .ok noIPPort
        | some port =>
          .ok ((fromStdIP (swapWords ip)).elim noIPPort fun ip =>
            ⟨ip, bigEndian (port ++ List.replicate (2 - port.length) 0)⟩)

def stateEstablished : Bytes := ascii "01"

def stateListen : Bytes := ascii "0A"

/-- The body of the loop of `readSockets`. -/
def readSocket (b : Bytes) : Checked (Option ProcSock) :=
  let (_, b) := nextField b
  let (local', b) := nextField b
  let (remote, b) := nextField b
  let (state, b) := nextField b
  if state ≠ stateEstablished ∧ state ≠ stateListen then .ok none
  else do
    let (_, b) := nextField b
    let (_, b) := nextField b
    let (_, b) := nextField b
    let (_, b) := nextField b
    let (_, b) := nextField b
    let (inode, _) := nextField b
    let sAddr ← decodeAddr fromStdIP local'
    let dAddr ← decodeAddr fromStdIP remote
    .ok (some ⟨⟨sAddr, dAddr, state = stateListen⟩, inode⟩)

def readLines : List Bytes → Checked (List ProcSock)
  | [] => .ok []
  | b :: lines => do
    let sock ← readSocket fromStdIP b
    let res ← readLines lines
    .ok (sock.toList ++ res)

def readSockets : Except Errno (List Bytes) → Checked (List ProcSock × Option Errno)
  | .error .noEnt => .ok ([], none)
  | .error err => .ok ([], some err)
  | .ok lines => do
    let res ← readLines fromStdIP (lines.drop 1)
    .ok (res, none)

end

/-- What `netaddr.FromStdIP` says of itself: an address of four bytes is one of IPv4, an address of
sixteen bytes is one of IPv6, and a mapped one is returned as the IPv4 address in it. -/
structure DocumentedStdIP (fromStdIP : Bytes → Option IP) : Prop where
  four : ∀ ip : Bytes, ip.length = 4 → fromStdIP ip = some (.ofFour ip)
  mapped : ∀ ip : Bytes, ip.length = 16 → ip.take 12 = mappedHead →
    fromStdIP ip = some (.ofFour (ip.drop 12))
  sixteen : ∀ ip : Bytes, ip.length = 16 → ip.take 12 ≠ mappedHead →
    fromStdIP ip = some (.ofSixteen ip)

/-! ## The tables of the kernel -/

/-- A column of a table. -/
structure Column where
  text : Bytes
  ne_nil : text ≠ []
  noSpace : 32 ∉ text

def hexDigit (n : Nat) : UInt8 := UInt8.ofNat (if n < 10 then 48 + n else 55 + n)

/-- `%02X` for every byte. -/
def upperHex (bytes : Bytes) : Bytes :=
  bytes.flatMap fun b => [hexDigit (b.toNat / 16), hexDigit (b.toNat % 16)]

structure Endpoint where
  addr : Bytes
  port : Nat
  isAddr : addr.length = 4 ∨ addr.length = 16
  isPort : port < 65536

namespace Endpoint

/-- The words of the address are printed as a little-endian host has them. -/
def text (e : Endpoint) : Bytes :=
  upperHex (swapWords e.addr) ++ 58 :: upperHex (toBigEndian 2 e.port)

/-- An IPv6 address that stands for one of IPv4. -/
def Mapped (e : Endpoint) : Prop := e.addr.length = 16 ∧ e.addr.take 12 = mappedHead

instance decidableMapped (e : Endpoint) : Decidable e.Mapped := inferInstanceAs (Decidable (_ ∧ _))

def value (e : Endpoint) : IPPort where
  ip :=
    if e.Mapped then .ofFour (e.addr.drop 12)
    else if e.addr.length = 4 then .ofFour e.addr
    else .ofSixteen e.addr
  port := e.port

end Endpoint

/-- A row with one or more spaces after each column, and what follows the inode. -/
structure Row where
  spaces : Fin 10 → Nat
  sl : Column
  local' : Endpoint
  remote : Endpoint
  state : UInt8
  skipped : Fin 5 → Column
  inode : Column
  rest : Bytes

theorem hexDigit_spec : ∀ n < 16, hexValue (hexDigit n) = some n ∧ hexDigit n ≠ 32 ∧
    hexDigit n ≠ 58 := by
  decide

theorem notMem_upperHex {x : UInt8} (hx : x = 32 ∨ x = 58) (bytes : Bytes) :
    x ∉ upperHex bytes := by
  intro h
  obtain ⟨b, -, hb⟩ := List.mem_flatMap.mp h
  have hlt := b.toNat_lt
  obtain ⟨-, hhigh⟩ := hexDigit_spec (b.toNat / 16) (by omega)
  obtain ⟨-, hlow⟩ := hexDigit_spec (b.toNat % 16) (by omega)
  simp only [List.mem_cons, List.not_mem_nil, or_false] at hb
  rcases hb with rfl | rfl
  · exact hx.elim hhigh.1 hhigh.2
  · exact hx.elim hlow.1 hlow.2

theorem length_upperHex (bytes : Bytes) : (upperHex bytes).length = 2 * bytes.length := by
  induction bytes with
  | nil => rfl
  | cons b bytes ih =>
    rw [upperHex, List.flatMap_cons, List.length_append, ← upperHex, ih, List.length_cons]
    simp only [List.length_cons, List.length_nil]
    omega

theorem hexDecode_upperHex (size : Nat) {bytes : Bytes} : ∀ {room : Nat}, bytes.length ≤ room →
    hexDecode size room (upperHex bytes) = .ok (some bytes) := by
  induction bytes with
  | nil => exact fun _ => by rw [upperHex, List.flatMap_nil, hexDecode]
  | cons b bytes ih =>
    intro room h
    obtain ⟨room, rfl⟩ : ∃ r, room = r + 1 := ⟨room - 1, by rw [List.length_cons] at h; omega⟩
    have hlt := b.toNat_lt
    obtain ⟨hhigh, -⟩ := hexDigit_spec (b.toNat / 16) (by omega)
    obtain ⟨hlow, -⟩ := hexDigit_spec (b.toNat % 16) (by omega)
    rw [upperHex, List.flatMap_cons, ← upperHex, List.cons_append, List.cons_append,
      List.nil_append, hexDecode, hhigh, hlow]
    simp only [ih (Nat.le_of_succ_le_succ h)]
    rw [show 16 * (b.toNat / 16) + b.toNat % 16 = b.toNat by omega, UInt8.ofNat_toNat]
    rfl

theorem upperHex_injective : Function.Injective upperHex := by
  intro a b h
  have ha : hexDecode 0 _ (upperHex a) = _ :=
    hexDecode_upperHex 0 (Nat.le_add_right a.length b.length)
  rw [h, hexDecode_upperHex 0 (Nat.le_add_left b.length a.length)] at ha
  exact (Option.some.inj (Except.ok.inj ha)).symm

theorem swapWords_swapWords : ∀ {bytes : Bytes}, 4 ∣ bytes.length →
    swapWords (swapWords bytes) = bytes ∧ (swapWords bytes).length = bytes.length
  | [], _ => ⟨rfl, rfl⟩
  | a :: b :: c :: d :: rest, h => by
    have hdvd : 4 ∣ rest.length := (Nat.dvd_add_left (Nat.dvd_refl 4)).mp h
    obtain ⟨hrest, hlen⟩ := swapWords_swapWords hdvd
    simp only [swapWords, hrest, hlen, List.length_cons, and_self]
  | [_], h => absurd (show 4 ∣ 1 from h) (by decide)
  | [_, _], h => absurd (show 4 ∣ 2 from h) (by decide)
  | [_, _, _], h => absurd (show 4 ∣ 3 from h) (by decide)

/-! ## Addresses -/

theorem bigEndian_concat (bytes : Bytes) (b : UInt8) :
    bigEndian (bytes ++ [b]) = bigEndian bytes * 256 + b.toNat := by
  rw [bigEndian, List.foldl_concat, bigEndian]

theorem bigEndian_lt (bytes : Bytes) : bigEndian bytes < 256 ^ bytes.length := by
  induction bytes using List.reverseRecOn with
  | nil => exact Nat.one_pos
  | append_singleton bytes b ih =>
    have hb := b.toNat_lt
    rw [bigEndian_concat, List.length_append, List.length_singleton, Nat.pow_succ]
    omega

theorem bigEndian_inj {a b : Bytes} (hlen : a.length = b.length) (h : bigEndian a = bigEndian b) :
    a = b := by
  induction a using List.reverseRecOn generalizing b with
  | nil => exact (List.length_eq_zero_iff.mp hlen.symm).symm
  | append_singleton a x ih =>
    obtain rfl | ⟨b, y, rfl⟩ := List.eq_nil_or_concat' b
    · simp at hlen
    · have hx := x.toNat_lt
      have hy := y.toNat_lt
      rw [bigEndian_concat, bigEndian_concat] at h
      rw [ih (by simpa using hlen) (by omega), UInt8.toNat_inj.mp (show x.toNat = y.toNat by omega)]

namespace Endpoint

theorem fromStdIP_addr {fromStdIP : Bytes → Option IP} (h : DocumentedStdIP fromStdIP)
    (e : Endpoint) : fromStdIP e.addr = some e.value.ip := by
  unfold value
  by_cases hmapped : e.Mapped
  · rw [if_pos hmapped]
    exact h.mapped e.addr hmapped.1 hmapped.2
  rw [if_neg hmapped]
  rcases e.isAddr with h4 | h16
  · rw [if_pos h4]
    exact h.four e.addr h4
  · rw [if_neg (by omega)]
    exact h.sixteen e.addr h16 fun hhead => hmapped ⟨h16, hhead⟩

theorem decodeAddr_text {fromStdIP : Bytes → Option IP} (h : DocumentedStdIP fromStdIP)
    (e : Endpoint) : decodeAddr fromStdIP e.text = .ok e.value := by
  have h4 : 4 ∣ e.addr.length := by rcases e.isAddr with h | h <;> omega
  obtain ⟨hswap, hlen⟩ := swapWords_swapWords h4
  have hdigits := length_upperHex (swapWords e.addr)
  rw [hlen] at hdigits
  rw [decodeAddr, text, cut_append_cons _ (notMem_upperHex (.inr rfl) _)]
  simp only
  rw [if_neg (by rcases e.isAddr with h | h <;> omega), hdigits,
    hexDecode_upperHex _ (by omega), hexDecode_upperHex 2 (by simp)]
  show Except.ok ((fromStdIP (swapWords (swapWords e.addr))).elim noIPPort fun ip =>
    ⟨ip, bigEndian (toBigEndian 2 e.port ++ _)⟩) = _
  rw [hswap, fromStdIP_addr h, length_toBigEndian, List.replicate_zero, List.append_nil,
    bigEndian_toBigEndian e.isPort]
  rfl

theorem eq_four : ∀ {l : Bytes}, l.length = 4 →
    l = [l.getD 0 0, l.getD 1 0, l.getD 2 0, l.getD 3 0]
  | [_, _, _, _], _ => rfl

theorem ofFour_inj {a b : Bytes} (ha : a.length = 4) (hb : b.length = 4)
    (h : IP.ofFour a = IP.ofFour b) : a = b := by
  rw [IP.ofFour, IP.ofFour, IP.v4.injEq] at h
  rw [eq_four ha, eq_four hb, h.1, h.2.1, h.2.2.1, h.2.2.2]

theorem value_injOn : Set.InjOn value {e | ¬ e.Mapped} := by
  intro e he e' he' h
  obtain ⟨haddr, hport⟩ := IPPort.mk.inj h
  rw [if_neg he, if_neg he'] at haddr
  obtain ⟨addr, port, isAddr, isPort⟩ := e
  obtain ⟨addr', port', isAddr', isPort'⟩ := e'
  simp only at haddr hport isAddr isAddr'
  subst hport
  suffices addr = addr' by subst this; rfl
  rcases isAddr with h4 | h16
  · rcases isAddr' with h4' | h16'
    · rw [if_pos h4, if_pos h4'] at haddr
      exact ofFour_inj h4 h4' haddr
    · rw [if_pos h4, if_neg (by omega)] at haddr
      cases haddr
  · rcases isAddr' with h4' | h16'
    · rw [if_neg (by omega), if_pos h4'] at haddr
      cases haddr
    · rw [if_neg (by omega), if_neg (by omega), IP.ofSixteen, IP.ofSixteen, IP.v6.injEq] at haddr
      have hpow : 256 ^ 16 = 2 ^ 128 := by decide
      have hlt := bigEndian_lt addr
      have hlt' := bigEndian_lt addr'
      rw [h16, hpow] at hlt
      rw [h16', hpow] at hlt'
      have hnat := congrArg BitVec.toNat haddr
      rw [BitVec.toNat_ofNat, BitVec.toNat_ofNat, Nat.mod_eq_of_lt hlt, Nat.mod_eq_of_lt hlt']
        at hnat
      exact bigEndian_inj (h16.trans h16'.symm) hnat

end Endpoint

/-! ## Rows -/

/-- A column behind some spaces, and a space behind it. -/
def column (n : Nat) (c : Column) (rest : Bytes) : Bytes :=
  List.replicate n 32 ++ (c.text ++ 32 :: rest)

theorem nextField_column (n : Nat) (c : Column) (rest : Bytes) :
    nextField (column n c rest) = (c.text, 32 :: rest) := by
  obtain ⟨b, t, ht⟩ := List.exists_cons_of_ne_nil c.ne_nil
  have hb : b ≠ 32 := fun h => c.noSpace (ht ▸ h ▸ List.mem_cons_self)
  have hskip : skipSpaces (column n c rest) = c.text ++ 32 :: rest := by
    rw [skipSpaces, if_neg, column, List.dropWhile_append_of_pos (by simp), ht, List.cons_append,
      List.dropWhile_cons_of_neg (by simpa using hb)]
    simp [column, ht, hb]
  rw [nextField, hskip, cut_append_cons rest c.noSpace]

theorem nextField_space_column (n : Nat) (c : Column) (rest : Bytes) :
    nextField (32 :: column n c rest) = (c.text, 32 :: rest) :=
  nextField_column (n + 1) c rest

def Endpoint.column (e : Endpoint) : Column where
  text := e.text
  ne_nil := by simp [Endpoint.text]
  noSpace := by
    rw [Endpoint.text, List.mem_append, List.mem_cons, not_or, not_or]
    exact ⟨notMem_upperHex (.inl rfl) _, by decide, notMem_upperHex (.inl rfl) _⟩

def stateColumn (state : UInt8) : Column where
  text := upperHex [state]
  ne_nil := nofun
  noSpace := notMem_upperHex (.inl rfl) _

namespace Row

def text (r : Row) : Bytes :=
  column (r.spaces 0) r.sl (column (r.spaces 1) r.local'.column (column (r.spaces 2) r.remote.column
    (column (r.spaces 3) (stateColumn r.state) (column (r.spaces 4) (r.skipped 0)
      (column (r.spaces 5) (r.skipped 1) (column (r.spaces 6) (r.skipped 2)
        (column (r.spaces 7) (r.skipped 3) (column (r.spaces 8) (r.skipped 4)
          (column (r.spaces 9) r.inode r.rest)))))))))

/-- What the row says, if it is of an established or a listening socket. -/
def sock? (r : Row) : Option ProcSock :=
  if r.state = 1 ∨ r.state = 10 then
    some ⟨⟨r.local'.value, r.remote.value, r.state = 10⟩, r.inode.text⟩
  else none

theorem readSocket_text {fromStdIP : Bytes → Option IP} (hip : DocumentedStdIP fromStdIP)
    (r : Row) : readSocket fromStdIP r.text = .ok r.sock? := by
  have hstate : ∀ s : UInt8, upperHex [r.state] = upperHex [s] ↔ r.state = s := fun s =>
    upperHex_injective.eq_iff.trans (by simp)
  have hestablished : (stateColumn r.state).text = stateEstablished ↔ r.state = 1 := hstate 1
  have hlisten : (stateColumn r.state).text = stateListen ↔ r.state = 10 := hstate 10
  rw [readSocket, text]
  simp only [nextField_column, nextField_space_column, hestablished, hlisten, ne_eq, ← not_or]
  by_cases h : r.state = 1 ∨ r.state = 10
  · rw [sock?, if_pos h, if_neg (not_not.mpr h)]
    show (decodeAddr fromStdIP r.local'.text >>= fun sAddr =>
      decodeAddr fromStdIP r.remote.text >>= fun dAddr => _) = _
    rw [Endpoint.decodeAddr_text hip, Endpoint.decodeAddr_text hip]
    rfl
  · rw [sock?, if_neg h, if_pos h]

theorem readLines_text {fromStdIP : Bytes → Option IP} (hip : DocumentedStdIP fromStdIP)
    (rows : List Row) : readLines fromStdIP (rows.map text) = .ok (rows.filterMap sock?) := by
  induction rows with
  | nil => rfl
  | cons r rows ih =>
    rw [List.map_cons, readLines, readSocket_text hip, ih]
    cases hr : r.sock? with
    | none => rw [List.filterMap_cons_none hr]; rfl
    | some s => rw [List.filterMap_cons_some hr]; rfl

end Row

/-- **A table of the kernel is read as it was written**: the sockets that are established or listen,
in the order of their rows, with their addresses, ports and inodes. **And different addresses are
read as different ones**, unless one of them is a mapped IPv4 address. -/
theorem sockets_decoded {fromStdIP : Bytes → Option IP} (hip : DocumentedStdIP fromStdIP)
    (header : Bytes) (rows : List Row) :
    readSockets fromStdIP (.ok (header :: rows.map Row.text)) =
        .ok (rows.filterMap Row.sock?, none) ∧
      Set.InjOn (fun e : Endpoint => decodeAddr fromStdIP e.text) {e | ¬ e.Mapped} := by
  constructor
  · rw [readSockets, List.drop_one, List.tail_cons, Row.readLines_text hip]
    rfl
  · intro e he e' he' h
    simp only [Endpoint.decodeAddr_text hip] at h
    exact Endpoint.value_injOn he he' (Except.ok.inj h)

/-! ### A table of three rows -/

/-- As it is documented, and nothing for other lengths. -/
def plainStdIP (ip : Bytes) : Option IP :=
  if ip.length = 4 then some (.ofFour ip)
  else if ip.length ≠ 16 then none
  else if ip.take 12 = mappedHead then some (.ofFour (ip.drop 12))
  else some (.ofSixteen ip)

theorem documented_plainStdIP : DocumentedStdIP plainStdIP where
  four ip h := if_pos h
  mapped ip h hhead := by rw [plainStdIP, if_neg (by omega), if_neg (not_not.mpr h), if_pos hhead]
  sixteen ip h hhead := by rw [plainStdIP, if_neg (by omega), if_neg (not_not.mpr h), if_neg hhead]

def loopbackEnd : Endpoint := ⟨[127, 0, 0, 1], 8080, .inl rfl, by decide⟩

def mappedEnd : Endpoint := ⟨mappedHead ++ [10, 0, 0, 7], 443, .inr rfl, by decide⟩

def zeroColumn : Column := ⟨[48], nofun, by decide⟩

def rowOf (local' remote : Endpoint) (state : UInt8) : Row :=
  ⟨fun _ => 1, zeroColumn, local', remote, state, fun _ => zeroColumn,
    ⟨ascii "77", nofun, by decide⟩, ascii " 1"⟩

/-- The second socket is being closed. The mapped address is returned as one of IPv4. -/
theorem sockets_decoded_three :
    DocumentedStdIP plainStdIP ∧
    readSockets plainStdIP (.ok (ascii "sl" :: [rowOf loopbackEnd loopbackEnd 10,
        rowOf loopbackEnd mappedEnd 6, rowOf loopbackEnd mappedEnd 1].map Row.text)) =
      .ok ([⟨⟨⟨.v4 127 0 0 1, 8080⟩, ⟨.v4 127 0 0 1, 8080⟩, true⟩, ascii "77"⟩,
        ⟨⟨⟨.v4 127 0 0 1, 8080⟩, ⟨.v4 10 0 0 7, 443⟩, false⟩, ascii "77"⟩], none) :=
  ⟨documented_plainStdIP, (sockets_decoded documented_plainStdIP _ _).1⟩

end Containers
