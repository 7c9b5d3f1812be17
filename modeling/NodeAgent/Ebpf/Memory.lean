import NodeAgent.Infra.Bytes

/-!
# Memory and numbers of the tracer programs

What the programs in `ebpftracer/ebpf` see of memory through `bpf_probe_read`, and the integer
conversions of C on the bytes they have read.

* `probeRead_eq_some` — a read returns the bytes that are there, or nothing
-/

namespace Ebpf

open Infra

/-- The bytes around a pointer, by their offset from it. A byte that cannot be read is `none`. -/
abbrev Memory := Int → Option UInt8

/-- A buffer with these bytes, and nothing readable around it. -/
def Memory.ofBytes (bs : Bytes) : Memory := fun i => if 0 ≤ i then bs[i.toNat]? else none

/-- `bpf_probe_read`: all of the bytes or none. -/
def probeRead (m : Memory) (offset : Int) (size : Nat) : Option Bytes :=
  (List.range size).mapM (fun i : Nat => m (offset + i))

/-- The macro `bpf_read`: where the read fails, the function that uses it returns. -/
def bpfRead {α : Type} (failed : α) (m : Memory) (offset : Int) (size : Nat) (k : Bytes → α) : α :=
  match probeRead m offset size with
  | some b => k b
  | none => failed

/-- `bpf_probe_read_str` into 16 bytes, when it fills them: no zero comes before the last. -/
def probeReadStr16 (m : Memory) : Option Bytes :=
  match probeRead m 0 16 with
  | some b => if 0 ∈ b.take 15 then none else some b
  | none => none

def maxPayloadSize : Nat := 1024

/-- `TRUNCATE_PAYLOAD_SIZE` -/
def truncatePayloadSize (size : Nat) : Nat := min size (maxPayloadSize - 1)

/-! ## Reading -/

theorem mapM_eq_some {α β : Type} {f : α → Option β} : ∀ {l : List α} {bs : List β},
    l.mapM f = some bs ↔ l.map f = bs.map some
  | [], bs => by
    simp only [List.mapM_nil, List.map_nil, Option.pure_def, Option.some.injEq]
    constructor
    · rintro rfl; rfl
    · intro h; exact (List.map_eq_nil_iff.mp h.symm).symm
  | a :: l, bs => by
    simp only [List.mapM_cons, Option.bind_eq_bind, List.map_cons]
    cases ha : f a with
    | none => cases bs <;> simp
    | some b =>
      cases bs with
      | nil =>
        simp only [Option.bind_some, List.map_nil, reduceCtorEq, iff_false]
        cases l.mapM f <;> simp
      | cons c cs =>
        rw [List.map_cons, List.cons.injEq, ← mapM_eq_some (l := l)]
        cases l.mapM f <;> simp [and_comm]

theorem probeRead_eq_some {m : Memory} {offset : Int} {size : Nat} {bs : Bytes} :
    probeRead m offset size = some bs ↔
      bs.length = size ∧ ∀ i, i < size → m (offset + i) = bs[i]? := by
  rw [probeRead, mapM_eq_some]
  constructor
  · intro h
    have hlen : bs.length = size := by simpa using (congrArg List.length h).symm
    refine ⟨hlen, fun i hi => ?_⟩
    have := congrArg (·[i]?) h
    simpa [hi, hlen] using this
  · rintro ⟨rfl, h⟩
    refine List.ext_getElem (by simp) fun i h1 h2 => ?_
    have hi : i < bs.length := by simpa using h2
    simpa [hi] using h i hi

/-- The bytes can be read at the pointer, whatever there is around them. -/
def Memory.Holds (m : Memory) (w : Bytes) : Prop := ∀ i : Nat, i < w.length → m i = w[i]?

theorem holds_ofBytes (w : Bytes) : (Memory.ofBytes w).Holds w := by
  intro i _
  rw [Memory.ofBytes, if_pos (Int.natCast_nonneg i), Int.toNat_natCast]

theorem Memory.Holds.probeRead {buf : Memory} {w : Bytes} (h : buf.Holds w) :
    probeRead buf 0 w.length = some w :=
  probeRead_eq_some.mpr ⟨rfl, fun i hi => by rw [Int.zero_add]; exact h i hi⟩

theorem Memory.Holds.take {buf : Memory} {w : Bytes} (h : buf.Holds w) (n : Nat) :
    buf.Holds (w.take n) := by
  intro i hi
  rw [List.length_take] at hi
  rw [List.getElem?_take, if_pos (by omega)]
  exact h i (by omega)

/-! ## Numbers -/

def byte (b : Bytes) (i : Nat) : UInt8 := b.getD i 0

/-- The number that the bytes make in the order of the machine. -/
def little (b : Bytes) : Nat := b.foldr (fun x n => x.toNat + 256 * n) 0

/-- The number that the bytes make in network order. -/
def big (b : Bytes) : Nat := little b.reverse

/-- The value of a signed integer of `w` bits. -/
def signed (w n : Nat) : Int := if n < 2 ^ (w - 1) then n else (n : Int) - 2 ^ w

/-- An `int` in a comparison with a `__u64`. -/
def toU64 (x : Int) : Nat := (x % 2 ^ 64).toNat

def isDigit (b : UInt8) : Bool := 48 ≤ b && b ≤ 57

end Ebpf
