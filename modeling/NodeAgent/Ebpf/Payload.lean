import Mathlib.Data.List.Forall2
import NodeAgent.Ebpf.Tracer

/-!
# Copies of a payload

What the tracer copies of the bytes that an application writes. Copies are cut to
`MAX_PAYLOAD_SIZE - 1` bytes, but the size that is recorded with them is not.

* `find_shows` — the payload that is found shows the start of the written bytes
* `copied_first_iff` — when the agent sees a beginning of the written bytes
-/

namespace Ebpf

open Infra

variable {m : Memory} {n size : Nat} {w bytes : Bytes} {b : Buffer}

/-! ## The written bytes -/

/-- Whatever can be read of the first `n` bytes is as in `w`. -/
def Memory.Shows (m : Memory) (n : Nat) (w : Bytes) : Prop :=
  ∀ i : Nat, i < n → ∀ v, m i = some v → w[i]? = some v

def Iovec.Writes (iov : Iovec) (part : Bytes) : Prop :=
  part.length = iov.size ∧ iov.buf.Shows iov.size part

def Source.Writes : Source → Bytes → Prop
  | .plain buf size, w => w.length = size ∧ buf.Shows size w
  | .iovecs list, w => ∃ parts : List Bytes, w = parts.flatten ∧
      List.Forall₂ (fun entry part => ∀ iov, entry = some iov → iov.Writes part) list parts

theorem Memory.Shows.append (h : m.Shows n w) (v : Bytes) : m.Shows n (w ++ v) := by
  intro i hi x hx
  have := h i hi x hx
  rw [List.getElem?_append_left (List.getElem?_eq_some_iff.mp this).1]
  exact this

theorem Memory.Shows.mono {k : Nat} (h : m.Shows n w) (hk : k ≤ n) : m.Shows k w :=
  fun i hi => h i (by omega)

theorem Memory.Shows.read (h : m.Shows n w) (hr : probeRead m 0 n = some bytes) :
    bytes.length = n ∧ ∀ i, i < n → w[i]? = bytes[i]? := by
  obtain ⟨hlen, hget⟩ := probeRead_eq_some.mp hr
  refine ⟨hlen, fun i hi => ?_⟩
  have hi' : i < bytes.length := by omega
  have := hget i hi
  rw [List.getElem?_eq_getElem hi', Int.zero_add] at this
  rw [h i hi _ this, List.getElem?_eq_getElem hi']

/-! ## Iovecs -/

/-- What the loop over the iovecs has gathered of the bytes that come first. -/
structure Gathered (max : Nat) (done : Bytes) (acc : IovecRead) : Prop where
  le : acc.offset ≤ done.length
  bound : acc.offset ≤ max
  /-- until the buffer is full, nothing is left out -/
  whole : acc.offset < max → acc.offset < maxPayloadSize - 1 → acc.offset = done.length
  holds : acc.buf.Holds (done.take (truncatePayloadSize acc.offset))

theorem Gathered.truncated_le {max : Nat} {done : Bytes} {acc : IovecRead}
    (h : Gathered max done acc) : truncatePayloadSize acc.offset ≤ done.length :=
  Nat.le_trans (Nat.min_le_left _ _) h.le

theorem Gathered.shows {max : Nat} {done : Bytes} {acc : IovecRead} (h : Gathered max done acc) :
    acc.buf.Shows (truncatePayloadSize acc.offset) done := by
  have hle := h.truncated_le
  intro i hi v hv
  have hheld := h.holds i (by rw [List.length_take]; omega)
  rw [List.getElem?_take, if_pos hi, hv] at hheld
  exact hheld.symm

theorem gathered_nil (max : Nat) (buf : Memory) : Gathered max [] ⟨0, 0, buf⟩ :=
  ⟨Nat.le_refl 0, Nat.zero_le _, fun _ _ => rfl, fun i hi => absurd hi (by simp)⟩

theorem gathered_skip {max : Nat} {done : Bytes} {acc : IovecRead} (h : Gathered max done acc)
    (hfull : ¬ acc.offset < max) (part : Bytes) (total : Nat) :
    Gathered max (done ++ part) { acc with totalSize := total } where
  le := by rw [List.length_append]; exact Nat.le_add_right_of_le h.le
  bound := h.bound
  whole := fun hlt => absurd hlt hfull
  holds := by
    show acc.buf.Holds ((done ++ part).take (truncatePayloadSize acc.offset))
    rw [List.take_append_of_le_length h.truncated_le]
    exact h.holds

theorem gathered_copy {max : Nat} {done part : Bytes} {acc : IovecRead} {iov : Iovec} {total : Nat}
    (hmax : max ≤ maxPayloadSize) (h : Gathered max done acc) (hw : iov.Writes part)
    (hlt : acc.offset < max) (hsize : size = truncatePayloadSize (min iov.size (max - acc.offset)))
    (hr : probeRead iov.buf 0 size = some bytes) :
    Gathered max (done ++ part) ⟨truncatePayloadSize acc.offset + size, total,
      acc.buf.write (truncatePayloadSize acc.offset) bytes⟩ := by
  have hpayload : maxPayloadSize = 1024 := rfl
  have hle := h.le
  have hpart := hw.1
  -- the offset is below the last index, or it is the last index
  have hoff : truncatePayloadSize acc.offset = acc.offset := by
    unfold truncatePayloadSize; omega
  have hsz : size ≤ iov.size ∧ size ≤ max - acc.offset := by
    subst hsize; unfold truncatePayloadSize; omega
  rw [hoff]
  constructor
  · simp only [List.length_append]
    omega
  · simp only
    omega
  · intro hlt' hlast
    simp only [List.length_append] at hlt' hlast ⊢
    have := h.whole hlt (by omega)
    rw [hsize] at hlt' hlast ⊢
    unfold truncatePayloadSize at hlt' hlast ⊢
    omega
  · obtain ⟨hlen, hget⟩ := (hw.2.mono hsz.1).read hr
    intro i hi
    simp only [truncatePayloadSize, List.length_take, List.length_append] at hi
    rw [List.getElem?_take, if_pos (by simp only [truncatePayloadSize]; omega)]
    simp only [Memory.write]
    by_cases hin : (acc.offset : Int) ≤ i ∧ (i : Int) < acc.offset + bytes.length
    · -- a byte below the last index comes right after what was gathered
      have hdone := h.whole hlt (by omega)
      rw [if_pos hin, show ((i : Int) - acc.offset).toNat = i - acc.offset by omega,
        ← hget _ (by omega), List.getElem?_append_right (by omega), ← hdone]
    · have hbefore : i < acc.offset := by omega
      rw [if_neg hin, List.getElem?_append_left (by omega)]
      have hheld := h.holds i (by rw [List.length_take, hoff]; omega)
      rwa [List.getElem?_take, hoff, if_pos hbefore] at hheld

/-- **The loop gathers the start of what the iovecs hold.** -/
theorem readIovecLoop_gathered {max : Nat} (hmax : max ≤ maxPayloadSize) :
    ∀ {list : List (Option Iovec)} {parts : List Bytes} {done : Bytes} {acc r : IovecRead},
    List.Forall₂ (fun entry part => ∀ iov, entry = some iov → iov.Writes part) list parts →
    Gathered max done acc → readIovecLoop max list acc = some r →
    Gathered max (done ++ parts.flatten) r
  | [], _, done, acc, r, .nil, hg, hr => by
    cases hr
    rw [List.flatten_nil, List.append_nil]
    exact hg
  | none :: _, _, _, _, _, _, _, hr => by cases hr
  | some iov :: list, part :: parts, done, acc, r, .cons hw hrest, hg, hr => by
    have hw := hw iov rfl
    rw [List.flatten_cons, ← List.append_assoc]
    simp only [readIovecLoop] at hr
    split at hr
    · -- an empty iovec
      rename_i hzero
      have hnil : part = [] := List.length_eq_zero_iff.mp (hw.1.trans hzero)
      rw [hnil, List.append_nil]
      exact readIovecLoop_gathered hmax hrest hg hr
    split at hr
    · split at hr
      · cases hr
      · rename_i hlt _ bytes hread
        exact readIovecLoop_gathered hmax hrest (gathered_copy hmax hg hw hlt rfl hread) hr
    · rename_i hfull
      exact readIovecLoop_gathered hmax hrest (gathered_skip hg hfull part _) hr

/-! ### How much is gathered -/

def iovecBytes (list : List (Option Iovec)) : Nat :=
  (list.map (fun entry => (entry.map Iovec.size).getD 0)).sum

/-- Behind what is gathered, the buffer is as it was. -/
theorem readIovecLoop_beyond {max : Nat} (hmax : max ≤ maxPayloadSize) :
    ∀ {list : List (Option Iovec)} {acc r : IovecRead}, readIovecLoop max list acc = some r →
      acc.offset ≤ r.offset ∧ ∀ i : Nat, r.offset ≤ i → r.buf i = acc.buf i
  | [], _, _, h => by
    cases h
    exact ⟨Nat.le_refl _, fun _ _ => rfl⟩
  | none :: _, _, _, h => by cases h
  | some iov :: list, acc, r, h => by
    simp only [readIovecLoop] at h
    split at h
    · exact readIovecLoop_beyond hmax h
    split at h
    · split at h
      · cases h
      · rename_i hlt _ bytes hread
        obtain ⟨hle, hsame⟩ := readIovecLoop_beyond hmax h
        have hlength := (probeRead_eq_some.mp hread).1
        have hoffset : truncatePayloadSize acc.offset = acc.offset := by
          have : maxPayloadSize = 1024 := rfl
          unfold truncatePayloadSize; omega
        simp only [hoffset] at hle hsame
        refine ⟨by omega, fun i hi => (hsame i hi).trans ?_⟩
        rw [Memory.write, if_neg (by omega)]
    · obtain ⟨hle, hsame⟩ := readIovecLoop_beyond hmax h
      exact ⟨hle, hsame⟩

/-- Once something is gathered, no size is cut to `MAX_PAYLOAD_SIZE - 1` any more. -/
theorem offset_of_pos {max : Nat} (hmax : max ≤ maxPayloadSize) :
    ∀ {list : List (Option Iovec)} {acc r : IovecRead}, 0 < acc.offset → acc.offset ≤ max →
      readIovecLoop max list acc = some r → r.offset = min max (acc.offset + iovecBytes list)
  | [], acc, r, _, hle, h => by
    cases h
    exact (Nat.min_eq_right hle).symm
  | none :: _, _, _, _, _, h => by cases h
  | some iov :: list, acc, r, hpos, hle, h => by
    have hpayload : maxPayloadSize = 1024 := rfl
    have hbytes : iovecBytes (some iov :: list) = iov.size + iovecBytes list := rfl
    simp only [readIovecLoop] at h
    split at h
    · rw [offset_of_pos hmax hpos hle h]
      omega
    split at h
    · split at h
      · cases h
      · rename_i hlt _ bytes hread
        rw [offset_of_pos hmax (by simp only [truncatePayloadSize]; omega)
          (by simp only [truncatePayloadSize]; omega) h]
        simp only [truncatePayloadSize]
        omega
    · rw [offset_of_pos hmax (by exact hpos) (by exact hle) h]
      simp only
      omega

/-- One buffer at most has room. -/
def FewBuffers (list : List (Option Iovec)) : Prop :=
  list.countP (fun entry => entry.any fun iov => iov.size ≠ 0) ≤ 1

instance decidableFewBuffers (list : List (Option Iovec)) : Decidable (FewBuffers list) :=
  inferInstanceAs (Decidable (_ ≤ _))

/-- How many bytes `read_iovec` copies, if it can read them. A single copy has one byte less. -/
def copiedSize (max : Nat) (list : List (Option Iovec)) : Nat :=
  min (min max (iovecBytes list))
    (if FewBuffers list then maxPayloadSize - 1 else maxPayloadSize)

theorem iovecBytes_eq_zero (list : List (Option Iovec)) :
    iovecBytes list = 0 ↔ list.countP (fun entry => entry.any fun iov => iov.size ≠ 0) = 0 := by
  rw [iovecBytes, List.sum_eq_zero_iff_forall_eq_nat, List.countP_eq_zero, List.forall_mem_map]
  refine forall_congr' fun entry => imp_congr_right fun _ => ?_
  cases entry <;> simp

theorem offset_of_zero {max : Nat} (hmax : max ≤ maxPayloadSize) :
    ∀ {list : List (Option Iovec)} {acc r : IovecRead}, acc.offset = 0 →
      readIovecLoop max list acc = some r → r.offset = copiedSize max list
  | [], acc, r, hzero, h => by
    cases h
    simp [hzero, copiedSize, iovecBytes]
  | none :: _, _, _, _, h => by cases h
  | some iov :: list, acc, r, hzero, h => by
    have hpayload : maxPayloadSize = 1024 := rfl
    have hbytes : iovecBytes (some iov :: list) = iov.size + iovecBytes list := rfl
    have hrest := iovecBytes_eq_zero list
    simp only [readIovecLoop, hzero] at h
    split at h
    · rename_i hsize
      have hfew : FewBuffers (some iov :: list) ↔ FewBuffers list := by
        unfold FewBuffers
        rw [List.countP_cons_of_neg (by simp [hsize])]
      rw [offset_of_zero hmax hzero h]
      simp only [copiedSize, hfew, hbytes, hsize, Nat.zero_add]
    rename_i hsize
    have hfew : FewBuffers (some iov :: list) ↔ iovecBytes list = 0 := by
      rw [FewBuffers, List.countP_cons_of_pos (by simp [hsize]), hrest]
      omega
    simp only [copiedSize, hfew, hbytes]
    split at h
    · split at h
      · cases h
      · rename_i hlt _ bytes hread
        rw [offset_of_pos hmax (by simp only [truncatePayloadSize]; omega)
          (by simp only [truncatePayloadSize]; omega) h]
        simp only [truncatePayloadSize]
        split <;> omega
    · rw [offset_of_zero hmax rfl h, copiedSize]
      omega

/-- The buffer has these bytes and no room for more. -/
def HasPart (entry : Option Iovec) (part : Bytes) : Prop :=
  ∃ iov, entry = some iov ∧ part.length = iov.size ∧ iov.buf.Holds part

theorem HasPart.writes {entry : Option Iovec} {part : Bytes} (h : HasPart entry part) (iov : Iovec)
    (hentry : entry = some iov) : iov.Writes part := by
  obtain ⟨_, rfl, hlength, hholds⟩ := h
  cases hentry
  refine ⟨hlength, fun i hi v hv => ?_⟩
  rw [← hv]
  exact (hholds i (by omega)).symm

theorem readIovecLoop_isSome {max : Nat} : ∀ {list : List (Option Iovec)} {parts : List Bytes}
    {acc : IovecRead}, List.Forall₂ HasPart list parts → ∃ r, readIovecLoop max list acc = some r
  | [], _, acc, .nil => ⟨acc, rfl⟩
  | _ :: list, part :: parts, acc, .cons ⟨iov, rfl, hlength, hholds⟩ hrest => by
    simp only [readIovecLoop]
    split
    · exact readIovecLoop_isSome hrest
    split
    · have hsize : truncatePayloadSize (min iov.size (max - acc.offset)) ≤ part.length := by
        simp only [truncatePayloadSize]
        omega
      have hread := (hholds.take (truncatePayloadSize (min iov.size (max - acc.offset)))).probeRead
      rw [List.length_take, Nat.min_eq_left hsize] at hread
      rw [hread]
      exact readIovecLoop_isSome hrest
    · exact readIovecLoop_isSome hrest

/-! ## What is found -/

/-- How many bytes of a write are copied. -/
def Source.foundSize : Source → Nat
  | .plain _ size => size
  | .iovecs list => copiedSize maxPayloadSize (list.take maxIovecSize)

theorem find_size {source : Source} {iovec : Memory} {found : Found}
    (hf : source.find iovec = some found) : found.size = source.foundSize := by
  cases source with
  | plain buf size =>
    cases hf
    rfl
  | iovecs list =>
    obtain ⟨r, hr, rfl⟩ := Option.map_eq_some_iff.mp hf
    exact offset_of_zero (Nat.le_refl _) rfl hr

/-- What is found of a write: a size that was written, and a payload that shows the start. -/
def Found.Shows (found : Found) (w : Bytes) : Prop :=
  found.size ≤ w.length ∧ found.payload.Shows (truncatePayloadSize found.size) w

theorem find_shows {source : Source} {iovec : Memory} {found : Found} (hw : source.Writes w)
    (hf : source.find iovec = some found) : found.Shows w := by
  cases source with
  | plain buf size =>
    cases hf
    exact ⟨Nat.le_of_eq hw.1.symm, hw.2.mono (Nat.min_le_left _ _)⟩
  | iovecs list =>
    obtain ⟨parts, rfl, hparts⟩ := hw
    obtain ⟨r, hr, rfl⟩ := Option.map_eq_some_iff.mp hf
    have hg := readIovecLoop_gathered (Nat.le_refl _) (List.forall₂_take maxIovecSize hparts)
      (gathered_nil _ iovec) hr
    rw [List.nil_append] at hg
    -- the iovecs that the loop does not reach come after the others
    have hsplit : parts.flatten =
        (parts.take maxIovecSize).flatten ++ (parts.drop maxIovecSize).flatten := by
      rw [← List.flatten_append, List.take_append_drop]
    rw [hsplit]
    refine ⟨?_, hg.shows.append _⟩
    rw [List.length_append]
    exact Nat.le_add_right_of_le hg.le

/-! ## Buffers -/

/-- The last index of a buffer. No copy reaches it. -/
def Buffer.last : Fin maxPayloadSize := ⟨maxPayloadSize - 1, by decide⟩

theorem getElem?_first (b : Buffer) (n : Nat) (i : Fin maxPayloadSize) :
    (b.first n)[i.val]? = if i.val < n then some (b i) else none := by
  simp [Buffer.first, List.getElem?_take]

theorem length_first (b : Buffer) (n : Nat) : (b.first n).length = min n maxPayloadSize := by
  simp [Buffer.first]

theorem fill_last (h : bytes.length = truncatePayloadSize n) :
    b.fill bytes Buffer.last = b Buffer.last := by
  have : bytes.length ≤ maxPayloadSize - 1 := h ▸ Nat.min_le_right _ _
  simp only [Buffer.fill, Buffer.last, List.getD_eq_getElem?_getD]
  rw [List.getElem?_eq_none this, Option.getD_none]

theorem fill_of_lt {i : Fin maxPayloadSize} (h : i.val < bytes.length) :
    some (b.fill bytes i) = bytes[i.val]? := by
  simp [Buffer.fill, h]

theorem getElem?_fill_first {i : Nat} (hi : i < bytes.length) (hmax : i < maxPayloadSize)
    (hs : i < size) : ((b.fill bytes).first size)[i]? = bytes[i]? := by
  rw [getElem?_first _ _ ⟨i, hmax⟩, if_pos hs]
  exact fill_of_lt hi

theorem first_fill (b : Buffer) {bytes : Bytes} {n : Nat} (hn : n ≤ bytes.length)
    (hmax : n ≤ maxPayloadSize) : (b.fill bytes).first n = bytes.take n := by
  refine List.ext_getElem? fun i => ?_
  by_cases hi : i < n
  · rw [getElem?_fill_first (by omega) (by omega) hi, List.getElem?_take, if_pos hi]
  · rw [List.getElem?_eq_none (by rw [length_first]; omega),
      List.getElem?_eq_none (by rw [List.length_take]; omega)]

/-- The buffer and the size that are recorded for the written bytes. -/
structure Copied (w : Bytes) (size : Nat) (b : Buffer) : Prop where
  le : size ≤ w.length
  bytes : ∀ i : Fin maxPayloadSize, i.val < truncatePayloadSize size → w[i.val]? = some (b i)
  last : b Buffer.last = 0

theorem copied_fill (hle : size ≤ w.length) (hlen : bytes.length = truncatePayloadSize size)
    (hget : ∀ i, i < truncatePayloadSize size → w[i]? = bytes[i]?) (hlast : b Buffer.last = 0) :
    Copied w size (b.fill bytes) where
  le := hle
  bytes := fun i hi => by rw [hget i hi, fill_of_lt (hlen ▸ hi)]
  last := (fill_last hlen).trans hlast

theorem Copied.again {b' : Buffer} (h : Copied w size b) (hlast : b' Buffer.last = 0) :
    Copied w size (b'.fill (b.first (truncatePayloadSize size))) := by
  have hbound : truncatePayloadSize size ≤ maxPayloadSize - 1 := Nat.min_le_right _ _
  have hmax : maxPayloadSize = 1024 := rfl
  refine copied_fill h.le ?_ (fun i hi => ?_) hlast
  · rw [length_first]
    omega
  · have hi' : i < maxPayloadSize := by omega
    rw [getElem?_first b _ ⟨i, hi'⟩, if_pos hi]
    exact h.bytes ⟨i, hi'⟩ hi

theorem Copied.truncate (h : Copied w size b) :
    Copied w (truncatePayloadSize size) b where
  le := Nat.le_trans (Nat.min_le_left _ _) h.le
  bytes := fun i hi => h.bytes i (by unfold truncatePayloadSize at hi ⊢; omega)
  last := h.last

/-- **The agent sees a beginning of the written bytes exactly when the recorded size is below
`MAX_PAYLOAD_SIZE`, or the written byte at the last index is the zero of an untouched buffer.** -/
theorem copied_first_iff (h : Copied w size b) :
    b.first size <+: w ↔ size < maxPayloadSize ∨ w[maxPayloadSize - 1]? = some 0 := by
  have hmax : maxPayloadSize = 1024 := rfl
  constructor
  · intro hp
    by_cases hs : size < maxPayloadSize
    · exact .inl hs
    · have hl := getElem?_first b size Buffer.last
      rw [if_pos (show Buffer.last.val < size by simp only [Buffer.last]; omega), h.last] at hl
      obtain ⟨rest, rfl⟩ := hp
      right
      rw [List.getElem?_append_left (by rw [length_first]; omega)]
      exact hl
  · intro hcond
    rw [List.prefix_iff_getElem?]
    intro i hi
    rw [length_first] at hi
    have hfirst := getElem?_first b size ⟨i, by omega⟩
    rw [if_pos (show i < size by omega)] at hfirst
    rw [← List.getElem?_eq_getElem, hfirst]
    -- below the last index the bytes were copied, at the last index there is a zero
    by_cases hlast : i < maxPayloadSize - 1
    · exact h.bytes ⟨i, by omega⟩ (by simp only [truncatePayloadSize]; omega)
    · have hi' : i = maxPayloadSize - 1 := by omega
      subst hi'
      rcases hcond with hs | h0
      · omega
      · rw [h0]
        exact congrArg some h.last.symm

end Ebpf
