import NodeAgent.Infra.Slices
import NodeAgent.L7.Http2

/-!
# The slices of `Http2Parser.Parse`

`scan` goes over what is left of the payload. The loop of the source has the whole payload and an
offset, and every index and slice in it may panic. Here it is written that way, and shown to be
`scan`.

* `scanOffsets_eq` — it stays within the payload, and does what `scan` does
-/

namespace L7

open Infra Ebpf

/-- `binary.BigEndian.Uint32`, which looks at the last byte first. -/
def uint32 (b : Bytes) : Checked Nat := do
  let _ ← elemAt b 3
  return bigEndian (b.take 4)

section

variable {δ : Type} (dec : HpackDecoder δ) (server : Bool) (kernelTime : UInt64) (payload : Bytes)

def headerAt (offset : Nat) : Checked Http2FrameHeader := do
  let b ← sliceFrom payload offset
  let length ← uint32 b
  let type ← elemAt payload (offset + 3)
  let flags ← elemAt payload (offset + 4)
  let b ← sliceFrom payload (offset + 5)
  let streamId ← uint32 b
  return ⟨type, flags, length >>> 8, streamId &&& (2 ^ 31 - 1)⟩

/-- The loop of `Parse`. -/
def scanOffsets : Nat → Nat → δ → Tables → Checked (δ × Tables)
  | 0, _, d, t => return (d, t)
  | fuel + 1, offset, d, t =>
    if payload.length < offset + 9 then return (d, t)
    else do
      let h ← headerAt payload offset
      let offset := offset + 9
      if h.type ≠ 1 then
        if payload.length < offset + h.length then return (d, t)
        else scanOffsets fuel (offset + h.length) d t
      else
        let next := if offset + h.length > payload.length then payload.length
          else offset + h.length
        let block ← slice payload offset next
        match dec.write d block with
        | (fields, ok, d) =>
          let t := t.onHeaders server kernelTime h.streamId fields
          if ok then scanOffsets fuel next d t else scanOffsets fuel offset d t

/-- The start of `Parse`, which takes the preface of the client away. -/
def stripPreface (method : Method) : Checked Bytes :=
  if method = .http2ClientFrames ∧ clientPreface.length ≤ payload.length then do
    let head ← slice payload 0 clientPreface.length
    if head = clientPreface then sliceFrom payload clientPreface.length else return payload
  else return payload

/-- `Parse`, with slices that may panic. -/
def Http2Parser.parseOffsets (p : Http2Parser δ) (method : Method) :
    Checked (List (Nat × Http2Request) × Http2Parser δ) := do
  let payload ← stripPreface payload method
  if payload = [] then return ([], p)
  else
    match method with
    | .http2ClientFrames => do
      let (d, t) ← scanOffsets dec false kernelTime payload payload.length 0 p.clientDecoder
        ⟨p.activeRequests, ∅, ∅⟩
      let (res, active, gc) := t.finish kernelTime p.lastGcTime
      return (res, ⟨dec.close d, p.serverDecoder, active, gc⟩)
    | .http2ServerFrames => do
      let (d, t) ← scanOffsets dec true kernelTime payload payload.length 0 p.serverDecoder
        ⟨p.activeRequests, ∅, ∅⟩
      let (res, active, gc) := t.finish kernelTime p.lastGcTime
      return (res, ⟨p.clientDecoder, dec.close d, active, gc⟩)
    | _ => return ([], p)

/-! ## Within the payload -/

theorem uint32_eq {b : Bytes} (h : 4 ≤ b.length) : uint32 b = .ok (bigEndian (b.take 4)) := by
  rw [uint32, elemAt_eq_ok (by omega) 0]
  rfl

theorem bigEndian_take_four {b : Bytes} (h : 4 ≤ b.length) :
    bigEndian (b.take 4) >>> 8 = bigEndian (b.take 3) := by
  have hlast : b.take 4 = b.take 3 ++ [b.getD 3 0] := by
    rw [List.take_add_one, List.getD_eq_getElem?_getD, List.getElem?_eq_getElem (by omega)]
    rfl
  have hbyte := (b.getD 3 0).toNat_lt
  have hsum : bigEndian (b.take 4) = bigEndian (b.take 3) * 256 + (b.getD 3 0).toNat := by
    rw [hlast, bigEndian, List.foldl_append]
    rfl
  rw [hsum, Nat.shiftRight_eq_div_pow]
  omega

theorem headerAt_eq {offset : Nat} (h : offset + 9 ≤ payload.length) :
    headerAt payload offset = .ok (frameHeader (payload.drop offset)) := by
  have hlen : (payload.drop offset).length = payload.length - offset := List.length_drop
  have hlen' : (payload.drop (offset + 5)).length = payload.length - (offset + 5) :=
    List.length_drop
  have hget : ∀ i, payload.getD (offset + i) 0 = (payload.drop offset).getD i 0 := by
    intro i
    rw [List.getD_eq_getElem?_getD, List.getD_eq_getElem?_getD, List.getElem?_drop]
  unfold headerAt
  rw [sliceFrom_eq_ok (by omega), sliceFrom_eq_ok (by omega), elemAt_eq_ok (by omega) 0,
    elemAt_eq_ok (by omega) 0]
  show (uint32 (payload.drop offset) >>= fun length => uint32 (payload.drop (offset + 5)) >>=
    fun streamId => _) = _
  rw [uint32_eq (by omega), uint32_eq (by omega)]
  show Except.ok (Http2FrameHeader.mk _ _ _ _) = _
  rw [hget, hget, bigEndian_take_four (by omega), Nat.and_two_pow_sub_one_eq_mod,
    ← List.drop_drop]
  rfl

theorem scanOffsets_eq : ∀ (fuel : Nat) {offset : Nat}, offset ≤ payload.length →
    ∀ (noted : Nat) (d : δ) (t : Tables),
      scanOffsets dec server kernelTime payload fuel offset d t =
        .ok (scan dec server kernelTime fuel noted (payload.drop offset) d t).2
  | 0, _, _, _, _, _ => rfl
  | fuel + 1, offset, hoffset, noted, d, t => by
    have hlen : (payload.drop offset).length = payload.length - offset := List.length_drop
    have hlen' : (payload.drop (offset + 9)).length = payload.length - (offset + 9) :=
      List.length_drop
    rw [scanOffsets, scan]
    by_cases hshort : payload.length < offset + 9
    · rw [if_pos hshort, if_pos (by omega)]
      rfl
    rw [if_neg hshort, if_neg (by omega), headerAt_eq payload (by omega)]
    show (if (frameHeader (payload.drop offset)).type ≠ 1 then _ else _) = _
    generalize frameHeader (payload.drop offset) = h
    dsimp only
    rw [List.drop_drop]
    by_cases htype : h.type ≠ 1
    · rw [if_pos htype, if_pos htype]
      by_cases hbody : payload.length < offset + 9 + h.length
      · rw [if_pos hbody, if_pos (by omega)]
        rfl
      · rw [if_neg hbody, if_neg (by omega), List.drop_drop]
        exact scanOffsets_eq fuel (by omega) _ d t
    rw [if_neg htype, if_neg htype]
    -- where the block ends, and what the decoder gets
    generalize hnext : (if offset + 9 + h.length > payload.length then payload.length
      else offset + 9 + h.length) = next
    have hle : offset + 9 ≤ next ∧ next ≤ payload.length := by
      rw [← hnext]
      split <;> omega
    have hblock : (payload.drop (offset + 9)).take (next - (offset + 9)) =
        (payload.drop (offset + 9)).take h.length := by
      rw [List.take_eq_take_iff]
      rw [← hnext]
      split <;> omega
    have hrest : payload.drop next = (payload.drop (offset + 9)).drop h.length := by
      rw [List.drop_drop, ← hnext]
      split
      · rw [List.drop_length, List.drop_eq_nil_of_le (by omega)]
      · rfl
    rw [slice_eq_ok hle.1 hle.2, hblock]
    show (if (dec.write d ((payload.drop (offset + 9)).take h.length)).2.1 = true then _ else _) =
      Except.ok (Prod.snd
        (if (dec.write d ((payload.drop (offset + 9)).take h.length)).2.1 = true then _ else _))
    split
    · rw [← hrest]
      exact scanOffsets_eq fuel hle.2 _ _ _
    · exact scanOffsets_eq fuel (by omega) _ _ _

theorem stripPreface_eq (method : Method) :
    stripPreface payload method = .ok (payload.drop (prefaceLength method payload)) := by
  unfold stripPreface prefaceLength
  by_cases hlong : clientPreface.length ≤ payload.length
  · have hhead : payload.take clientPreface.length = clientPreface ↔
        hasPrefix payload clientPreface = true := by
      rw [hasPrefix, List.isPrefixOf_iff_prefix, List.prefix_iff_eq_take, eq_comm]
    rw [slice_eq_ok (Nat.zero_le _) hlong, sliceFrom_eq_ok hlong, Nat.sub_zero, List.drop_zero]
    show (if _ then (if payload.take clientPreface.length = clientPreface then _ else _) else _) = _
    by_cases hmethod : method = .http2ClientFrames
    · by_cases hhas : hasPrefix payload clientPreface = true
      · rw [if_pos ⟨hmethod, hlong⟩, if_pos (hhead.mpr hhas), if_pos ⟨hmethod, hhas⟩]
      · rw [if_pos ⟨hmethod, hlong⟩, if_neg fun h => hhas (hhead.mp h), if_neg fun h => hhas h.2]
        rfl
    · rw [if_neg fun h => hmethod h.1, if_neg fun h => hmethod h.1]
      rfl
  · have hhas : ¬ hasPrefix payload clientPreface = true := by
      rw [hasPrefix, List.isPrefixOf_iff_prefix]
      exact fun h => hlong h.length_le
    rw [if_neg fun h => hlong h.2, if_neg fun h => hhas h.2]
    rfl

/-- **`Parse` does not index or slice out of range, whatever the payload is.** -/
theorem Http2Parser.parseOffsets_eq (p : Http2Parser δ) (method : Method) :
    p.parseOffsets dec kernelTime payload method =
      .ok (p.parse dec method payload kernelTime) := by
  unfold Http2Parser.parseOffsets Http2Parser.parse
  rw [stripPreface_eq]
  dsimp only
  generalize prefaceLength method payload = skipped
  generalize payload.drop skipped = frames
  show (if frames = [] then _ else _) = Except.ok (if frames = [] then _ else _)
  by_cases hnil : frames = []
  · rw [if_pos hnil, if_pos hnil]
    rfl
  rw [if_neg hnil, if_neg hnil]
  cases method with
  | http2ClientFrames | http2ServerFrames =>
    dsimp only
    rw [scanOffsets_eq _ _ _ _ _ (Nat.zero_le _) skipped, List.drop_zero]
    rfl
  | _ => rfl

end

end L7
