import NodeAgent.L7.Http2.Streams

/-!
# Where frame headers are read

The loop of `Parse` goes from frame header to frame header. When the decoder returns an error, it
goes on right behind the header of the frame, so that the header block is taken for frames.

* `scan_iff` — the loop stays on the boundaries if and only if the decoder keeps up
* `parse_headers_iff` — the same of `Parse`
-/

namespace L7

open Infra Ebpf

/-- The frame headers with their offsets, from this one on. -/
def headersAt : Nat → List RawFrame → List (Nat × Http2FrameHeader)
  | _, [] => []
  | offset, f :: rest => (offset, f.header) :: headersAt (offset + (9 + f.body.length)) rest

/-! ## What the loop does to the maps -/

section

variable {δ : Type} (dec : HpackDecoder δ) (server : Bool) (kernelTime : UInt64)

/-- The streams of the HEADERS frames among some frame headers. -/
def headerStreams (headers : List (Nat × Http2FrameHeader)) : List Nat :=
  (headers.filter (fun h => h.2.type = 1)).map (fun h => h.2.streamId)

theorem headerStreams_other {offset : Nat} {h : Http2FrameHeader} (htype : h.type ≠ 1)
    (headers : List (Nat × Http2FrameHeader)) :
    headerStreams ((offset, h) :: headers) = headerStreams headers := by
  rw [headerStreams, List.filter_cons_of_neg (by simpa using htype)]
  rfl

theorem headerStreams_headers {offset : Nat} {h : Http2FrameHeader} (htype : ¬ h.type ≠ 1)
    (headers : List (Nat × Http2FrameHeader)) :
    headerStreams ((offset, h) :: headers) = h.streamId :: headerStreams headers := by
  rw [headerStreams, List.filter_cons_of_pos (by simpa using htype)]
  rfl

/-- What some header blocks, each with its stream, do to the maps. -/
def onBlocks (t : Tables) (blocks : List (Nat × List HeaderField)) : Tables :=
  blocks.foldl (fun t b => t.onHeaders server kernelTime b.1 b.2) t

/-- **What the loop does to the maps is what the blocks of the HEADERS frames do that it reads.** -/
theorem scan_blocks : ∀ (fuel offset : Nat) (payload : Bytes) (d : δ) (t : Tables),
    ∃ blocks, blocks.map Prod.fst =
        headerStreams (scan dec server kernelTime fuel offset payload d t).1 ∧
      (scan dec server kernelTime fuel offset payload d t).2.2 =
        onBlocks server kernelTime t blocks
  | 0, _, _, _, _ => ⟨[], rfl, rfl⟩
  | fuel + 1, offset, payload, d, t => by
    rw [scan]
    split
    · exact ⟨[], rfl, rfl⟩
    dsimp only
    split
    · next htype =>
      split
      · exact ⟨[], (headerStreams_other htype []).symm, rfl⟩
      · obtain ⟨blocks, hstreams, htables⟩ := scan_blocks fuel
          (offset + (9 + (frameHeader payload).length))
          ((payload.drop 9).drop (frameHeader payload).length) d t
        exact ⟨blocks, hstreams.trans (headerStreams_other htype _).symm, htables⟩
    · next htype =>
      -- the block was written to the decoder, wherever the loop goes on
      let fields := (dec.write d ((payload.drop 9).take (frameHeader payload).length)).1
      split
      · obtain ⟨blocks, hstreams, htables⟩ := scan_blocks fuel
          (offset + (9 + (frameHeader payload).length))
          ((payload.drop 9).drop (frameHeader payload).length) _
          (t.onHeaders server kernelTime (frameHeader payload).streamId fields)
        refine ⟨((frameHeader payload).streamId, fields) :: blocks, ?_, htables⟩
        rw [headerStreams_headers htype, List.map_cons, hstreams]
      · obtain ⟨blocks, hstreams, htables⟩ := scan_blocks fuel (offset + 9)
          (payload.drop 9) _
          (t.onHeaders server kernelTime (frameHeader payload).streamId fields)
        refine ⟨((frameHeader payload).streamId, fields) :: blocks, ?_, htables⟩
        rw [headerStreams_headers htype, List.map_cons, hstreams]

theorem lookup_onHeaders {streamId s : Nat} (hs : s ≠ streamId) (t : Tables)
    (fields : List HeaderField) :
    (t.onHeaders server kernelTime streamId fields).active.lookup s = t.active.lookup s ∧
    (t.onHeaders server kernelTime streamId fields).statuses.lookup s = t.statuses.lookup s := by
  cases server with
  | true =>
    obtain ⟨hactive, hstatus, _⟩ := onHeaders_server streamId t fields kernelTime s
    rw [if_neg hs] at hstatus
    exact ⟨by rw [hactive], hstatus⟩
  | false => exact ⟨AList.lookup_insert_ne hs, rfl⟩

theorem lookup_onBlocks {s : Nat} : ∀ {blocks : List (Nat × List HeaderField)} (t : Tables),
    s ∉ blocks.map Prod.fst →
    (onBlocks server kernelTime t blocks).active.lookup s = t.active.lookup s ∧
    (onBlocks server kernelTime t blocks).statuses.lookup s = t.statuses.lookup s
  | [], _, _ => ⟨rfl, rfl⟩
  | b :: blocks, t, hs => by
    rw [List.map_cons, List.mem_cons, not_or] at hs
    obtain ⟨hactive, hstatus⟩ := lookup_onHeaders server kernelTime hs.1 t b.2
    rw [← hactive, ← hstatus]
    exact lookup_onBlocks (t.onHeaders server kernelTime b.1 b.2) hs.2

theorem scan_touches {s fuel offset : Nat} {payload : Bytes} {d : δ} {t : Tables}
    (hs : s ∉ headerStreams (scan dec server kernelTime fuel offset payload d t).1) :
    (scan dec server kernelTime fuel offset payload d t).2.2.active.lookup s =
      t.active.lookup s ∧
    (scan dec server kernelTime fuel offset payload d t).2.2.statuses.lookup s =
      t.statuses.lookup s := by
  obtain ⟨blocks, hstreams, htables⟩ :=
    scan_blocks dec server kernelTime fuel offset payload d t
  rw [htables]
  exact lookup_onBlocks server kernelTime t (hstreams ▸ hs)

/-! ## The loop on whole frames -/

variable {dec} {f : RawFrame}

theorem scan_long {payload : Bytes} (hlong : ¬ payload.length < 9) (fuel offset : Nat)
    (d : δ) (t : Tables) :
    ∃ h after, (scan dec server kernelTime (fuel + 1) offset payload d t).1 =
      (offset, h) :: after := by
  rw [scan, if_neg hlong]
  dsimp only
  split
  · split
    · exact ⟨_, [], rfl⟩
    · exact ⟨_, _, rfl⟩
  · split
    · exact ⟨_, _, rfl⟩
    · exact ⟨_, _, rfl⟩

theorem scan_short {payload : Bytes} (hshort : payload.length < 9) (fuel offset : Nat)
    (d : δ) (t : Tables) : (scan dec server kernelTime fuel offset payload d t).1 = [] := by
  cases fuel with
  | zero => rfl
  | succ fuel => rw [scan, if_pos hshort]

variable (dec) in
/-- The decoder reads every block, but for empty ones and a last one that is too short. -/
def KeepsUp : δ → List RawFrame → Prop
  | _, [] => True
  | d, f :: rest =>
    if f.type = 1 then
      match dec.write d f.body with
      | (_, ok, d) =>
        (ok = true ∨ f.body = [] ∨ (rest = [] ∧ f.body.length < 9)) ∧ KeepsUp d rest
    else KeepsUp d rest

theorem scan_block {rest : List RawFrame} (hbody : f.body ≠ []) {fuel : Nat}
    (hfuel : (f.body ++ rest.flatMap RawFrame.wire).length ≤ fuel) (offset : Nat) (d : δ)
    (t : Tables) :
    (scan dec server kernelTime fuel (offset + 9) (f.body ++ rest.flatMap RawFrame.wire) d
        t).1.map Prod.fst = (headersAt (offset + (9 + f.body.length)) rest).map Prod.fst ↔
      rest = [] ∧ f.body.length < 9 := by
  have hpos : 0 < f.body.length := List.length_pos_iff.mpr hbody
  by_cases hshort : (f.body ++ rest.flatMap RawFrame.wire).length < 9
  · -- no frame fits into what is left
    rw [scan_short server kernelTime hshort]
    cases rest with
    | nil =>
      rw [List.flatMap_nil, List.append_nil] at hshort
      exact iff_of_true rfl ⟨rfl, hshort⟩
    | cons g rest =>
      rw [List.flatMap_cons, List.length_append, List.length_append, g.length_wire] at hshort
      omega
  · -- the block is taken for a frame header
    cases fuel with
    | zero => omega
    | succ fuel =>
      obtain ⟨h, after, hread⟩ := @scan_long δ dec server kernelTime _ hshort fuel
        (offset + 9) d t
      rw [hread]
      cases rest with
      | nil =>
        rw [List.flatMap_nil, List.append_nil] at hshort
        exact iff_of_false (List.cons_ne_nil _ _) fun hlt => hshort hlt.2
      | cons g rest =>
        refine iff_of_false (fun heq => ?_) fun hnil => List.cons_ne_nil _ _ hnil.1
        have hoffset : offset + 9 = offset + (9 + f.body.length) := (List.cons.inj heq).1
        omega

/-- **The loop reads frame headers at the boundaries if and only if the decoder keeps up, and then
it reads the headers of the frames.** -/
theorem scan_iff : ∀ (frames : List RawFrame) {fuel : Nat} (offset : Nat) (d : δ)
    (t : Tables),
    (frames.flatMap RawFrame.wire).length ≤ fuel →
    ((scan dec server kernelTime fuel offset (frames.flatMap RawFrame.wire) d t).1.map
        Prod.fst = (headersAt offset frames).map Prod.fst ↔ KeepsUp dec d frames) ∧
    (KeepsUp dec d frames →
      (scan dec server kernelTime fuel offset (frames.flatMap RawFrame.wire) d t).1 =
        headersAt offset frames)
  | [], fuel, offset, d, t, _ => by
    have hnone := @scan_short δ dec server kernelTime [] (by decide) fuel offset d t
    rw [List.flatMap_nil, hnone]
    exact ⟨iff_of_true rfl trivial, fun _ => rfl⟩
  | f :: rest, 0, _, _, _, hfuel => by
    rw [List.flatMap_cons, List.length_append, f.length_wire] at hfuel
    omega
  | f :: rest, fuel + 1, offset, d, t, hfuel => by
    rw [List.flatMap_cons, List.length_append, f.length_wire] at hfuel
    have hrest : (rest.flatMap RawFrame.wire).length ≤ fuel := by omega
    rw [List.flatMap_cons, headersAt, KeepsUp]
    by_cases htype : f.type = 1
    · rw [if_pos htype]
      cases hwrite : dec.write d f.body with
      | mk fields written =>
        obtain ⟨ok, d'⟩ := written
        cases ok with
        | true =>
          obtain ⟨hiff, heq⟩ := scan_iff rest (offset + (9 + f.body.length)) d'
            (t.onHeaders server kernelTime f.streamId fields) hrest
          rw [RawFrame.scan_decoded server kernelTime htype hwrite]
          simp only [List.map_cons, List.cons.injEq, true_and, true_or]
          exact ⟨hiff, heq⟩
        | false =>
          rw [RawFrame.scan_failed server kernelTime htype hwrite]
          simp only [List.map_cons, List.cons.injEq, true_and, Bool.false_eq_true, false_or]
          by_cases hbody : f.body = []
          · -- nothing to be misread
            obtain ⟨hiff, heq⟩ := scan_iff rest (offset + (9 + f.body.length)) d'
              (t.onHeaders server kernelTime f.streamId fields) hrest
            rw [hbody, List.length_nil, Nat.add_zero] at hiff heq
            rw [hbody, List.nil_append, List.length_nil, Nat.add_zero]
            simp only [true_or, true_and]
            exact ⟨hiff, heq⟩
          · have hblock := @scan_block δ dec server kernelTime f rest hbody fuel
              (by rw [List.length_append]; omega) offset d'
              (t.onHeaders server kernelTime f.streamId fields)
            simp only [hbody, false_or]
            refine ⟨hblock.trans ⟨fun h => ⟨h, ?_⟩, fun h => h.1⟩, fun h => ?_⟩
            · rw [h.1]
              trivial
            · obtain ⟨⟨rfl, hlt⟩, _⟩ := h
              rw [List.flatMap_nil, List.append_nil, scan_short server kernelTime hlt]
              rfl
    · obtain ⟨hiff, heq⟩ := scan_iff rest (offset + (9 + f.body.length)) d t hrest
      rw [if_neg htype, RawFrame.scan_other server kernelTime htype]
      simp only [List.map_cons, List.cons.injEq, true_and]
      exact ⟨hiff, heq⟩

end

/-! ## `Parse` -/

section

variable {δ : Type} (dec : HpackDecoder δ) (p : Http2Parser δ) (server : Bool)
  (kernelTime : UInt64)

/-- Frame headers are read at the boundaries, and the maps change at the streams of HEADERS frames
only. -/
structure InStep (frames : List RawFrame) : Prop where
  boundaries : (p.readHeaders dec server kernelTime (frames.flatMap RawFrame.wire)).1.map Prod.fst =
    (headersAt 0 frames).map Prod.fst
  touched : ∀ s, (∀ f ∈ frames, f.type = 1 → s ≠ f.streamId) →
    (p.readHeaders dec server kernelTime (frames.flatMap RawFrame.wire)).2.2.active.lookup s =
      p.activeRequests.lookup s ∧
    (p.readHeaders dec server kernelTime (frames.flatMap RawFrame.wire)).2.2.statuses.lookup s =
      none

theorem mem_headersAt {h : Nat × Http2FrameHeader} : ∀ {offset : Nat} {frames : List RawFrame},
    h ∈ headersAt offset frames → ∃ f ∈ frames, h.2 = f.header
  | _, [], hh => by cases hh
  | offset, f :: rest, hh => by
    rcases List.mem_cons.mp hh with rfl | hh
    · exact ⟨f, List.mem_cons_self, rfl⟩
    · obtain ⟨g, hg, heq⟩ := mem_headersAt hh
      exact ⟨g, List.mem_cons_of_mem f hg, heq⟩

theorem readHeaders_preface {frames : List RawFrame}
    (hskip : prefaceLength (framesMethod server) (frames.flatMap RawFrame.wire) ≠ 0) :
    (p.readHeaders dec server kernelTime (frames.flatMap RawFrame.wire)).1.map Prod.fst ≠
      (headersAt 0 frames).map Prod.fst := by
  cases frames with
  | nil =>
    refine absurd ?_ hskip
    rw [prefaceLength, if_neg fun h => absurd h.2 (by decide)]
  | cons f rest =>
    rw [Http2Parser.readHeaders]
    generalize prefaceLength (framesMethod server) ((f :: rest).flatMap RawFrame.wire) = skipped
      at hskip ⊢
    generalize ((f :: rest).flatMap RawFrame.wire).drop skipped = payload
    by_cases hshort : payload.length < 9
    · rw [scan_short server kernelTime hshort]
      exact (List.cons_ne_nil _ _).symm
    · obtain ⟨fuel, hfuel⟩ : ∃ fuel, payload.length = fuel + 1 :=
        Nat.exists_eq_succ_of_ne_zero (by omega)
      obtain ⟨h, after, hread⟩ := @scan_long δ dec server kernelTime _ hshort fuel
        skipped (p.decoder server) ⟨p.activeRequests, ∅, ∅⟩
      rw [hfuel, hread]
      exact fun heq => hskip (List.cons.inj heq).1

/-- **For a payload of whole frames, `Parse` reads frame headers at their boundaries, and changes
the maps at the streams of HEADERS frames only, if and only if the decoder keeps up and the payload
is not taken for one with a preface.** -/
theorem parse_headers_iff (frames : List RawFrame) :
    InStep dec p server kernelTime frames ↔
      prefaceLength (framesMethod server) (frames.flatMap RawFrame.wire) = 0 ∧
        KeepsUp dec (p.decoder server) frames := by
  by_cases hskip : prefaceLength (framesMethod server) (frames.flatMap RawFrame.wire) = 0
  · have hread : p.readHeaders dec server kernelTime (frames.flatMap RawFrame.wire) =
        scan dec server kernelTime (frames.flatMap RawFrame.wire).length 0
          (frames.flatMap RawFrame.wire) (p.decoder server) ⟨p.activeRequests, ∅, ∅⟩ := by
      rw [Http2Parser.readHeaders, hskip]
      rfl
    obtain ⟨hiff, heq⟩ := @scan_iff δ dec server kernelTime frames _ 0 (p.decoder server)
      ⟨p.activeRequests, ∅, ∅⟩ (Nat.le_refl _)
    constructor
    · intro h
      exact ⟨hskip, hiff.mp (hread ▸ h.boundaries)⟩
    · rintro ⟨_, hkeeps⟩
      refine ⟨by rw [hread]; exact hiff.mpr hkeeps, fun s hs => ?_⟩
      rw [hread]
      refine scan_touches dec server kernelTime fun hmem => ?_
      rw [heq hkeeps] at hmem
      obtain ⟨h, hh, rfl⟩ := List.mem_map.mp hmem
      obtain ⟨hh, htype⟩ := List.mem_filter.mp hh
      obtain ⟨f, hf, hheader⟩ := mem_headersAt hh
      rw [hheader] at htype hs
      exact hs f hf (of_decide_eq_true htype) rfl
  · refine iff_of_false (fun h => ?_) fun h => hskip h.1
    exact readHeaders_preface dec p server kernelTime hskip h.boundaries

end

/-! ## A block that is misread -/

/-- A string of HPACK that is short and not Huffman coded, and what comes behind it. -/
def plainString : Bytes → Option (Bytes × Bytes)
  | [] => none
  | n :: rest =>
    if n < 127 ∧ n.toNat ≤ rest.length then some (rest.take n.toNat, rest.drop n.toNat) else none

/-- Literal fields that are not indexed, with a new name or the first one of the static table. The
fields in front of an error are emitted. -/
def strictFields : Nat → Bytes → List HeaderField × Bool
  | _, [] => ([], true)
  | fuel + 1, b :: rest =>
    let name := if b = 0 then plainString rest
      else if b = 1 then some (ascii ":authority", rest)
      else none  -- 0x80 is the index 0, which no field has
    match name with
    | none => ([], false)
    | some (name, rest) =>
      match plainString rest with
      | none => ([], false)
      | some (value, rest) =>
        let (fields, ok) := strictFields fuel rest
        (⟨name, value⟩ :: fields, ok)
  | 0, _ => ([], false)

def strictDecoder : HpackDecoder Unit where
  start := ()
  write _ block := ((strictFields block.length block).1, (strictFields block.length block).2, ())
  close := id

/-- A HEADERS frame of stream 1. Its block has two fields and an index that is not valid, and reads
like the header of a frame of stream 7. -/
def misreadFrame : RawFrame where
  type := 1
  flags := 4
  reserved := false
  streamId := 1
  body := [0, 0, 0, 1, 4, 0, 0, 0, 7, 0x80]
  streamId_lt := by decide
  length_lt := by decide

/-- **The parser gets a request on a stream that no frame belongs to.** -/
theorem block_misread :
    strictDecoder.write () misreadFrame.body =
      ([⟨[], []⟩, ⟨ascii ":authority", [0, 0, 0, 7]⟩], false, ()) ∧
    ((newHttp2Parser strictDecoder).readHeaders strictDecoder false 1 misreadFrame.wire).1 =
      [(0, ⟨1, 4, 10, 1⟩), (9, ⟨1, 4, 0, 7⟩)] ∧
    ((newHttp2Parser strictDecoder).parse strictDecoder .http2ClientFrames misreadFrame.wire
      1).2.activeRequests.lookup 7 = some (newRequest 1) := by
  refine ⟨?_, ?_, ?_⟩ <;> decide +kernel

end L7
