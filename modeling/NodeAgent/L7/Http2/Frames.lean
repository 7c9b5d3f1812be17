import NodeAgent.L7.Http2

/-!
# The frames of a connection

What a client and a server send to each other, and what `Parse` does on the bytes of it. A frame
stands here with the header fields that its block is an encoding of.

* `run_payloads` — **on frames without flags that move the block, the parser is `Payload.step`**
-/

namespace L7

open Infra Ebpf

/-! ## The two sides -/

def framesMethod (server : Bool) : Method :=
  if server then .http2ServerFrames else .http2ClientFrames

section

variable {δ : Type} (dec : HpackDecoder δ) (p : Http2Parser δ) (server : Bool)
  (kernelTime : UInt64)

def Http2Parser.decoder (p : Http2Parser δ) (server : Bool) : δ :=
  if server then p.serverDecoder else p.clientDecoder

/-- The loop of `Parse` on a payload, with the offsets in the payload. -/
def Http2Parser.readHeaders (payload : Bytes) : List (Nat × Http2FrameHeader) × δ × Tables :=
  let skipped := prefaceLength (framesMethod server) payload
  scan dec server kernelTime (payload.drop skipped).length skipped (payload.drop skipped)
    (p.decoder server) ⟨p.activeRequests, ∅, ∅⟩

/-- The parser after a payload, with the decoder and the maps that the loop leaves. -/
def Http2Parser.after (d : δ) (t : Tables) : Http2Parser δ where
  clientDecoder := if server then p.clientDecoder else dec.close d
  serverDecoder := if server then dec.close d else p.serverDecoder
  activeRequests := (t.finish kernelTime p.lastGcTime).2.1
  lastGcTime := (t.finish kernelTime p.lastGcTime).2.2

theorem decoder_after (d : δ) (t : Tables) (side : Bool) :
    (p.after dec server kernelTime d t).decoder side =
      if side = server then dec.close d else p.decoder side := by
  cases server <;> cases side <;> rfl

theorem parse_eq_readHeaders {payload : Bytes} {headers : List (Nat × Http2FrameHeader)} {d : δ}
    {t : Tables} (hne : payload.drop (prefaceLength (framesMethod server) payload) ≠ [])
    (hread : p.readHeaders dec server kernelTime payload = (headers, d, t)) :
    p.parse dec (framesMethod server) payload kernelTime =
      ((t.finish kernelTime p.lastGcTime).1, p.after dec server kernelTime d t) := by
  unfold Http2Parser.parse
  unfold Http2Parser.readHeaders at hread
  cases server with
  | true | false =>
    simp only [framesMethod, Http2Parser.decoder, if_true, Bool.false_eq_true, if_false]
      at hne hread
    simp only [framesMethod, if_true, Bool.false_eq_true, if_false, if_neg hne, hread]
    rfl

end

/-! ## Frames of any type -/

/-- A frame of any type. -/
structure RawFrame where
  type : UInt8
  flags : UInt8
  reserved : Bool
  streamId : Nat
  body : Bytes
  streamId_lt : streamId < 2 ^ 31
  length_lt : body.length < 2 ^ 24

namespace RawFrame

/-- The word with the reserved bit and the stream. -/
def streamWord (f : RawFrame) : Nat := (if f.reserved then 2 ^ 31 else 0) + f.streamId

/-- The frame header and the body. -/
def wire (f : RawFrame) : Bytes :=
  toBigEndian 3 f.body.length ++ f.type :: f.flags :: toBigEndian 4 f.streamWord ++ f.body

def header (f : RawFrame) : Http2FrameHeader := ⟨f.type, f.flags, f.body.length, f.streamId⟩

section

variable (f : RawFrame) (rest : Bytes)

@[simp] theorem header_type : f.header.type = f.type := rfl

@[simp] theorem header_length : f.header.length = f.body.length := rfl

@[simp] theorem header_streamId : f.header.streamId = f.streamId := rfl

theorem frameHeader_wire : frameHeader (f.wire ++ rest) = f.header := by
  have hid := f.streamId_lt
  have hword : f.streamWord < 256 ^ 4 ∧ f.streamWord % 2 ^ 31 = f.streamId := by
    rw [streamWord]
    split <;> omega
  have hlength : bigEndian (toBigEndian 3 f.body.length) = f.body.length :=
    bigEndian_toBigEndian (by simpa using f.length_lt)
  have hstream : bigEndian (toBigEndian 4 f.streamWord) = f.streamWord :=
    bigEndian_toBigEndian hword.1
  obtain ⟨a, b, c, habc⟩ : ∃ a b c, toBigEndian 3 f.body.length = [a, b, c] :=
    List.length_eq_three.mp (length_toBigEndian 3 _)
  obtain ⟨w, x, y, z, hwxyz⟩ : ∃ w x y z, toBigEndian 4 f.streamWord = [w, x, y, z] :=
    ⟨_, _, _, _, rfl⟩
  rw [habc] at hlength
  rw [hwxyz] at hstream
  simp only [frameHeader, wire, habc, hwxyz, List.cons_append, List.nil_append,
    List.getD_cons_succ, List.getD_cons_zero, List.take_succ_cons, List.take_zero,
    List.drop_succ_cons, List.drop_zero, hlength, hstream, hword.2, header]

theorem drop_wire : (f.wire ++ rest).drop 9 = f.body ++ rest := by
  have hlen : (toBigEndian 3 f.body.length ++ f.type :: f.flags ::
      toBigEndian 4 f.streamWord).length = 9 := by simp
  rw [wire, List.append_assoc]
  exact List.drop_left' hlen

theorem length_wire : f.wire.length = 9 + f.body.length := by
  simp only [wire, List.length_append, List.length_cons, length_toBigEndian]

theorem not_length_lt : ¬ (f.wire ++ rest).length < 9 := by
  rw [List.length_append, f.length_wire]
  omega

end

/-! ### The loop on a frame -/

section

variable {δ : Type} {dec : HpackDecoder δ} (server : Bool) (kernelTime : UInt64) {f : RawFrame}
  {d d' : δ} {fields : List HeaderField}

theorem scan_other (htype : f.type ≠ 1) (fuel offset : Nat) (rest : Bytes) (d : δ) (t : Tables) :
    scan dec server kernelTime (fuel + 1) offset (f.wire ++ rest) d t =
      let after := scan dec server kernelTime fuel (offset + (9 + f.body.length)) rest d t
      ((offset, f.header) :: after.1, after.2) := by
  have hfits : ¬ (f.body ++ rest).length < f.body.length := by
    rw [List.length_append]
    omega
  rw [scan, if_neg (f.not_length_lt rest), f.frameHeader_wire, f.drop_wire]
  simp only [header_type, header_length, if_pos htype, if_neg hfits, List.drop_left]

theorem scan_decoded (htype : f.type = 1) (hwrite : dec.write d f.body = (fields, true, d'))
    (fuel offset : Nat) (rest : Bytes) (t : Tables) :
    scan dec server kernelTime (fuel + 1) offset (f.wire ++ rest) d t =
      let after := scan dec server kernelTime fuel (offset + (9 + f.body.length)) rest d'
        (t.onHeaders server kernelTime f.streamId fields)
      ((offset, f.header) :: after.1, after.2) := by
  have htype : ¬ f.type ≠ 1 := not_not.mpr htype
  rw [scan, if_neg (f.not_length_lt rest), f.frameHeader_wire, f.drop_wire]
  simp only [header_type, header_length, header_streamId, if_neg htype, List.take_left, hwrite,
    if_true, List.drop_left]

theorem scan_failed (htype : f.type = 1) (hwrite : dec.write d f.body = (fields, false, d'))
    (fuel offset : Nat) (rest : Bytes) (t : Tables) :
    scan dec server kernelTime (fuel + 1) offset (f.wire ++ rest) d t =
      let after := scan dec server kernelTime fuel (offset + 9) (f.body ++ rest) d'
        (t.onHeaders server kernelTime f.streamId fields)
      ((offset, f.header) :: after.1, after.2) := by
  have htype : ¬ f.type ≠ 1 := not_not.mpr htype
  rw [scan, if_neg (f.not_length_lt rest), f.frameHeader_wire, f.drop_wire]
  simp only [header_type, header_length, header_streamId, if_neg htype, List.take_left, hwrite,
    if_false, Bool.false_eq_true]

end

end RawFrame

/-! ## Frames with their fields -/

/-- The types of frames, except for CONTINUATION. -/
inductive FrameType where
  | data
  | headers
  | priority
  | rstStream
  | settings
  | pushPromise
  | ping
  | goAway
  | windowUpdate
  deriving DecidableEq

def FrameType.code : FrameType → UInt8
  | .data => 0
  | .headers => 1
  | .priority => 2
  | .rstStream => 3
  | .settings => 4
  | .pushPromise => 5
  | .ping => 6
  | .goAway => 7
  | .windowUpdate => 8

theorem FrameType.code_eq_one {type : FrameType} : type.code = 1 ↔ type = .headers := by
  cases type <;> decide

theorem FrameType.code_lt (type : FrameType) : type.code < 9 := by
  cases type <;> decide

structure Frame where
  type : FrameType
  flags : UInt8
  streamId : Nat
  body : Bytes
  /-- What the header block stands for, in a frame that has one. -/
  fields : List HeaderField
  streamId_lt : streamId < 2 ^ 31
  length_lt : body.length < 2 ^ 24

def Frame.padded (f : Frame) : Bool := f.flags &&& 0x8 ≠ 0

def Frame.prioritized (f : Frame) : Bool := f.type = .headers && f.flags &&& 0x20 ≠ 0

/-- The header block of a HEADERS or PUSH_PROMISE frame: the body without padding, priority or
promised stream. -/
def Frame.block (f : Frame) : Bytes :=
  let padding := if f.padded then (f.body.headD 0).toNat else 0
  let body := if f.padded then f.body.drop 1 else f.body
  let body := body.take (body.length - padding)
  if f.prioritized then body.drop 5 else if f.type = .pushPromise then body.drop 4 else body

/-- A frame with a header block is a HEADERS frame whose body is the block. -/
def Frame.Plain (f : Frame) : Prop :=
  f.type ≠ .pushPromise ∧ (f.type = .headers → f.padded = false ∧ f.prioritized = false)

instance (f : Frame) : Decidable f.Plain := by
  unfold Frame.Plain
  infer_instance

theorem Frame.block_of_plain {f : Frame} (hplain : f.Plain) (htype : f.type = .headers) :
    f.block = f.body := by
  obtain ⟨hpadded, hprioritized⟩ := hplain.2 htype
  have hpromise : f.type ≠ .pushPromise := hplain.1
  simp [Frame.block, hpadded, hprioritized, hpromise]

/-- The frame without what its block stands for. -/
def Frame.raw (f : Frame) : RawFrame where
  type := f.type.code
  flags := f.flags
  reserved := false
  streamId := f.streamId
  body := f.body
  streamId_lt := f.streamId_lt
  length_lt := f.length_lt

def Frame.wire (f : Frame) : Bytes := f.raw.wire

/-! ## Payloads -/

/-- The frames that the agent gets at once, from one side. -/
structure Payload where
  server : Bool
  /-- A payload of the client may start with the preface of the connection. -/
  preface : Bool
  frames : List Frame
  kernelTime : UInt64

def Payload.wire (p : Payload) : Bytes := p.frames.flatMap Frame.wire

def Payload.event (p : Payload) : Event where
  method := framesMethod p.server
  payload := if p.preface ∧ ¬ p.server then clientPreface ++ p.wire else p.wire
  kernelTime := p.kernelTime

theorem length_flatMap_wire : ∀ frames : List Frame,
    frames.length ≤ (frames.flatMap Frame.wire).length
  | [] => Nat.le_refl 0
  | f :: rest => by
    have hrest := length_flatMap_wire rest
    have hf : f.wire.length = 9 + f.body.length := f.raw.length_wire
    rw [List.flatMap_cons, List.length_append, hf, List.length_cons]
    omega

theorem wire_eq_nil {p : Payload} : p.wire = [] ↔ p.frames = [] := by
  constructor
  · intro h
    have hlen := length_flatMap_wire p.frames
    rw [show p.frames.flatMap Frame.wire = [] from h] at hlen
    exact List.eq_nil_of_length_eq_zero (Nat.le_zero.mp hlen)
  · intro h
    rw [Payload.wire, h]
    rfl

theorem hasPrefix_wire (p : Payload) : hasPrefix p.wire clientPreface = false := by
  rw [Bool.eq_false_iff]
  intro h
  rw [hasPrefix, List.isPrefixOf_iff_prefix] at h
  obtain ⟨tail, htail⟩ := h
  have htype : p.wire.getD 3 0 = 32 := by
    rw [← htail]
    rfl
  cases hframes : p.frames with
  | nil =>
    rw [wire_eq_nil.mpr hframes] at htype
    exact absurd htype (by decide)
  | cons f rest =>
    have hheader := congrArg Http2FrameHeader.type (f.raw.frameHeader_wire
      (rest.flatMap Frame.wire))
    have hcode : f.type.code = 32 := by
      rw [← htype, Payload.wire, hframes, List.flatMap_cons]
      exact hheader.symm
    have hlt := f.type.code_lt
    rw [hcode] at hlt
    exact absurd hlt (by decide)

theorem event_stripped (p : Payload) :
    p.event.payload.drop (prefaceLength p.event.method p.event.payload) = p.wire := by
  unfold Payload.event prefaceLength framesMethod
  cases hserver : p.server with
  | true => simp
  | false =>
    cases p.preface with
    | true => simp
    | false => simp [hasPrefix_wire]

/-! ## Decoding -/

/-- A decoder that is right. `fields bs b` is what the block `b` stands for after the blocks `bs`,
and `After bs` holds of a decoder that has read these. -/
structure Hpack {δ : Type} (dec : HpackDecoder δ) where
  fields : List Bytes → Bytes → Option (List HeaderField)
  After : List Bytes → δ → Prop
  after_start : After [] dec.start
  after_close : ∀ {bs : List Bytes} {d : δ}, After bs d → After bs (dec.close d)
  after_write : ∀ {bs : List Bytes} {d : δ} {b : Bytes} {hfs : List HeaderField}, After bs d →
    fields bs b = some hfs → ∃ d', dec.write d b = (hfs, true, d') ∧ After (bs ++ [b]) d'

def framesOf (server : Bool) (ps : List Payload) : List Frame :=
  (ps.filter (fun p => p.server = server)).flatMap Payload.frames

def blocks (frames : List Frame) : List Bytes :=
  (frames.filter (fun f => f.type = .headers ∨ f.type = .pushPromise)).map Frame.block

section

variable {δ : Type} {dec : HpackDecoder δ} (hp : Hpack dec)

/-- Each block is an encoding of the fields of its frame, after the blocks before it. -/
def EncodedFrames : List Bytes → List Frame → Prop
  | _, [] => True
  | earlier, f :: rest =>
    (f.type = .headers ∨ f.type = .pushPromise → hp.fields earlier f.block = some f.fields) ∧
      EncodedFrames (earlier ++ blocks [f]) rest

/-- The blocks of a connection are encodings, those of each side by themselves. -/
def Encoded (ps : List Payload) : Prop := ∀ server, EncodedFrames hp [] (framesOf server ps)

theorem encodedFrames_append {gs : List Frame} : ∀ {fs : List Frame} {earlier : List Bytes},
    EncodedFrames hp earlier (fs ++ gs) ↔
      EncodedFrames hp earlier fs ∧ EncodedFrames hp (earlier ++ blocks fs) gs
  | [], earlier => by simp [EncodedFrames, blocks]
  | f :: fs, earlier => by
    have hblocks : blocks (f :: fs) = blocks [f] ++ blocks fs := by
      rw [blocks, blocks, blocks, ← List.map_append, ← List.filter_append]
      rfl
    rw [List.cons_append, EncodedFrames, EncodedFrames, encodedFrames_append, hblocks,
      List.append_assoc, and_assoc]

end

/-! ## The loop over the frames -/

def Frame.apply (server : Bool) (kernelTime : UInt64) (t : Tables) (f : Frame) : Tables :=
  if f.type = .headers then t.onHeaders server kernelTime f.streamId f.fields else t

section

variable {δ : Type} {dec : HpackDecoder δ} (server : Bool) (kernelTime : UInt64)

variable (hp : Hpack dec)

theorem scan_frames : ∀ {frames : List Frame} {earlier : List Bytes} {d : δ} {fuel : Nat}
    (offset : Nat) (t : Tables), (∀ f ∈ frames, f.Plain) → EncodedFrames hp earlier frames →
    hp.After earlier d → frames.length ≤ fuel →
    ∃ d', (scan dec server kernelTime fuel offset (frames.flatMap Frame.wire) d t).2 =
        (d', frames.foldl (Frame.apply server kernelTime) t) ∧
      hp.After (earlier ++ blocks frames) d'
  | [], earlier, d, fuel, _, t, _, _, hafter, _ => by
    refine ⟨d, ?_, by simpa [blocks] using hafter⟩
    cases fuel with
    | zero => rfl
    | succ fuel => rfl
  | f :: rest, earlier, d, 0, _, t, _, _, _, hfuel => absurd hfuel (Nat.not_succ_le_zero _)
  | f :: rest, earlier, d, fuel + 1, offset, t, hplain, henc, hafter, hfuel => by
    have hf : f.Plain := hplain f List.mem_cons_self
    have hrest : ∀ g ∈ rest, g.Plain := fun g hg => hplain g (List.mem_cons_of_mem f hg)
    have hfuel : rest.length ≤ fuel := Nat.le_of_succ_le_succ hfuel
    rw [List.flatMap_cons, List.foldl_cons]
    by_cases htype : f.type = .headers
    · -- the body is the block, so the decoder emits the fields
      have hblock : f.block = f.body := Frame.block_of_plain hf htype
      have hblocks : blocks [f] = [f.body] := by simp [blocks, htype, hblock]
      have hblocks' : blocks (f :: rest) = f.body :: blocks rest := by
        simp [blocks, htype, hblock]
      obtain ⟨hfields, hencRest⟩ := henc
      have hfields : hp.fields earlier f.body = some f.fields := hblock ▸ hfields (.inl htype)
      obtain ⟨d₁, hwrite, hafter₁⟩ := hp.after_write hafter hfields
      rw [hblocks] at hencRest
      obtain ⟨d', hscan, hafter'⟩ := scan_frames (offset + (9 + f.body.length))
        (t.onHeaders server kernelTime f.streamId f.fields) hrest hencRest hafter₁ hfuel
      refine ⟨d', ?_, ?_⟩
      · have hcode : f.raw.type = 1 := FrameType.code_eq_one.mpr htype
        rw [Frame.wire, RawFrame.scan_decoded server kernelTime hcode hwrite, Frame.apply,
          if_pos htype]
        exact hscan
      · rwa [hblocks', List.append_cons]
    · have hblocks : blocks [f] = [] := by simp [blocks, htype, hf.1]
      have hblocks' : blocks (f :: rest) = blocks rest := by simp [blocks, htype, hf.1]
      have hencRest := henc.2
      rw [hblocks, List.append_nil] at hencRest
      obtain ⟨d', hscan, hafter'⟩ := scan_frames (offset + (9 + f.body.length)) t hrest hencRest
        hafter hfuel
      refine ⟨d', ?_, hblocks' ▸ hafter'⟩
      have hcode : f.raw.type ≠ 1 := fun h => htype (FrameType.code_eq_one.mp h)
      rw [Frame.wire, RawFrame.scan_other server kernelTime hcode, Frame.apply, if_neg htype]
      exact hscan

end

/-! ## The parser without bytes -/

/-- The requests that a parser keeps, and the time it last looked for old ones. -/
abbrev Requests := Dict Nat Http2Request × UInt64

def Payload.step (p : Payload) (st : Requests) : List (Nat × Http2Request) × Requests :=
  if p.frames = [] then ([], st)
  else (p.frames.foldl (Frame.apply p.server p.kernelTime) ⟨st.1, ∅, ∅⟩).finish p.kernelTime st.2

def reports : List Payload → Requests → List (Nat × Http2Request)
  | [], _ => []
  | p :: rest, st => (p.step st).1 ++ reports rest (p.step st).2

section

variable {δ : Type} {dec : HpackDecoder δ} (hp : Hpack dec)

/-- Each decoder has read the blocks of its side. -/
def Decoding (earlier : Bool → List Bytes) (parser : Http2Parser δ) : Prop :=
  ∀ server, hp.After (earlier server) (parser.decoder server)

def Http2Parser.requests (parser : Http2Parser δ) : Requests :=
  (parser.activeRequests, parser.lastGcTime)

theorem parse_payload {earlier : Bool → List Bytes} {parser : Http2Parser δ} {p : Payload}
    (hdec : Decoding hp earlier parser) (hplain : ∀ f ∈ p.frames, f.Plain)
    (henc : EncodedFrames hp (earlier p.server) p.frames) :
    ∃ parser', parser.parse dec p.event.method p.event.payload p.event.kernelTime =
        ((p.step parser.requests).1, parser') ∧
      parser'.requests = (p.step parser.requests).2 ∧
      Decoding hp (fun server => earlier server ++ blocks (framesOf server [p])) parser' := by
  by_cases hempty : p.frames = []
  · have hnone : ∀ server, blocks (framesOf server [p]) = [] := by
      intro server
      unfold framesOf
      cases decide (p.server = server) <;> simp [hempty, blocks]
    refine ⟨parser, ?_, ?_, ?_⟩
    · unfold Http2Parser.parse
      simp only [event_stripped]
      rw [if_pos (wire_eq_nil.mpr hempty), Payload.step, if_pos hempty]
    · rw [Payload.step, if_pos hempty]
    · simpa only [hnone, List.append_nil] using hdec
  · have hwire : p.wire ≠ [] := fun h => hempty (wire_eq_nil.mp h)
    have hfuel : p.frames.length ≤ p.wire.length := length_flatMap_wire p.frames
    obtain ⟨d', hscan, hafter⟩ := scan_frames p.server p.kernelTime hp
      (prefaceLength p.event.method p.event.payload) ⟨parser.activeRequests, ∅, ∅⟩ hplain henc
      (hdec p.server) hfuel
    let t := p.frames.foldl (Frame.apply p.server p.kernelTime) ⟨parser.activeRequests, ∅, ∅⟩
    have hread : (parser.readHeaders dec p.server p.kernelTime p.event.payload).2 = (d', t) := by
      rw [← hscan]
      show (scan _ _ _ (List.drop (prefaceLength p.event.method p.event.payload) _).length _
        (List.drop (prefaceLength p.event.method p.event.payload) _) _ _).2 = _
      rw [event_stripped]
      rfl
    rw [Payload.step, if_neg hempty]
    refine ⟨parser.after dec p.server p.kernelTime d' t, ?_, rfl, fun server => ?_⟩
    · exact parse_eq_readHeaders dec parser p.server p.kernelTime
        (fun h => hwire (event_stripped p ▸ h)) (Prod.ext rfl hread)
    · rw [decoder_after]
      split
      · next hside => simpa [framesOf, hside] using hp.after_close hafter
      · next hside => simpa [framesOf, Ne.symm hside, blocks] using hdec server

theorem framesOf_cons (server : Bool) (p : Payload) (ps : List Payload) :
    framesOf server (p :: ps) = framesOf server [p] ++ framesOf server ps := by
  rw [framesOf, framesOf, framesOf, ← List.flatMap_append, ← List.filter_append]
  rfl

theorem run_from : ∀ {ps : List Payload} {earlier : Bool → List Bytes} {parser : Http2Parser δ},
    Decoding hp earlier parser → (∀ p ∈ ps, ∀ f ∈ p.frames, f.Plain) →
    (∀ server, EncodedFrames hp (earlier server) (framesOf server ps)) →
    parser.run dec (ps.map Payload.event) = reports ps parser.requests
  | [], _, _, _, _, _ => rfl
  | p :: ps, earlier, parser, hdec, hplain, henc => by
    have hsplit : ∀ server, EncodedFrames hp (earlier server) (framesOf server [p]) ∧
        EncodedFrames hp (earlier server ++ blocks (framesOf server [p])) (framesOf server ps) := by
      intro server
      have h := henc server
      rw [framesOf_cons] at h
      exact (encodedFrames_append hp).mp h
    have hown : EncodedFrames hp (earlier p.server) p.frames := by
      simpa [framesOf] using (hsplit p.server).1
    obtain ⟨parser', hparse, hrequests, hdec'⟩ :=
      parse_payload hp hdec (hplain p List.mem_cons_self) hown
    rw [List.map_cons, Http2Parser.run, hparse, reports, ← hrequests]
    dsimp only
    rw [run_from hdec' (fun q hq => hplain q (List.mem_cons_of_mem p hq))
      (fun server => (hsplit server).2)]

theorem run_payloads {ps : List Payload} (hplain : ∀ p ∈ ps, ∀ f ∈ p.frames, f.Plain)
    (henc : Encoded hp ps) :
    (newHttp2Parser dec).run dec (ps.map Payload.event) = reports ps (∅, 0) := by
  have hdec : Decoding hp (fun _ => []) (newHttp2Parser dec) := by
    intro server
    cases server <;> exact hp.after_start
  exact run_from hp hdec hplain henc

end

end L7
