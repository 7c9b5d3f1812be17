import NodeAgent.Ebpf.Protocols
import NodeAgent.Infra.Dict

/-!
# HTTP/2 (`ebpftracer/l7/http2.go`)

A parser gets the payloads of one connection, those of the client and those of the server. It looks
for HEADERS frames, keeps the requests of the streams, and reports a request when the server has
sent headers for its stream. HPACK is left to a decoder.
-/

namespace L7

open Infra Ebpf

/-! ## Headers -/

structure HeaderField where
  name : Bytes
  value : Bytes
  deriving DecidableEq

/-- `hpack.Decoder`. `write` returns the fields that are emitted, and whether there is no error. -/
structure HpackDecoder (δ : Type) where
  start : δ
  write : δ → Bytes → List HeaderField × Bool × δ
  close : δ → δ

/-- The digits of a number, up to the first one that does not fit into 64 bits. -/
def parseDigits (n : Nat) : Bytes → Option Nat
  | [] => some n
  | b :: rest =>
    if 48 ≤ b ∧ b ≤ 57 then
      let n := n * 10 + (b.toNat - 48)
      if n < 2 ^ 64 then parseDigits n rest else some (2 ^ 64 - 1)
    else none

/-- The number of `strconv.Atoi`: the nearest one where it does not fit, and `0` where there is
none. -/
def atoi (s : Bytes) : Int :=
  let number := fun (digits : Bytes) => if digits = [] then none else parseDigits 0 digits
  match s with
  | 45 :: digits => ((number digits).map fun n => max (-(n : Int)) (-2 ^ 63)).getD 0
  | 43 :: digits => ((number digits).map fun n => min (n : Int) (2 ^ 63 - 1)).getD 0
  | digits => ((number digits).map fun n => min (n : Int) (2 ^ 63 - 1)).getD 0

example : atoi (ascii "200") = 200 := by decide +kernel

def isHttpMethod (s : Bytes) : Bool :=
  s ∈ [ascii "GET", ascii "HEAD", ascii "POST", ascii "PUT", ascii "PATCH", ascii "DELETE",
    ascii "CONNECT", ascii "OPTIONS", ascii "TRACE"]

def isHttpPath (s : Bytes) : Bool := hasPrefix s (ascii "/") || s = ascii "*"

def isHttpScheme (s : Bytes) : Bool := s = ascii "http" || s = ascii "https"

/-! ## Requests -/

structure Http2Request where
  method : Bytes
  path : Bytes
  scheme : Bytes
  status : Int
  grpcStatus : Int
  duration : Int64
  kernelTime : UInt64
  deriving DecidableEq

/-- `&Http2Request{kernelTime: kernelTime}` -/
def newRequest (kernelTime : UInt64) : Http2Request := ⟨[], [], [], 0, 0, 0, kernelTime⟩

/-- The function that the decoder of the client calls for a field. -/
def Http2Request.emit (req : Http2Request) (hf : HeaderField) : Http2Request :=
  if hf.name = ascii ":method" then
    if req.method = [] ∧ isHttpMethod hf.value then { req with method := hf.value } else req
  else if hf.name = ascii ":path" then
    if req.path = [] ∧ isHttpPath hf.value then { req with path := hf.value } else req
  else if hf.name = ascii ":scheme" then
    if req.scheme = [] ∧ isHttpScheme hf.value then { req with scheme := hf.value } else req
  else req

/-- The maps that a payload changes: `activeRequests` of the parser, and the local ones. -/
structure Tables where
  active : Dict Nat Http2Request
  statuses : Dict Nat Int
  grpcStatuses : Dict Nat Int

/-- The function that the decoder of the server calls for a field. -/
def Tables.emit (streamId : Nat) (t : Tables) (hf : HeaderField) : Tables :=
  if hf.name = ascii ":status" then
    { t with statuses := t.statuses.insert streamId (atoi hf.value) }
  else if hf.name = ascii "grpc-status" then
    { t with grpcStatuses := t.grpcStatuses.insert streamId (atoi hf.value) }
  else t

/-- What a HEADERS frame does, with the fields that its block decodes to. -/
def Tables.onHeaders (server : Bool) (kernelTime : UInt64) (t : Tables) (streamId : Nat)
    (fields : List HeaderField) : Tables :=
  if server then
    let t := if streamId ∈ t.statuses then t
      else { t with statuses := t.statuses.insert streamId 0 }
    fields.foldl (Tables.emit streamId) t
  else
    let req := (t.active.lookup streamId).getD (newRequest kernelTime)
    { t with active := t.active.insert streamId (fields.foldl Http2Request.emit req) }

/-! ## Frames -/

structure Http2FrameHeader where
  type : UInt8
  flags : UInt8
  length : Nat
  streamId : Nat
  deriving DecidableEq

/-- The frame header at the front of nine bytes or more. -/
def frameHeader (payload : Bytes) : Http2FrameHeader where
  type := payload.getD 3 0
  flags := payload.getD 4 0
  length := bigEndian (payload.take 3)
  streamId := bigEndian ((payload.drop 5).take 4) % 2 ^ 31

section

variable {δ : Type} (dec : HpackDecoder δ) (server : Bool) (kernelTime : UInt64)

/-- The loop of `Parse`, on the bytes that are left of the payload from an offset on, with each
frame header that it reads. Each round takes a frame header away. -/
def scan : Nat → Nat → Bytes → δ → Tables → List (Nat × Http2FrameHeader) × δ × Tables
  | 0, _, _, d, t => ([], d, t)
  | fuel + 1, offset, payload, d, t =>
    if payload.length < 9 then ([], d, t)
    else
      let h := frameHeader payload
      let payload := payload.drop 9
      let noted := fun (after : List (Nat × Http2FrameHeader) × δ × Tables) =>
        ((offset, h) :: after.1, after.2)
      if h.type ≠ 1 then
        if payload.length < h.length then noted ([], d, t)
        else noted (scan fuel (offset + (9 + h.length)) (payload.drop h.length) d t)
      else
        match dec.write d (payload.take h.length) with
        | (fields, ok, d) =>
          let t := t.onHeaders server kernelTime h.streamId fields
          if ok then noted (scan fuel (offset + (9 + h.length)) (payload.drop h.length) d t)
          -- after an error the loop goes on right behind the frame header
          else noted (scan fuel (offset + 9) payload d t)

end

/-! ## The parser -/

structure Http2Parser (δ : Type) where
  clientDecoder : δ
  serverDecoder : δ
  activeRequests : Dict Nat Http2Request
  lastGcTime : UInt64

def newHttp2Parser {δ : Type} (dec : HpackDecoder δ) : Http2Parser δ :=
  ⟨dec.start, dec.start, ∅, 0⟩

/-- `http2.ClientPreface` -/
def clientPreface : Bytes :=
  ascii "PRI * HTTP/2.0" ++ [13, 10, 13, 10] ++ ascii "SM" ++ [13, 10, 13, 10]

/-- Ten minutes, in nanoseconds. -/
def http2DecoderGcInterval : UInt64 := 600000000000

/-- The loop over `statuses`. The source does not return the streams of the requests. -/
def report (kernelTime : UInt64) (grpcStatuses : Dict Nat Int)
    (acc : List (Nat × Http2Request) × Dict Nat Http2Request) (entry : Σ _ : Nat, Int) :
    List (Nat × Http2Request) × Dict Nat Http2Request :=
  match acc.2.lookup entry.1 with
  | none => acc
  | some r =>
    (acc.1 ++ [(entry.1, { r with
      status := entry.2
      grpcStatus := (grpcStatuses.lookup entry.1).getD (-1)
      duration := (kernelTime - r.kernelTime).toInt64 })],
    acc.2.erase entry.1)

/-- The end of `Parse`: reports, and requests that are too old. -/
def Tables.finish (t : Tables) (kernelTime lastGcTime : UInt64) :
    List (Nat × Http2Request) × Dict Nat Http2Request × UInt64 :=
  let (res, active) := t.statuses.entries.foldl (report kernelTime t.grpcStatuses) ([], t.active)
  if kernelTime - lastGcTime > http2DecoderGcInterval then
    let active := if lastGcTime > 0 then
        active.filter (fun _ r => decide (¬ kernelTime - r.kernelTime > http2DecoderGcInterval))
      else active
    (res, active, kernelTime)
  else (res, active, lastGcTime)

/-- The bytes that `Parse` skips before the loop: the preface of the client. -/
def prefaceLength (method : Method) (payload : Bytes) : Nat :=
  if method = .http2ClientFrames ∧ hasPrefix payload clientPreface then clientPreface.length else 0

/-- `Parse`, for a connection with a decoder for each side. -/
def Http2Parser.parse {δ : Type} (dec : HpackDecoder δ) (p : Http2Parser δ) (method : Method)
    (payload : Bytes) (kernelTime : UInt64) : List (Nat × Http2Request) × Http2Parser δ :=
  let skipped := prefaceLength method payload
  let payload := payload.drop skipped
  if payload = [] then ([], p)
  else
    match method with
    | .http2ClientFrames =>
      let (_, d, t) := scan dec false kernelTime payload.length skipped payload p.clientDecoder
        ⟨p.activeRequests, ∅, ∅⟩
      let (res, active, gc) := t.finish kernelTime p.lastGcTime
      (res, ⟨dec.close d, p.serverDecoder, active, gc⟩)
    | .http2ServerFrames =>
      let (_, d, t) := scan dec true kernelTime payload.length skipped payload p.serverDecoder
        ⟨p.activeRequests, ∅, ∅⟩
      let (res, active, gc) := t.finish kernelTime p.lastGcTime
      (res, ⟨p.clientDecoder, dec.close d, active, gc⟩)
    | _ => ([], p)

/-- A payload as the agent gets it: what it holds, its bytes, and the time of the kernel. -/
structure Event where
  method : Method
  payload : Bytes
  kernelTime : UInt64

/-- What `onL7Request` gets from the parser of a connection, event by event. -/
def Http2Parser.run {δ : Type} (dec : HpackDecoder δ) (p : Http2Parser δ) :
    List Event → List (Nat × Http2Request)
  | [] => []
  | e :: rest =>
    let (res, p) := p.parse dec e.method e.payload e.kernelTime
    res ++ p.run dec rest

end L7
