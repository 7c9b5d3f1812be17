import NodeAgent.L7.Http2.Streams

/-!
# Exchanges

Each stream should be reported once, with the request of the client and the final status of the
server. The parser reports a stream as soon as a payload of the server has HEADERS of it, with what
this payload tells.

* `exchange_reported_iff` — **when a stream is reported once and with its values**
-/

namespace L7

open Infra Ebpf

/-! ## The values of a request -/

def valueOf (name : Bytes) (fields : List HeaderField) : Bytes :=
  ((fields.find? (fun f => f.name = name)).map HeaderField.value).getD []

/-- A value is taken if there is none yet and it passes a check. -/
def takeFirst (name : Bytes) (ok : Bytes → Bool) (v : Bytes) (hf : HeaderField) : Bytes :=
  if hf.name = name ∧ v = [] ∧ ok hf.value then hf.value else v

section

variable {name : Bytes} (ok : Bytes → Bool)

theorem foldl_takeFirst_other {v : Bytes} : ∀ {fields : List HeaderField},
    fields.filter (fun f => f.name = name) = [] → fields.foldl (takeFirst name ok) v = v
  | [], _ => rfl
  | f :: rest, h => by
    have hf : f.name ≠ name := by
      intro heq
      rw [List.filter_cons_of_pos (by simpa using heq)] at h
      cases h
    rw [List.filter_cons_of_neg (by simpa using hf)] at h
    rw [List.foldl_cons, takeFirst, if_neg (fun hand => hf hand.1)]
    exact foldl_takeFirst_other h

theorem foldl_takeFirst_iff : ∀ {fields : List HeaderField},
    (fields.filter (fun f => f.name = name)).length ≤ 1 →
    (fields.foldl (takeFirst name ok) [] = valueOf name fields ↔
      valueOf name fields = [] ∨ ok (valueOf name fields) = true)
  | [], _ => by simp [valueOf]
  | f :: rest, honce => by
    by_cases hf : f.name = name
    · have hrest : rest.filter (fun f => f.name = name) = [] := by
        rw [List.filter_cons_of_pos (by simpa using hf), List.length_cons] at honce
        exact List.eq_nil_of_length_eq_zero (by omega)
      have hvalue : valueOf name (f :: rest) = f.value := by simp [valueOf, hf]
      rw [List.foldl_cons, foldl_takeFirst_other ok hrest, hvalue, takeFirst]
      by_cases hok : ok f.value = true
      · simp [hf, hok]
      · simp [hok, eq_comm]
    · have hvalue : valueOf name (f :: rest) = valueOf name rest := by simp [valueOf, hf]
      rw [List.filter_cons_of_neg (by simpa using hf)] at honce
      rw [List.foldl_cons, hvalue, takeFirst, if_neg (fun hand => hf hand.1)]
      exact foldl_takeFirst_iff honce

end

theorem foldl_emit_values (fields : List HeaderField) (r : Http2Request) :
    (fields.foldl Http2Request.emit r).method =
      fields.foldl (takeFirst (ascii ":method") isHttpMethod) r.method ∧
    (fields.foldl Http2Request.emit r).path =
      fields.foldl (takeFirst (ascii ":path") isHttpPath) r.path ∧
    (fields.foldl Http2Request.emit r).scheme =
      fields.foldl (takeFirst (ascii ":scheme") isHttpScheme) r.scheme := by
  have hemit : ∀ (r : Http2Request) (f : HeaderField),
      (r.emit f).method = takeFirst (ascii ":method") isHttpMethod r.method f ∧
      (r.emit f).path = takeFirst (ascii ":path") isHttpPath r.path f ∧
      (r.emit f).scheme = takeFirst (ascii ":scheme") isHttpScheme r.scheme f := by
    intro r f
    have hmp : ascii ":method" ≠ ascii ":path" := by decide
    have hms : ascii ":method" ≠ ascii ":scheme" := by decide
    have hps : ascii ":path" ≠ ascii ":scheme" := by decide
    unfold Http2Request.emit takeFirst
    by_cases hm : f.name = ascii ":method"
    · rw [if_pos hm, hm]
      split <;> simp_all
    · rw [if_neg hm]
      by_cases hpath : f.name = ascii ":path"
      · rw [if_pos hpath, hpath]
        split <;> simp_all
      · rw [if_neg hpath]
        split
        · split <;> simp_all
        · simp_all
  induction fields generalizing r with
  | nil => exact ⟨rfl, rfl, rfl⟩
  | cons f rest ih =>
    obtain ⟨hmethod, hpath, hscheme⟩ := hemit r f
    rw [List.foldl_cons, List.foldl_cons, List.foldl_cons, List.foldl_cons, ← hmethod, ← hpath,
      ← hscheme]
    exact ih (r.emit f)

/-! ## Exchanges -/

/-- The first status that is not an informational one. -/
def finalStatus (fields : List HeaderField) : Option Int :=
  ((fields.filter (fun f => f.name = ascii ":status")).map (fun f => atoi f.value)).find?
    (fun n => ¬ (100 ≤ n ∧ n < 200))

/-- A request and its answer. The payloads are cut at the first one with HEADERS of the server. -/
structure Exchange (s : Nat) (ps : List Payload) where
  request : List HeaderField
  trailers : List (List HeaderField)
  status : Int
  before : List Payload
  answer : Payload
  after : List Payload
  sent : heads false s ps = request :: trailers
  /-- A pseudo-header field occurs once at most, and never in trailers. -/
  once : ∀ name ∈ [ascii ":method", ascii ":path", ascii ":scheme"],
    (request.filter (fun f => f.name = name)).length ≤ 1
  regular : ∀ h ∈ trailers, Regular h
  final : finalStatus (heads true s ps).flatten = some status
  payloads : ps = before ++ answer :: after
  requested : heads false s before ≠ []
  unanswered : heads true s before = []
  server : answer.server = true
  answered : headsOf s answer.frames ≠ []

namespace Exchange

variable {s : Nat} {ps : List Payload} (x : Exchange s ps)

/-- A report with the values that the two sides have sent. -/
def Describes (r : Http2Request) : Prop :=
  r.method = valueOf (ascii ":method") x.request ∧ r.path = valueOf (ascii ":path") x.request ∧
    r.scheme = valueOf (ascii ":scheme") x.request ∧ r.status = x.status ∧
    r.grpcStatus = (told (ascii "grpc-status") (heads true s ps).flatten).getD (-1)

def Recognised : Prop :=
  (valueOf (ascii ":method") x.request = [] ∨
    isHttpMethod (valueOf (ascii ":method") x.request) = true) ∧
  (valueOf (ascii ":path") x.request = [] ∨
    isHttpPath (valueOf (ascii ":path") x.request) = true) ∧
  (valueOf (ascii ":scheme") x.request = [] ∨
    isHttpScheme (valueOf (ascii ":scheme") x.request) = true)

/-- The HEADERS of the first payload of the server tell the status and the one of gRPC. -/
def ToldAtOnce : Prop :=
  (told (ascii ":status") (headsOf s x.answer.frames).flatten).getD 0 = x.status ∧
  (told (ascii "grpc-status") (headsOf s x.answer.frames).flatten).getD (-1) =
    (told (ascii "grpc-status") (heads true s ps).flatten).getD (-1)

theorem describes_iff (since : UInt64) :
    x.Describes (x.answer.complete s (x.request.foldl Http2Request.emit (newRequest since))) ↔
      x.Recognised ∧ x.ToldAtOnce := by
  obtain ⟨hmethod, hpath, hscheme⟩ := foldl_emit_values x.request (newRequest since)
  have hm := foldl_takeFirst_iff isHttpMethod (x.once (ascii ":method") (by simp))
  have hp := foldl_takeFirst_iff isHttpPath (x.once (ascii ":path") (by simp))
  have hs := foldl_takeFirst_iff isHttpScheme (x.once (ascii ":scheme") (by simp))
  rw [Recognised, ← hm, ← hp, ← hs]
  constructor
  · rintro ⟨h₁, h₂, h₃, hstatus, hgrpc⟩
    exact ⟨⟨hmethod.symm.trans h₁, hpath.symm.trans h₂, hscheme.symm.trans h₃⟩, hstatus, hgrpc⟩
  · rintro ⟨⟨h₁, h₂, h₃⟩, hstatus, hgrpc⟩
    exact ⟨hmethod.trans h₁, hpath.trans h₂, hscheme.trans h₃, hstatus, hgrpc⟩

theorem request_before : ∃ more, heads false s x.before = x.request :: more ∧
    ∀ h ∈ more, Regular h := by
  have hcut : heads false s ps = heads false s (x.before ++ x.answer :: x.after) :=
    congrArg (heads false s) x.payloads
  have hsent := hcut.symm.trans x.sent
  obtain ⟨h, more, hbefore⟩ := List.exists_cons_of_ne_nil x.requested
  rw [heads_append, hbefore, List.cons_append, List.cons.injEq] at hsent
  obtain ⟨hrequest, htrailers⟩ := hsent
  refine ⟨more, hrequest ▸ hbefore, fun t ht => x.regular t ?_⟩
  rw [← htrailers]
  exact List.mem_append_left _ ht

end Exchange

theorem Prompt.of_append {s : Nat} {qs : List Payload} : ∀ {ps : List Payload},
    Prompt s (ps ++ qs) → Prompt s qs
  | [], h => h
  | _ :: _, h => Prompt.of_append h.2

theorem exchange_reports {s : Nat} {ps : List Payload} (x : Exchange s ps)
    (hprompt : Prompt s ps) :
    ∃ (since : UInt64) (more : List Http2Request), (more = [] ↔ ¬ Reopened s x.after) ∧
      ofStream s (reports ps (∅, 0)) =
        x.answer.complete s (x.request.foldl Http2Request.emit (newRequest since)) :: more := by
  have hcut := hprompt
  rw [x.payloads] at hcut
  have hafter : Prompt s x.after := (Prompt.of_append hcut).2
  obtain ⟨trailers, hrequest, hregular⟩ := x.request_before
  have hstart : ((∅, 0) : Requests).1.lookup s = none := AList.lookup_empty s
  obtain ⟨since, st, hnone, hreports⟩ := reports_request x.server x.answered hstart hcut
    x.unanswered hrequest hregular
  refine ⟨since, ofStream s (reports x.after st), ⟨?_, reports_closed hnone⟩, ?_⟩
  · intro hempty hreopened
    refine reports_reopened (fun r hr => ?_) hafter hreopened hempty
    rw [hnone] at hr
    cases hr
  · rw [← hreports, ← x.payloads]

/-- **A stream is reported once and with its values if and only if the parser takes the values of
the request, the first payload with HEADERS of the server tells the status and the one of gRPC, and
no HEADERS of the server follow trailers of the client.** -/
theorem exchange_reported_iff {δ : Type} {dec : HpackDecoder δ} (hp : Hpack dec) {s : Nat}
    {ps : List Payload} (hplain : ∀ p ∈ ps, ∀ f ∈ p.frames, f.Plain) (henc : Encoded hp ps)
    (hprompt : Prompt s ps) (x : Exchange s ps) :
    (∃ r, ofStream s ((newHttp2Parser dec).run dec (ps.map Payload.event)) = [r] ∧
      x.Describes r) ↔ x.Recognised ∧ x.ToldAtOnce ∧ ¬ Reopened s x.after := by
  obtain ⟨since, more, hmore, hreports⟩ := exchange_reports x hprompt
  rw [run_payloads hp hplain henc, hreports, ← hmore, ← and_assoc, ← x.describes_iff since]
  constructor
  · rintro ⟨r, hr, hdescribes⟩
    obtain ⟨rfl, hnil⟩ := List.cons.inj hr
    exact ⟨hdescribes, hnil⟩
  · rintro ⟨hdescribes, rfl⟩
    exact ⟨_, rfl, hdescribes⟩

/-! ## A call of gRPC -/

/-- A field as a literal with a new name, which no table keeps. -/
def encodeField (hf : HeaderField) : Bytes :=
  0 :: UInt8.ofNat hf.name.length :: hf.name ++ UInt8.ofNat hf.value.length :: hf.value

def decodeFields : Nat → Bytes → Option (List HeaderField)
  | _, [] => some []
  | fuel + 1, 0 :: n :: rest =>
    match rest.drop n.toNat with
    | [] => none
    | m :: more =>
      (decodeFields fuel (more.drop m.toNat)).map
        (fun hfs => ⟨rest.take n.toNat, more.take m.toNat⟩ :: hfs)
  | _, _ => none

/-- A decoder of such literals. It has nothing to remember. -/
def literalDecoder : HpackDecoder Unit where
  start := ()
  write := fun _ b =>
    match decodeFields b.length b with
    | some hfs => (hfs, true, ())
    | none => ([], false, ())
  close := id

def literalHpack : Hpack literalDecoder where
  fields := fun _ b => decodeFields b.length b
  After := fun _ _ => True
  after_start := trivial
  after_close := fun _ => trivial
  after_write := by
    intro _ _ b hfs _ hfields
    refine ⟨(), ?_, trivial⟩
    simp only [literalDecoder, hfields]

def callFields : List HeaderField :=
  [⟨ascii ":method", ascii "POST"⟩, ⟨ascii ":scheme", ascii "http"⟩,
    ⟨ascii ":path", ascii "/api.Store/Get"⟩]

theorem stream_one_lt : 1 < 2 ^ 31 := by decide

def callFrame : Frame where
  type := .headers
  flags := 4
  streamId := 1
  body := callFields.flatMap encodeField
  fields := callFields
  streamId_lt := stream_one_lt
  length_lt := by decide

def replyFrame : Frame where
  type := .headers
  flags := 4
  streamId := 1
  body := encodeField ⟨ascii ":status", ascii "200"⟩
  fields := [⟨ascii ":status", ascii "200"⟩]
  streamId_lt := stream_one_lt
  length_lt := by decide

def dataFrame : Frame where
  type := .data
  flags := 0
  streamId := 1
  body := ascii "reply"
  fields := []
  streamId_lt := stream_one_lt
  length_lt := by decide

def trailerFrame : Frame where
  type := .headers
  flags := 5
  streamId := 1
  body := encodeField ⟨ascii "grpc-status", ascii "13"⟩
  fields := [⟨ascii "grpc-status", ascii "13"⟩]
  streamId_lt := stream_one_lt
  length_lt := by decide

/-- The client calls, and the server answers with one payload. -/
def wholeReply : List Payload :=
  [⟨false, true, [callFrame], 1⟩, ⟨true, false, [replyFrame, dataFrame, trailerFrame], 2⟩]

/-- The same frames, with the trailers in a payload of their own. -/
def cutReply : List Payload :=
  [⟨false, true, [callFrame], 1⟩, ⟨true, false, [replyFrame, dataFrame], 2⟩,
    ⟨true, false, [trailerFrame], 3⟩]

def callReport (grpcStatus : Int) : Http2Request where
  method := ascii "POST"
  path := ascii "/api.Store/Get"
  scheme := ascii "http"
  status := 200
  grpcStatus := grpcStatus
  duration := 1
  kernelTime := 1

theorem plain_wholeReply : ∀ p ∈ wholeReply, ∀ f ∈ p.frames, f.Plain := by decide

theorem encoded_wholeReply : Encoded literalHpack wholeReply := by
  intro server
  cases server with
  | false => exact ⟨fun _ => rfl, trivial⟩
  | true => exact ⟨fun _ => rfl, fun h => by simp [dataFrame] at h, fun _ => rfl, trivial⟩

def wholeExchange : Exchange 1 wholeReply where
  request := callFields
  trailers := []
  status := 200
  before := [⟨false, true, [callFrame], 1⟩]
  answer := ⟨true, false, [replyFrame, dataFrame, trailerFrame], 2⟩
  after := []
  sent := rfl
  once := by decide
  regular := by simp
  final := by decide +kernel
  payloads := rfl
  requested := List.cons_ne_nil _ _
  unanswered := rfl
  server := rfl
  answered := List.cons_ne_nil _ _

theorem wholeReply_reported :
    ∃ r, ofStream 1 ((newHttp2Parser literalDecoder).run literalDecoder
      (wholeReply.map Payload.event)) = [r] ∧ wholeExchange.Describes r := by
  have hprompt : Prompt 1 wholeReply :=
    ⟨fun _ _ => ⟨fun _ => by decide, trivial⟩, ⟨fun _ _ => trivial, trivial⟩⟩
  refine (exchange_reported_iff literalHpack plain_wholeReply encoded_wholeReply hprompt
    wholeExchange).mpr ⟨?_, ?_, id⟩
  · exact ⟨.inr (by decide), .inr (by decide), .inr (by decide)⟩
  · exact ⟨by decide +kernel, by decide +kernel⟩

/-- **The same frames in other payloads: the status of gRPC is lost.** -/
theorem trailers_cut_off :
    (∀ server, framesOf server cutReply = framesOf server wholeReply) ∧
    told (ascii "grpc-status") (heads true 1 cutReply).flatten = some 13 ∧
    ofStream 1 ((newHttp2Parser literalDecoder).run literalDecoder
      (wholeReply.map Payload.event)) = [callReport 13] ∧
    ofStream 1 ((newHttp2Parser literalDecoder).run literalDecoder
      (cutReply.map Payload.event)) = [callReport (-1)] := by
  refine ⟨fun server => by cases server <;> rfl, by decide +kernel, by decide +kernel,
    by decide +kernel⟩

end L7
