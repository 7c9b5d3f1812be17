import NodeAgent.Ebpf.Calls

/-!
# From the write to the payload of the event

Runs of the handlers, one after the other, on any CPUs. Along a run it is noted which bytes the
application wrote for every request in the maps, and which write every event comes from and why.

* `WriteCall.sound`, `ReadCall.tells` — the handlers keep these notes
-/

namespace Ebpf

open Infra Prog

/-! ## Notes on the written bytes -/

/-- Why an event is sent for a write. -/
inductive Cause where
  /-- the write sends it, and found this many bytes to copy -/
  | written (size : Nat)
  /-- the write publishes a message, and `left` is what was in the event slot before -/
  | published (left : L7Event)
  /-- the request is answered, and this size was recorded with it -/
  | answered (size : Nat)
  /-- a DNS response has come, which is shown instead of the request -/
  | resolved

/-- What the running handler is about: a write, or a request that was made for one. A write has the
number of bytes it finds and the event that was in its slot before; a request has the size that is
recorded with it, and whether its payload was copied to the event. -/
inductive Subject where
  | write (w : Bytes) (size : Nat) (left : L7Event)
  | request (w : Bytes) (size : Nat) (copied : Bool)

namespace Subject

def bytes : Subject → Bytes
  | .write w _ _ => w
  | .request w _ _ => w

def copy : Subject → Subject
  | .request w size _ => .request w size true
  | s => s

/-- Why an event with this method is sent. -/
def cause (method : Method) : Subject → Cause
  | .write _ size left => if method = .produce then .published left else .written size
  | .request _ size true => .answered size
  | .request _ _ false => .resolved

end Subject

structure Trace where
  maps : Maps
  /-- the bytes of the write that made the request under a key -/
  origin : L7RequestKey → Bytes
  /-- what the running handler is about, once it knows it -/
  current : Option Subject
  /-- the events that come from a recorded write, with its bytes -/
  events : List (L7Event × Cause × Bytes)

def Trace.empty : Trace := ⟨Maps.empty, fun _ => [], none, []⟩

/-- What is noted at a call. The size of a request is truncated when its payload is copied. -/
def Trace.note (t : Trace) : BpfOp → Trace
  | .lookupRequest k =>
    let found := (t.maps.requests k).map fun r => .request (t.origin k) r.payloadSize false
    { t with current := t.current.or found }
  | .truncateRequest _ => { t with current := t.current.map Subject.copy }
  | .updateRequest k _ =>
    match t.maps.requests k, t.current with
    | none, some s => { t with origin := Function.update t.origin k s.bytes }
    | _, _ => t
  | .sendL7 e =>
    match t.current with
    | some s => { t with events := (e, s.cause e.method, s.bytes) :: t.events }
    | none => t
  | _ => t

def traceStep (clock : Nat) (op : BpfOp) (t : Trace) : op.Reply × Trace :=
  ((bpfStep clock op t.maps).1, { t.note op with maps := (bpfStep clock op t.maps).2 })

/-- The `Payload` that `runEventsReader` makes of an event. -/
def L7Event.requestPayload (e : L7Event) : Bytes :=
  if e.payloadSize = 0 then []
  else if e.payloadSize > maxPayloadSize then e.payload.first maxPayloadSize
  else e.payload.first e.payloadSize

variable {t : Trace} {e : L7Event} {size : Nat} {answer : Int × Int} {w : Bytes}

theorem requestPayload_eq (e : L7Event) : e.requestPayload = e.payload.first e.payloadSize := by
  unfold L7Event.requestPayload
  split
  · rename_i h
    rw [h]
    rfl
  split
  · rename_i h
    simp only [Buffer.first]
    rw [List.take_of_length_le (by simp), List.take_of_length_le (by simp; omega)]
  · rfl

/-- The bytes look like the response of a DNS server to one question. -/
def LooksLikeResponse (w : Bytes) : Prop := byte w 2 &&& 0x80 ≠ 0 ∧ byte w 4 = 0

/-- When the agent sees a beginning of the written bytes. -/
def Cause.Shows (w : Bytes) : Cause → Prop
  | .written size | .answered size => size < maxPayloadSize ∨ w[maxPayloadSize - 1]? = some 0
  | .published left => left.requestPayload <+: w
  | .resolved => False

def Exact (e : L7Event) (cause : Cause) (w : Bytes) : Prop :=
  e.requestPayload <+: w ↔ cause.Shows w

/-! ## What is kept -/

/-- A request under `k` that was made for the written bytes. -/
structure Entry (w : Bytes) (k : L7RequestKey) (r : L7Request) : Prop where
  copied : Copied w r.payloadSize r.payload
  stream : k.streamId ≠ -1 → ¬ LooksLikeResponse w

structure Trace.Good (t : Trace) : Prop where
  entries : ∀ k r, t.maps.requests k = some r → Entry (t.origin k) k r
  shown : ∀ p ∈ t.events, Exact p.1 p.2.1 p.2.2

/-- A call that a handler about `current` may make. -/
def Sound (current : Option Subject) : BpfOp → Prop
  | .lookupRequest _ => current ≠ none
  | .truncateRequest _ => False
  | .updateRequest k r => ∃ s, current = some s ∧ Entry s.bytes k r
  | .sendL7 e => ∀ s, current = some s → Exact e (s.cause e.method) s.bytes
  | _ => True

theorem Trace.Good.change (h : t.Good) {k : L7RequestKey} {f : L7Request → L7Request}
    (hf : ∀ r w k, Entry w k r → Entry w k (f r)) :
    ∀ k' r, Function.update t.maps.requests k ((t.maps.requests k).map f) k' = some r →
      Entry (t.origin k') k' r := by
  intro k' r hr
  obtain ⟨r', hr', hentry⟩ := of_update_map (R := fun r' r => ∀ w k, Entry w k r' → Entry w k r)
    (fun _ _ _ h => h) hf k' r hr
  exact hentry _ _ (h.entries k' r' hr')

theorem Trace.Good.update (h : t.Good) {c : Nat} {k : L7RequestKey} {r : L7Request} {s : Subject}
    (hc : t.current = some s) (hr : Entry s.bytes k r) :
    (traceStep c (.updateRequest k r) t).2.Good ∧
      (traceStep c (.updateRequest k r) t).2.current = t.current := by
  cases hk : t.maps.requests k with
  | some r' =>
    -- the request that is there stays
    simp only [traceStep, Trace.note, bpfStep, hk, hc, Option.some_or]
    refine ⟨⟨?_, h.shown⟩, trivial⟩
    have hsame : Function.update t.maps.requests k (some r') = t.maps.requests :=
      (Function.update_eq_self_iff ..).mpr hk.symm
    intro k' r'' hr''
    rw [hsame] at hr''
    exact h.entries k' r'' hr''
  | none =>
    simp only [traceStep, Trace.note, bpfStep, hk, hc, Option.none_or]
    refine ⟨⟨fun k' r' hr' => ?_, h.shown⟩, trivial⟩
    simp only at hr' ⊢
    by_cases hk' : k' = k
    · subst hk'
      rw [Function.update_self] at hr' ⊢
      cases hr'
      exact hr
    · rw [Function.update_of_ne hk'] at hr' ⊢
      exact h.entries k' r' hr'

theorem Trace.Good.send (h : t.Good) {c : Nat} (he : Sound t.current (.sendL7 e)) :
    (traceStep c (.sendL7 e) t).2.Good ∧ (traceStep c (.sendL7 e) t).2.current = t.current := by
  cases hc : t.current with
  | none =>
    simp only [traceStep, Trace.note, bpfStep, hc]
    exact ⟨⟨h.entries, h.shown⟩, trivial⟩
  | some s =>
    simp only [traceStep, Trace.note, bpfStep, hc]
    exact ⟨⟨h.entries, List.forall_mem_cons.mpr ⟨he s hc, h.shown⟩⟩, trivial⟩

/-- **A sound call keeps what is noted.** -/
theorem good_step (h : t.Good) (c : Nat) (op : BpfOp) (hop : Sound t.current op) :
    (traceStep c op t).2.Good ∧ (traceStep c op t).2.current = t.current := by
  cases op with
  | updateRequest k r =>
    obtain ⟨w, hc, hr⟩ := hop
    exact h.update hc hr
  | sendL7 e => exact h.send hop
  | lookupRequest k =>
    obtain ⟨w, hc⟩ := Option.ne_none_iff_exists'.mp hop
    refine ⟨⟨h.entries, h.shown⟩, ?_⟩
    simp only [traceStep, Trace.note, hc, Option.some_or]
  | truncateRequest k => exact hop.elim
  | markPartial k => exact ⟨⟨h.change fun _ _ _ hr => ⟨hr.copied, hr.stream⟩, h.shown⟩, rfl⟩
  | deleteRequest k =>
    exact ⟨⟨fun k' r hr => h.entries k' r (of_update_none hr).2, h.shown⟩, rfl⟩
  | _ => exact ⟨⟨h.entries, h.shown⟩, rfl⟩

theorem good_truncate (h : t.Good) (c : Nat) (k : L7RequestKey) :
    (traceStep c (.truncateRequest k) t).2.Good :=
  ⟨h.change fun _ _ _ hr => ⟨hr.copied.truncate, hr.stream⟩, h.shown⟩

/-! ## The start of a write -/

theorem copied_shown_iff (h : Copied w e.payloadSize e.payload) :
    e.requestPayload <+: w ↔
      e.payloadSize < maxPayloadSize ∨ w[maxPayloadSize - 1]? = some 0 := by
  rw [requestPayload_eq, copied_first_iff h]

theorem Found.Shows.copied {found : Found} {b b' : Buffer} (h : found.Shows w)
    (hfilled : Filled found.payload found.size b b') (hlast : b Buffer.last = 0) :
    Copied w found.size b' := by
  obtain ⟨bytes, hr, rfl⟩ := hfilled
  obtain ⟨hlen, hget⟩ := h.2.read hr
  exact copied_fill h.1 hlen hget hlast

/-- The classifiers give a stream id to Cassandra and DNS requests only. -/
theorem Decision.Decided.stream {payload : Memory} {protocol : Protocol} {requestType : UInt8}
    {requestId streamId : Int}
    (h : (Decision.request protocol requestType requestId streamId).Decided payload size)
    (hne : streamId ≠ -1) : isCassandraRequest payload size = some streamId ∨
      isDnsRequest payload size = some streamId := by
  cases protocol with
  | mysql => exact absurd h.2 hne
  | cassandra => exact .inl h
  | dns => exact .inr h
  | _ => exact absurd h hne

theorem byte_eq_of_get {v w : Bytes} {i : Nat} (h : v[i]? = w[i]?) : byte v i = byte w i := by
  simp only [byte, List.getD_eq_getElem?_getD, h]

theorem isDnsRequest_bytes {payload : Memory} {streamId : Int}
    (hs : payload.Shows (truncatePayloadSize size) w)
    (h : isDnsRequest payload size = some streamId) : byte w 2 &&& 0x80 = 0 := by
  simp only [isDnsRequest, bpfRead] at h
  split at h
  · cases h
  rename_i hsize
  split at h
  · rename_i header hr
    have hget := ((hs.mono (k := 6) (by
      simp only [truncatePayloadSize, maxPayloadSize]; omega)).read hr).2 2 (by omega)
    rw [byte_eq_of_get hget]
    split at h
    · cases h
    · rename_i hbit
      exact not_not.mp hbit
  · cases h

theorem isCassandraRequest_bytes {payload : Memory} {streamId : Int}
    (hs : payload.Shows (truncatePayloadSize size) w)
    (h : isCassandraRequest payload size = some streamId) : byte w 4 ≠ 0 := by
  simp only [isCassandraRequest, bpfRead] at h
  split at h
  · cases h
  rename_i hsize
  split at h
  · rename_i header hr
    have hget := ((hs.mono (k := 6) (by
      simp only [truncatePayloadSize, maxPayloadSize]; omega)).read hr).2 4 (by omega)
    rw [byte_eq_of_get hget]
    split at h
    · cases h
    split at h
    · rename_i hop
      rcases hop with h4 | h4 | h4 <;> rw [h4] <;> decide
    · cases h
  · cases h

/-- **A write makes sound calls only.** -/
theorem WriteCall.sound {slots : Slots} {source : Source} {n : Known} {op : BpfOp}
    (hs : slots.Clean) (hw : source.Writes w) (h : WriteCall slots source n op) :
    Sound (some (.write w source.foundSize slots.event)) op := by
  cases op with
  | lookupRequest k => exact Option.some_ne_none _
  | truncateRequest k =>
    obtain ⟨_, -, h⟩ := h
    exact h
  | updateRequest k r =>
    obtain ⟨found, hf, -, hstored⟩ := h
    have hshows := find_shows hw hf
    refine ⟨_, rfl, ?_, fun hne hlooks => ?_⟩
    · rw [hstored.payloadSize]
      exact hshows.copied hstored.payload hs.request
    · obtain ⟨_, _, hd⟩ := hstored.decided
      rcases hd.stream hne with hcas | hdns
      · exact isCassandraRequest_bytes hshows.2 hcas hlooks.2
      · exact hlooks.1 (isDnsRequest_bytes hshows.2 hdns)
  | sendL7 e =>
    obtain ⟨found, hf, -, -, hsent⟩ := h
    intro s hs'
    cases hs'
    show e.requestPayload <+: w ↔ Cause.Shows w (if e.method = .produce then _ else _)
    cases hsent with
    | published hmethod _ hsize hpayload =>
      -- nothing is copied into the event of a message that is published
      rw [if_pos hmethod, requestPayload_eq, hsize, hpayload, ← requestPayload_eq]
      exact Iff.rfl
    | copied hmethod _ hsize hpayload =>
      have hcopied := (find_shows hw hf).copied hpayload hs.event
      rw [← hsize] at hcopied
      rw [if_neg hmethod, copied_shown_iff hcopied, hsize, find_size hf]
      exact Iff.rfl
  | _ => trivial

/-! ## The end of a read -/

theorem signed_big_eq_one {a b : UInt8} (h : signed 16 (big [a, b]) = 1) : a = 0 := by
  have ha := a.toNat_lt
  have hb := b.toNat_lt
  simp only [signed, big, List.reverse_cons, List.reverse_nil, List.nil_append, List.cons_append,
    little, List.foldr_cons, List.foldr_nil] at h
  have : a.toNat = 0 := by split at h <;> omega
  exact UInt8.toNat_inj.mp this

theorem isDnsResponse_bytes {payload : Memory} (h : isDnsResponse payload size = some answer) :
    6 ≤ size ∧ ∃ header, probeRead payload 0 6 = some header ∧ LooksLikeResponse header := by
  simp only [isDnsResponse, bpfRead] at h
  split at h
  · cases h
  rename_i hsize
  split at h
  · rename_i header hr
    refine ⟨by omega, header, hr, ?_⟩
    have hlen := (probeRead_eq_some.mp hr).1
    split at h
    · cases h
    rename_i hbit
    split at h
    · cases h
    split at h
    · cases h
    rename_i hcount
    refine ⟨hbit, ?_⟩
    obtain ⟨a, b, hab⟩ := List.length_eq_two.mp (show (header.drop 4).length = 2 by
      rw [List.length_drop]; omega)
    have h4 : header[4]? = some a := by
      have : (header.drop 4)[0]? = header[4 + 0]? := List.getElem?_drop
      rw [hab] at this
      exact this.symm
    rw [hab] at hcount
    simp only [byte, List.getD_eq_getElem?_getD, h4, Option.getD_some]
    exact signed_big_eq_one (not_not.mp hcount)
  · cases h

theorem LooksLikeResponse.of_get {v w : Bytes} (h : LooksLikeResponse v)
    (hget : ∀ i, i < 6 → w[i]? = v[i]?) : LooksLikeResponse w :=
  ⟨byte_eq_of_get (hget 2 (by omega)) ▸ h.1, byte_eq_of_get (hget 4 (by omega)) ▸ h.2⟩

theorem exact_of_response {payload : Memory} {b : Buffer}
    (h : isDnsResponse payload e.payloadSize = some answer)
    (he : Filled payload e.payloadSize b e.payload) (hw : ¬ LooksLikeResponse w) :
    Exact e .resolved w := by
  obtain ⟨bytes, hr, he⟩ := he
  obtain ⟨hsize, header, hheader, hlooks⟩ := isDnsResponse_bytes h
  obtain ⟨hlen, hget⟩ := probeRead_eq_some.mp hr
  obtain ⟨_, hget'⟩ := probeRead_eq_some.mp hheader
  have hsix : 6 ≤ truncatePayloadSize e.payloadSize := by
    simp only [truncatePayloadSize, maxPayloadSize]; omega
  -- what the agent sees starts with the header
  have hshown : ∀ i, i < 6 → e.requestPayload[i]? = header[i]? := by
    intro i hi
    rw [requestPayload_eq, he, getElem?_fill_first (by omega)
      (by simp only [maxPayloadSize]; omega) (by omega), ← hget i (by omega), hget' i hi]
  have hcarries : LooksLikeResponse e.requestPayload := hlooks.of_get hshown
  refine ⟨fun hp => absurd ?_ hw, False.elim⟩
  obtain ⟨rest, rfl⟩ := hp
  refine hcarries.of_get fun i hi => List.getElem?_append_left ?_
  rw [requestPayload_eq, length_first]
  simp only [maxPayloadSize]
  omega

/-- What is noted agrees with what a read knows. -/
structure Tells (n : Known) (t : Trace) : Prop where
  good : t.Good
  fresh : n.got = none → t.current = none
  missed : n.got = none → ∀ k, n.missed = some k → t.maps.requests k = none
  about : ∀ k req, n.got = some (k, req) → ∃ w,
    t.current = some (.request w req.payloadSize n.copied) ∧ Entry w k req ∧
      (n.missed ≠ none → k.streamId ≠ -1)

section

variable {slots : Slots} {n : Known}

theorem Told.sound (h : Told slots.event.payload n e) (hs : slots.Clean) (ht : Tells n t) :
    Sound t.current (.sendL7 e) := by
  intro s hcur
  cases h with
  | consumed hgot | frames hgot =>
    rw [ht.fresh hgot] at hcur
    cases hcur
  | resolved hgot hmissed hcopied _ _ _ hdns hpayload =>
    obtain ⟨w, hc, hentry, hstream⟩ := ht.about _ _ hgot
    rw [hc, hcopied] at hcur
    cases hcur
    exact exact_of_response hdns hpayload (hentry.stream (hstream hmissed))
  | @answered k req _ hgot hcopied _ _ htells =>
    obtain ⟨w, hc, hentry, -⟩ := ht.about k req hgot
    rw [hc, hcopied] at hcur
    cases hcur
    have hcopy : Copied w e.payloadSize e.payload := by
      rw [htells.payloadSize, htells.payload]
      exact hentry.copied.again hs.event
    show e.requestPayload <+: w ↔ _
    rw [copied_shown_iff hcopy, htells.payloadSize]
    exact Iff.rfl

theorem Tells.lookup (ht : Tells n t) {k : L7RequestKey} (hgot : n.got = none)
    (hk : ∀ k', n.missed = some k' → k' = { k with streamId := -1 }) (c : Nat) :
    Tells (n.tell (.lookupRequest k) (t.maps.requests k)) (traceStep c (.lookupRequest k) t).2 := by
  have hcur : (traceStep c (.lookupRequest k) t).2.current =
      (t.maps.requests k).map (fun r => .request (t.origin k) r.payloadSize false) := by
    simp only [traceStep, Trace.note, ht.fresh hgot, Option.none_or]
  cases hr : t.maps.requests k with
  | none =>
    rw [hr] at hcur
    refine ⟨⟨ht.good.entries, ht.good.shown⟩, fun _ => hcur, fun _ k' hk' => ?_, nofun⟩
    cases hk'
    exact hr
  | some req =>
    rw [hr] at hcur
    refine ⟨⟨ht.good.entries, ht.good.shown⟩, nofun, nofun, fun k' req' h => ?_⟩
    cases h
    refine ⟨t.origin k, hcur, ht.good.entries k req hr, fun hmissed hstream => ?_⟩
    -- the key without a stream id was not there a moment ago
    obtain ⟨k', hk'⟩ := Option.ne_none_iff_exists'.mp hmissed
    have hnone := ht.missed hgot k' hk'
    rw [hk k' hk', show ({ k with streamId := -1 } : L7RequestKey) = k by rw [← hstream], hr]
      at hnone
    cases hnone

/-- **The calls of a read keep what is noted.** -/
theorem ReadCall.tells {isTls : Bool} {op : BpfOp} (h : ReadCall slots isTls n op)
    (hs : slots.Clean) (ht : Tells n t) (c : Nat) :
    Tells (n.tell op (traceStep c op t).1) (traceStep c op t).2 := by
  cases op with
  | lookupRequest k => exact ht.lookup h.1 h.2.2.2.2 c
  | truncateRequest k =>
    obtain ⟨req, hgot⟩ := h
    obtain ⟨w, hc, hentry⟩ := ht.about k req hgot
    have hsome : n.got ≠ none := hgot ▸ Option.some_ne_none _
    refine ⟨good_truncate ht.good c k, (absurd · hsome), (absurd · hsome), fun k' req' hgot' => ?_⟩
    cases hgot.symm.trans hgot'
    exact ⟨w, by simp only [traceStep, Trace.note, hc, Option.map_some, Subject.copy, Known.tell],
      hentry⟩
  | markPartial k =>
    obtain ⟨req, hgot⟩ := h
    have hsome : n.got ≠ none := hgot ▸ Option.some_ne_none _
    exact ⟨(good_step ht.good c (.markPartial k) trivial).1, ht.fresh, (absurd · hsome), ht.about⟩
  | deleteRequest k =>
    obtain ⟨req, hgot⟩ := h
    have hsome : n.got ≠ none := hgot ▸ Option.some_ne_none _
    exact ⟨(good_step ht.good c (.deleteRequest k) trivial).1, ht.fresh, (absurd · hsome), ht.about⟩
  | sendL7 e =>
    obtain ⟨hgood, hcur⟩ := good_step ht.good c _ (h.2.sound hs ht)
    exact ⟨hgood, fun hgot => hcur.trans (ht.fresh hgot), ht.missed,
      fun k req hgot => hcur ▸ ht.about k req hgot⟩
  | lookupRead | deleteRead | lookupConnection | addReceived | ktime =>
    exact ⟨⟨ht.good.entries, ht.good.shown⟩, ht.fresh, ht.missed, ht.about⟩
  | _ => exact h.elim

end

end Ebpf
