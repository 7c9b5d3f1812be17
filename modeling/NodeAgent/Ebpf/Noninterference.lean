import NodeAgent.Ebpf.Calls

/-!
# What an event owes to the slots of the CPU

The event and request slots of a CPU keep what earlier calls left in them. A handler is run twice,
from slots with different contents, and its events are compared on the fields that tell the agent
what happened: protocol, method, status and statement id.

* `traceExitRead_agree` — the end of a read sets all four fields
* `writes_event_iff` — a write puts out an event for a published message, a statement that is closed
  and frames of HTTP/2
* `fields_agree_iff` — the fields depend on the slots exactly in those cases
-/

namespace Ebpf

open Infra Prog

def L7Event.fields (e : L7Event) : Protocol × Method × Int × Nat :=
  (e.protocol, e.method, e.status, e.statementId)

/-! ## Programs that agree -/

/-- Both programs make the same calls, but for events that may differ in other fields. -/
inductive Agree {α : Type} : BpfProg α → BpfProg α → Prop
  | ret (a b : α) : Agree (.ret a) (.ret b)
  | same (op : BpfOp) {k k' : op.Reply → BpfProg α} (h : ∀ r, Agree (k r) (k' r)) :
      Agree (.call op k) (.call op k')
  | send {e e' : L7Event} {k k' : Unit → BpfProg α} (he : e.fields = e'.fields)
      (h : ∀ r, Agree (k r) (k' r)) : Agree (.call (.sendL7 e) k) (.call (.sendL7 e') k')

def Alike (m m' : Maps) : Prop :=
  ∃ events, m' = { m with l7Events := events } ∧
    events.map L7Event.fields = m.l7Events.map L7Event.fields

theorem alike_step {m m' : Maps} (h : Alike m m') (c : Nat) (op : BpfOp) :
    (bpfStep c op m').1 = (bpfStep c op m).1 ∧ Alike (bpfStep c op m).2 (bpfStep c op m').2 := by
  obtain ⟨events, rfl, he⟩ := h
  cases op with
  | sendL7 e => exact ⟨rfl, e :: events, rfl, by simp only [bpfStep, List.map_cons, he]⟩
  | _ => exact ⟨rfl, events, rfl, he⟩

theorem alike_send {m m' : Maps} (h : Alike m m') (c : Nat) {e e' : L7Event}
    (hf : e.fields = e'.fields) :
    Alike (bpfStep c (.sendL7 e) m).2 (bpfStep c (.sendL7 e') m').2 := by
  obtain ⟨events, rfl, he⟩ := h
  exact ⟨e' :: events, rfl, by simp only [bpfStep, List.map_cons, he, hf]⟩

/-- **Programs that agree lead to maps that are alike.** -/
theorem Agree.exec {α : Type} {p q : BpfProg α} (h : Agree p q) :
    ∀ (cs : List Nat) {m m' : Maps}, Alike m m' →
      Alike (exec bpfStep p cs m).state (exec bpfStep q cs m').state := by
  induction h with
  | ret a b => exact fun _ _ _ hm => hm
  | same op h ih =>
    intro cs m m' hm
    cases cs with
    | nil => exact hm
    | cons c cs =>
      obtain ⟨hr, hm'⟩ := alike_step hm c op
      simp only [Prog.exec]
      rw [hr]
      exact ih _ cs hm'
  | send he h ih =>
    intro cs m m' hm
    cases cs with
    | nil => exact hm
    | cons c cs => exact ih () cs (alike_send hm c he)

theorem Agree.refl {α : Type} (p : BpfProg α) : Agree p p := by
  induction p with
  | ret a => exact .ret a a
  | call op k ih => exact .same op ih

theorem Agree.bind {α β : Type} {p q : BpfProg α} {f g : α → BpfProg β} (h : Agree p q)
    (hf : ∀ a b, Agree (f a) (g b)) : Agree (p >>= f) (q >>= g) := by
  induction h with
  | ret a b => exact hf a b
  | same op _ ih => exact .same op ih
  | send he _ ih => exact .send he ih

theorem Agree.step {α : Type} (op : BpfOp) {f g : op.Reply → BpfProg α}
    (h : ∀ r, Agree (f r) (g r)) : Agree (Bpf.call op >>= f) (Bpf.call op >>= g) :=
  .same op h

/-! ## The end of a read -/

section

variable {slots slots' : Slots} {e e' : L7Event} {cid : ConnectionId} {conn : Connection}
  {k : L7RequestKey} {payload : Memory} {ret totalSize : Nat}

theorem sendEvent_agree (h : e.fields = e'.fields) :
    Agree (sendEvent slots e cid conn) (sendEvent slots' e' cid conn) :=
  .send (by simpa [L7Event.fields] using h) (fun _ => .ret _ _)

theorem sendPayload_agree (h : e.fields = e'.fields) (size : Nat) :
    Agree (sendPayload slots e payload size cid conn)
      (sendPayload slots' e' payload size cid conn) := by
  unfold sendPayload
  cases probeRead payload 0 (truncatePayloadSize size) with
  | none => exact .ret _ _
  | some bytes => exact sendEvent_agree (by simpa [L7Event.fields] using h)

theorem handleResponse_agree (h : e.fields = e'.fields) (req : L7Request) (found : Nat) :
    Agree (handleResponse slots e cid conn k req payload ret totalSize found)
      (handleResponse slots' e' cid conn k req payload ret totalSize found) := by
  obtain ⟨_, hmethod, hstatus, hid⟩ : e.protocol = e'.protocol ∧ e.method = e'.method ∧
      e.status = e'.status ∧ e.statementId = e'.statementId := by
    simpa [L7Event.fields] using h
  refine .step (.truncateRequest k) fun _ => ?_
  simp only
  split
  · split
    · exact .step (.markPartial k) fun _ => .ret _ _
    · exact .ret _ _
  · refine .step (.deleteRequest k) fun _ => ?_
    split
    · exact .ret _ _
    · refine .step .ktime fun now => sendEvent_agree ?_
      simp only [L7Event.fields, hmethod, hstatus, hid]

theorem handleUnmatched_agree (h : e.fields = e'.fields) :
    Agree (handleUnmatched slots e cid conn k payload ret totalSize)
      (handleUnmatched slots' e' cid conn k payload ret totalSize) := by
  obtain ⟨hproto, hmethod, hstatus, hid⟩ : e.protocol = e'.protocol ∧ e.method = e'.method ∧
      e.status = e'.status ∧ e.statementId = e'.statementId := by
    simpa [L7Event.fields] using h
  unfold handleUnmatched
  cases isDnsResponse payload ret with
  | some id =>
    obtain ⟨streamId, status⟩ := id
    refine .step (.lookupRequest _) fun req => ?_
    cases req with
    | none => exact .ret _ _
    | some req =>
      refine .step .ktime fun now => Agree.bind (sendPayload_agree ?_ ret) fun a b => ?_
      · simp only [L7Event.fields, hmethod, hid]
      · cases probeRead payload 0 (truncatePayloadSize ret) with
        | none => exact .ret _ _
        | some _ => exact .step (.deleteRequest _) fun _ => .ret _ _
  | none =>
    simp only
    cases isCassandraResponse payload ret with
    | some id =>
      obtain ⟨streamId, status⟩ := id
      refine .step (.lookupRequest _) fun req => ?_
      cases req with
      | none => exact .ret _ _
      | some req =>
        refine handleResponse_agree ?_ req 1
        simp only [L7Event.fields, hproto, hmethod, hid]
    | none =>
      simp only
      split
      · refine .step .ktime fun now => sendPayload_agree ?_ ret
        simp only [L7Event.fields, hstatus, hid]
      · exact .ret _ _

theorem handleRead_agree (isTls : Bool) :
    Agree (handleRead slots cid conn isTls payload ret totalSize)
      (handleRead slots' cid conn isTls payload ret totalSize) := by
  unfold handleRead
  simp only
  split
  · exact sendEvent_agree (by rfl)
  split
  · exact sendEvent_agree (by rfl)
  refine .step (.lookupRequest _) fun req => ?_
  cases req with
  | some req => exact handleResponse_agree (by rfl) req 0
  | none => exact handleUnmatched_agree (by rfl)

theorem countRead_agree (isTls : Bool) (found : Found) :
    Agree (countRead slots cid conn isTls found) (countRead slots' cid conn isTls found) := by
  unfold countRead
  simp only
  split
  · exact .ret _ _
  split
  · exact handleRead_agree isTls
  · exact .step (.addReceived _ _) fun _ => handleRead_agree isTls

theorem traceExitRead_agree (h : slots.iovec = slots'.iovec) (user : UserMemory) (id pid : Nat)
    (isTls : Bool) (ret : Int) :
    Agree (traceExitRead slots user id pid isTls ret)
      (traceExitRead slots' user id pid isTls ret) := by
  refine .step (.lookupRead id) fun args => ?_
  cases args with
  | none => exact .ret _ _
  | some args =>
    refine .step (.lookupConnection _) fun conn => .step (.deleteRead id) fun _ => ?_
    cases conn with
    | none => exact .ret _ _
    | some conn =>
      simp only
      cases readResult user args ret with
      | none => exact .ret _ _
      | some ret =>
        simp only [h]
        cases user.find args ret slots'.iovec with
        | none => exact .ret _ _
        | some found => exact countRead_agree isTls found

end

/-! ## The start of a write -/

/-- A call that is no L7 event, or one of these. -/
def EventsIn (P : L7Event → Prop) : BpfOp → Prop
  | .sendL7 e => P e
  | _ => True

theorem traceEnterWrite_stale (slots : Slots) (pid fd : Nat) (isTls : Bool) (source : Source) :
    (traceEnterWrite slots pid fd isTls source).Uses
      (EventsIn fun e => e.status = slots.event.status) := by
  refine (traceEnterWrite_calls slots pid fd isTls source).uses fun n op h => ?_
  cases op with
  | sendL7 e =>
    obtain ⟨_, -, -, hstatus, -⟩ := h
    exact hstatus
  | _ => trivial

theorem events_of_uses {α : Type} {p : BpfProg α} {P : L7Event → Prop} (hp : p.Uses (EventsIn P))
    (clocks : List Nat) {m : Maps} (hm : m.l7Events = []) :
    ∀ e ∈ (exec bpfStep p clocks m).state.l7Events, P e := by
  have hstep : ∀ c op (s : Maps), EventsIn P op → True → (∀ e ∈ s.l7Events, P e) →
      ∀ e ∈ (bpfStep c op s).2.l7Events, P e := by
    intro c op s hop _ hs
    cases op with
    | sendL7 e => exact List.forall_mem_cons.mpr ⟨hop, hs⟩
    | _ => exact hs
  have hwp := wp_of_uses (R := fun _ _ _ => True) (I := fun s : Maps => ∀ e ∈ s.l7Events, P e)
    hstep hp (s := m) (by simp [hm])
  exact wp_exec_state hwp (along_true _ _ _) (fun _ _ h => h) (fun _ h => h)

/-- The calls that a write makes for its event after the bytes are counted, if it puts one out. The
event of a published message has no payload. -/
def Decision.eventCalls (payload : Memory) (size : Nat) : Decision → Option Nat
  | .produce _ _ => some 1
  | .closeStatement _ _ => (probeRead payload 0 (truncatePayloadSize size)).map fun _ => 1
  | .http2Frames _ => (probeRead payload 0 (truncatePayloadSize size)).map fun _ => 2
  | .unknown _ | .request .. => none

/-- Some number of calls, which do not need more clocks than there are. -/
def Within (clocks : List Nat) (calls : Option Nat) : Prop := ∃ n ∈ calls, n ≤ clocks.length

section

variable {slots : Slots} {e : L7Event} {cid : ConnectionId} {conn : Connection} {isTls : Bool}
  {payload : Memory} {size totalSize : Nat} {m : Maps}

theorem sendEvent_emits (clocks : List Nat) (hm : m.l7Events = []) :
    (exec bpfStep (sendEvent slots e cid conn) clocks m).state.l7Events ≠ [] ↔
      Within clocks (some 1) := by
  cases clocks with
  | nil => exact iff_of_false (fun h => h hm) (by simp [Within])
  | cons c cs => exact iff_of_true (List.cons_ne_nil _ _) ⟨1, rfl, by simp⟩

theorem sendPayload_emits (clocks : List Nat) (hm : m.l7Events = []) :
    (exec bpfStep (sendPayload slots e payload size cid conn) clocks m).state.l7Events ≠ [] ↔
      Within clocks ((probeRead payload 0 (truncatePayloadSize size)).map fun _ => 1) := by
  unfold sendPayload
  cases probeRead payload 0 (truncatePayloadSize size) with
  | none => exact iff_of_false (fun h => h hm) fun ⟨_, h, _⟩ => nomatch h
  | some bytes => exact sendEvent_emits clocks hm

theorem within_succ {calls calls' : Option Nat} (h : calls' = calls.map (· + 1)) (c : Nat)
    (cs : List Nat) : Within (c :: cs) calls' ↔ Within cs calls := by
  subst h
  simp [Within]

theorem storeRequest_silent (req : L7Request) (k : L7RequestKey) :
    (storeRequest slots req k payload size).Uses (EventsIn fun _ => False) := by
  have hs : Leaves { slots with request := req } { slots with request := req } .nothing :=
    fun h => h
  exact (storeRequest_obeys (A := fun _ => EventsIn fun _ => False) hs trivial
    (fun _ _ => trivial) fun _ _ _ _ _ _ => trivial).uses fun _ _ h => h

theorem handleWrite_emits (clocks : List Nat) (hm : m.l7Events = []) :
    (exec bpfStep (handleWrite slots cid conn isTls payload size totalSize) clocks
        m).state.l7Events ≠ [] ↔
      Within clocks ((classifyWrite slots.request.requestType payload size
        totalSize).eventCalls payload size) := by
  unfold handleWrite
  simp only
  cases classifyWrite slots.request.requestType payload size totalSize with
  | unknown requestType => exact iff_of_false (fun h => h hm) fun ⟨_, h, _⟩ => nomatch h
  | closeStatement protocol requestType => exact sendPayload_emits clocks hm
  | produce protocol requestType => exact sendEvent_emits clocks hm
  | http2Frames requestType =>
    cases clocks with
    | nil => exact iff_of_false (fun h => h hm) (by simp [Within, Decision.eventCalls])
    | cons c cs =>
      refine (sendPayload_emits cs hm).trans (within_succ ?_ c cs).symm
      simp [Decision.eventCalls, Function.comp_def]
  | request protocol requestType requestId streamId =>
    refine iff_of_false (fun h => ?_) fun ⟨_, h, _⟩ => nomatch h
    -- a request that is stored puts out nothing
    obtain ⟨e, he⟩ := List.exists_mem_of_ne_nil _ h
    exact events_of_uses (P := fun _ => False) (storeRequest_silent _ _) clocks hm e he

theorem countWrite_emits (found : Found) (clocks : List Nat) (hm : m.l7Events = []) :
    (exec bpfStep (countWrite slots cid conn isTls found) clocks m).state.l7Events ≠ [] ↔
      found.size ≠ 0 ∧ Within clocks (((classifyWrite slots.request.requestType found.payload
        found.size found.totalSize).eventCalls found.payload found.size).map
          (if isTls then id else (· + 1))) := by
  unfold countWrite
  simp only
  by_cases hsize : found.size = 0
  · rw [if_pos hsize]
    exact iff_of_false (fun h => h hm) fun h => h.1 hsize
  rw [if_neg hsize, and_iff_right hsize]
  cases isTls with
  | true =>
    rw [if_pos rfl, if_pos rfl, Option.map_id]
    exact handleWrite_emits clocks hm
  | false =>
    rw [if_neg Bool.false_ne_true, if_neg Bool.false_ne_true]
    cases clocks with
    | nil => exact iff_of_false (fun h => h hm) (by simp [Within])
    | cons c cs =>
      exact (handleWrite_emits cs (by exact hm)).trans (within_succ (by rfl) c cs).symm

end

/-! ## The events of a handler -/

/-- The fields of the events that a handler puts out. -/
def Handler.emitted (h : Handler) (slots : Slots) (clocks : List Nat) (m : Maps) :
    List (Protocol × Method × Int × Nat) :=
  (exec bpfStep (h.prog slots) clocks { m with l7Events := [] }).state.l7Events.map L7Event.fields

/-- The handler is a write on a known connection, and what it writes is a message that an event is
put out for. `requestType` is what an earlier request left in the slot. -/
def Handler.WritesEvent (iovec : Memory) (clocks : List Nat) (m : Maps) (requestType : UInt8) :
    Handler → Prop
  | .enterWrite pid fd isTls source =>
    (m.connections ⟨fd, pid⟩).isSome ∧ ∃ found, source.find iovec = some found ∧ found.size ≠ 0 ∧
      Within clocks (((classifyWrite requestType found.payload found.size
        found.totalSize).eventCalls found.payload found.size).map
          (· + if isTls then 1 else 2))
  | _ => False

/-- **Which writes put out an event, by what they write.** -/
theorem writes_event_iff (pid fd : Nat) (isTls : Bool) (source : Source) (slots : Slots)
    (clocks : List Nat) (m : Maps) :
    (Handler.enterWrite pid fd isTls source).emitted slots clocks m ≠ [] ↔
      (Handler.enterWrite pid fd isTls source).WritesEvent slots.iovec clocks m
        slots.request.requestType := by
  rw [Handler.emitted, ne_eq, List.map_eq_nil_iff, Handler.WritesEvent]
  cases clocks with
  | nil => exact iff_of_false (fun h => h rfl) (by cases isTls <;> simp [Within])
  | cons c cs =>
    show (exec bpfStep (.call (.lookupConnection ⟨fd, pid⟩) _) (c :: cs)
      { m with l7Events := [] }).state.l7Events ≠ [] ↔ _
    simp only [exec, bpfStep]
    cases m.connections ⟨fd, pid⟩ with
    | none => exact iff_of_false (fun h => h rfl) (by simp)
    | some conn =>
      cases source.find slots.iovec with
      | none => exact iff_of_false (fun h => h rfl) (by simp)
      | some found =>
        simp only [Option.isSome_some, true_and, Option.some.injEq, exists_eq_left']
        refine (countWrite_emits found cs rfl).trans (and_congr_right fun _ => ?_)
        refine (within_succ ?_ c cs).symm
        cases isTls <;> simp [Function.comp_def, Nat.add_assoc]

theorem handler_agree {h : Handler}
    (hw : ∀ pid fd isTls source, h ≠ .enterWrite pid fd isTls source) {slots slots' : Slots}
    (hi : slots.iovec = slots'.iovec) : Agree (h.prog slots) (h.prog slots') := by
  cases h with
  | enterWrite pid fd isTls source => exact absurd rfl (hw pid fd isTls source)
  | exitRead user id pid isTls result => exact traceExitRead_agree hi user id pid isTls result
  | enterRead | enterConnect | exitConnect | setState | enterClose =>
    exact Agree.bind (Agree.refl _) fun _ _ => .ret _ _

theorem emitted_eq_of_agree {h : Handler} {slots slots' : Slots}
    (hp : Agree (h.prog slots) (h.prog slots')) (clocks : List Nat) (m : Maps) :
    h.emitted slots clocks m = h.emitted slots' clocks m := by
  have hm : Alike { m with l7Events := [] } { m with l7Events := [] } := ⟨[], rfl, rfl⟩
  obtain ⟨events, hs, hf⟩ := hp.exec clocks hm
  simp only [Handler.emitted, hs, hf]

theorem write_status (pid fd : Nat) (isTls : Bool) (source : Source) (slots : Slots)
    (clocks : List Nat) (m : Maps) :
    ∀ f ∈ (Handler.enterWrite pid fd isTls source).emitted slots clocks m,
      f.2.2.1 = slots.event.status := by
  intro f hf
  obtain ⟨e, he, rfl⟩ := List.mem_map.mp hf
  exact events_of_uses (traceEnterWrite_stale slots pid fd isTls source) clocks (by rfl) e he

/-- **The fields of the events do not depend on the event and request slots, except for a write of
a message that an event is put out for.** -/
theorem fields_agree_iff (h : Handler) (clocks : List Nat) (m : Maps) (iovec : Memory) :
    (∀ event request event' request', h.emitted ⟨event, request, iovec⟩ clocks m =
        h.emitted ⟨event', request', iovec⟩ clocks m) ↔
      ∀ requestType, ¬ h.WritesEvent iovec clocks m requestType := by
  by_cases hwrite : ∃ pid fd isTls source, h = .enterWrite pid fd isTls source
  · obtain ⟨pid, fd, isTls, source, rfl⟩ := hwrite
    constructor
    · intro hagree requestType hwrites
      let request := { Slots.zero.request with requestType }
      obtain ⟨f, hf⟩ := List.exists_mem_of_ne_nil _
        ((writes_event_iff pid fd isTls source ⟨Slots.zero.event, request, iovec⟩ clocks
          m).mpr hwrites)
      -- the same event, from a slot with another status
      let event := { Slots.zero.event with status := Slots.zero.event.status + 1 }
      have h1 := write_status pid fd isTls source _ clocks m f hf
      rw [hagree Slots.zero.event request event request] at hf
      have h2 := write_status pid fd isTls source _ clocks m f hf
      simp only [event] at h1 h2
      omega
    · intro hnone event request event' request'
      have hempty : ∀ slots : Slots, slots.iovec = iovec →
          (Handler.enterWrite pid fd isTls source).emitted slots clocks m = [] := by
        rintro slots rfl
        by_contra hne
        exact hnone _ ((writes_event_iff pid fd isTls source slots clocks m).mp hne)
      rw [hempty _ rfl, hempty _ rfl]
  · refine iff_of_true (fun event request event' request' => ?_) fun requestType hwrites => ?_
    · exact emitted_eq_of_agree (handler_agree (fun pid fd isTls source heq =>
        hwrite ⟨pid, fd, isTls, source, heq⟩) (by rfl)) clocks m
    · cases h with
      | enterWrite pid fd isTls source => exact hwrite ⟨pid, fd, isTls, source, rfl⟩
      | _ => exact hwrites

/-- The event slot as a call with this status and statement id left it. -/
def Slots.after (status : Int) (statementId : Nat) : Slots :=
  { Slots.zero with event := { Slots.zero.event with status, statementId } }

def natsPublish : Handler :=
  .enterWrite 7 3 false (.plain (.ofBytes (ascii "PUB greet 2\r\nhi\r\n")) 17)

/-- The event of a published message has the status and statement id of another call. -/
theorem publish_keeps_status :
    let m := Maps.empty.connect ⟨3, 7⟩ ⟨1, 0, 0⟩
    natsPublish.emitted (.after 200 0) [5, 6, 7] m = [(.nats, .produce, 200, 0)] ∧
      natsPublish.emitted (.after 500 9) [5, 6, 7] m = [(.nats, .produce, 500, 9)] := by
  decide +kernel

end Ebpf
