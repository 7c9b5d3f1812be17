import NodeAgent.Ebpf.Provenance

/-!
# From a write to the agent

A request that is recorded from one buffer, and the event of the read that finds it. Both copies are
cut to `MAX_PAYLOAD_SIZE - 1` bytes, and the size that goes with them is the one of the write. No
handler writes the last byte of a buffer, so the agent sees a zero there.

* `requestPayload_shown` — what the agent sees
-/

namespace Ebpf

open Infra Prog

/-- The bytes were written from one buffer, and the request was recorded for them. -/
def RecordedFrom (w : Bytes) (k : L7RequestKey) (req : L7Request) : Prop :=
  ∃ (slots : Slots) (pid fd : Nat) (isTls : Bool) (buf : Memory) (env : Nat → Nat) (m : Maps),
    slots.Clean ∧ (Source.plain buf w.length).Writes w ∧ m.requests k = none ∧
    (play bpfStep (traceEnterWrite slots pid fd isTls (.plain buf w.length)) env m).2.requests k =
      some req

/-- A read on the connection has found the request, and has sent the event. -/
def ReportedBy (k : L7RequestKey) (req : L7Request) (e : L7Event) : Prop :=
  ∃ (slots : Slots) (user : UserMemory) (id pid : Nat) (isTls : Bool) (ret : Int)
    (env : Nat → Nat) (m : Maps) (args : ReadArgs),
    slots.Clean ∧ m.reads id = some args ∧ k = ⟨args.fd, pid, isTls, -1⟩ ∧
    m.requests k = some req ∧
    (play bpfStep (traceExitRead slots user id pid isTls ret) env m).2.l7Events = e :: m.l7Events

/-! ## The write -/

/-- The request holds what fits of the written bytes, and their number. -/
def HoldsAll (w : Bytes) (req : L7Request) : Prop :=
  req.payloadSize = w.length ∧ Copied w w.length req.payload

def Records (w : Bytes) : BpfOp → Prop
  | .updateRequest _ req => HoldsAll w req
  | .truncateRequest _ => False
  | .markPartial _ => False
  | _ => True

theorem WriteCall.records {slots : Slots} {buf : Memory} {w : Bytes} {n : Known} {op : BpfOp}
    (hs : slots.Clean) (hw : (Source.plain buf w.length).Writes w)
    (h : WriteCall slots (.plain buf w.length) n op) : Records w op := by
  cases op with
  | updateRequest k req =>
    obtain ⟨found, hf, -, hstored⟩ := h
    have hshows := find_shows hw hf
    cases hf
    exact ⟨hstored.payloadSize, hshows.copied hstored.payload hs.request⟩
  | truncateRequest | markPartial =>
    obtain ⟨_, -, h⟩ := h
    exact h
  | _ => trivial

theorem records_step {w : Bytes} {k : L7RequestKey} (c : Nat) (op : BpfOp) (m : Maps)
    (hop : Records w op) (h : ∀ req, m.requests k = some req → HoldsAll w req) :
    ∀ req, (bpfStep c op m).2.requests k = some req → HoldsAll w req := by
  cases op with
  | updateRequest k' req' =>
    intro req hreq
    by_cases hk : k = k'
    · subst hk
      simp only [bpfStep, Function.update_self] at hreq
      rcases Option.or_eq_some_iff.mp hreq with hold | ⟨_, hnew⟩
      · exact h req hold
      · cases hnew
        exact hop
    · simp only [bpfStep, Function.update_of_ne hk] at hreq
      exact h req hreq
  | deleteRequest k' =>
    exact fun req hreq => h req (of_update_none hreq).2
  | truncateRequest | markPartial => exact hop.elim
  | _ => exact h

/-- **The request holds what fits of the written bytes, with their number.** -/
theorem recorded_copied {w : Bytes} {k : L7RequestKey} {req : L7Request}
    (h : RecordedFrom w k req) : HoldsAll w req := by
  obtain ⟨slots, pid, fd, isTls, buf, env, m, hs, hw, hnone, hsome⟩ := h
  have hkeeps := wp_of_uses (R := fun _ _ _ => True)
    (I := fun m : Maps => ∀ req, m.requests k = some req → HoldsAll w req)
    (fun c op m hop _ h => records_step c op m hop h)
    ((traceEnterWrite_calls slots pid fd isTls _).uses fun _ _ => WriteCall.records hs hw) (s := m)
    (fun req hreq => by rw [hnone] at hreq; cases hreq)
  exact wp_play env hkeeps (fun _ _ _ => trivial) req hsome

/-! ## The read -/

/-- An event of Postgres or MySQL is about the request. -/
def About (req : L7Request) (e : L7Event) : Prop :=
  e.protocol = .postgres ∨ e.protocol = .mysql →
    e.payloadSize = req.payloadSize ∧ ∃ b : Buffer, b Buffer.last = 0 ∧
      e.payload = b.fill (req.payload.first (truncatePayloadSize req.payloadSize))

/-- The events that were sent since are about the request. -/
def Since (req : L7Request) (sent : List L7Event) (m : Maps) : Prop :=
  ∃ new, m.l7Events = new ++ sent ∧ ∀ e ∈ new, About req e

def Sends (req : L7Request) : BpfOp → Prop
  | .sendL7 e => About req e
  | _ => True

section

variable {slots : Slots} {e : L7Event} {cid : ConnectionId} {conn : Connection} {payload : Memory}
  {ret totalSize : Nat} {k : L7RequestKey} {req : L7Request} {m : Maps} {sent : List L7Event}

theorem since_step (c : Nat) (op : BpfOp) (m : Maps) (hop : Sends req op) (h : Since req sent m) :
    Since req sent (bpfStep c op m).2 := by
  cases op with
  | sendL7 e =>
    obtain ⟨new, hnew, habout⟩ := h
    refine ⟨e :: new, ?_, List.forall_mem_cons.mpr ⟨hop, habout⟩⟩
    show e :: m.l7Events = _
    rw [hnew]
    rfl
  | _ => exact h

theorem wp_sends {p : BpfProg Slots} (hp : p.Uses (Sends req)) (h : Since req sent m) :
    wp bpfStep (fun _ _ _ => True) p (fun _ => Since req sent) (fun _ => True) m :=
  wp_mono (fun _ _ h => h) (fun _ _ => trivial)
    (wp_of_uses (fun c op m hop _ h => since_step c op m hop h) hp h)

theorem handleResponse_sends (hs : slots.Clean) (he : e.payload = slots.event.payload)
    (found : Nat) (hm : Since req sent m) :
    wp bpfStep (fun _ _ _ => True)
      (handleResponse slots e cid conn k req payload ret totalSize found)
      (fun _ => Since req sent) (fun _ => True) m := by
  have hcalls : (handleResponse slots e cid conn k req payload ret totalSize found).Obeys Known.tell
      (ResponseCall slots.event.payload k.isTls) (Leaves slots)
      ⟨some (cid, conn), some (k, req), none, false, none⟩ := handleResponse_calls rfl rfl he found
  refine wp_of_obeys (J := fun (n : Known) m => n.got = some (k, req) ∧ Since req sent m)
    (fun c op n m hop hn => ?_) (fun _ _ _ => trivial) (fun _ _ _ _ h => h.2) hcalls ⟨rfl, hm⟩
  obtain ⟨hgot, hsince⟩ := hn
  cases op with
  | lookupRequest k =>
    rw [hop.1] at hgot
    cases hgot
  | sendL7 e =>
    refine ⟨hgot, since_step c _ m (fun hp => ?_) hsince⟩
    cases hop.2 with
    | consumed hnone | frames hnone =>
      rw [hnone] at hgot
      cases hgot
    | resolved _ _ _ _ _ hdns => simp [hdns] at hp
    | answered hgot' _ _ _ htells =>
      cases hgot'.symm.trans hgot
      exact ⟨htells.payloadSize, _, hs.event, htells.payload⟩
  | truncateRequest | markPartial | deleteRequest | ktime =>
    exact ⟨hgot, since_step c _ m trivial hsince⟩
  | _ => exact hop.elim

theorem handleRead_sends (hs : slots.Clean) (isTls : Bool)
    (hreq : m.requests ⟨cid.fd, cid.pid, isTls, -1⟩ = some req) (hm : Since req sent m) :
    wp bpfStep (fun _ _ _ => True) (handleRead slots cid conn isTls payload ret totalSize)
      (fun _ => Since req sent) (fun _ => True) m := by
  unfold handleRead
  simp only
  split
  · exact wp_sends (uses_step nofun fun _ => trivial) hm
  split
  · exact wp_sends (uses_step nofun fun _ => trivial) hm
  refine ⟨trivial, fun c _ => ?_⟩
  rw [show (bpfStep c (.lookupRequest ⟨cid.fd, cid.pid, isTls, -1⟩) m).1 = some req from hreq]
  exact handleResponse_sends hs (by rfl) 0 hm

theorem traceExitRead_sends (hs : slots.Clean) (user : UserMemory) (id pid : Nat) (isTls : Bool)
    (result : Int) {args : ReadArgs} (hargs : m.reads id = some args)
    (hreq : m.requests ⟨args.fd, pid, isTls, -1⟩ = some req) (hm : Since req sent m) :
    wp bpfStep (fun _ _ _ => True) (traceExitRead slots user id pid isTls result)
      (fun _ => Since req sent) (fun _ => True) m := by
  refine ⟨trivial, fun c _ => ?_⟩
  rw [show (bpfStep c (.lookupRead id) m).1 = some args from hargs]
  refine ⟨trivial, fun c' _ => ⟨trivial, fun c _ => ?_⟩⟩
  dsimp only
  cases (bpfStep c' (.lookupConnection ⟨args.fd, pid⟩) _).1 with
  | none => exact hm
  | some conn =>
    simp only
    cases readResult user args result with
    | none => exact hm
    | some size =>
      simp only
      cases user.find args size slots.iovec with
      | none => exact hm
      | some found =>
        simp only [countRead]
        split
        · exact hm
        split
        · exact handleRead_sends (hs.withIovec _) isTls hreq hm
        · refine ⟨trivial, fun c _ => ?_⟩
          exact handleRead_sends (hs.withIovec _) isTls hreq hm

end

/-- **The event has a copy of the request.** -/
theorem reported_copy {k : L7RequestKey} {req : L7Request} {e : L7Event}
    (h : ReportedBy k req e) : About req e := by
  obtain ⟨slots, user, id, pid, isTls, ret, env, m, args, hs, hargs, rfl, hreq, hevents⟩ := h
  have hsince := wp_play env
    (traceExitRead_sends hs user id pid isTls ret hargs hreq ⟨[], rfl, nofun⟩) fun _ _ _ => trivial
  obtain ⟨new, hnew, habout⟩ := hsince
  rw [hevents] at hnew
  -- one event was sent
  have hone : new = [e] := (List.append_cancel_right hnew).symm
  exact habout e (hone ▸ List.mem_singleton_self e)

/-! ## What the agent sees -/

/-- The bytes that are shown of a write: all of them, or what fits and a zero. -/
def shown (w : Bytes) : Bytes :=
  if w.length < maxPayloadSize then w else w.take (maxPayloadSize - 1) ++ [0]

theorem first_eq_shown {w : Bytes} {b : Buffer} (h : Copied w w.length b) :
    b.first w.length = shown w := by
  have hmax : maxPayloadSize = 1024 := rfl
  have hget : ∀ i, i < maxPayloadSize - 1 → i < w.length → (b.first w.length)[i]? = w[i]? := by
    intro i hi hlen
    have hbyte := h.bytes ⟨i, by omega⟩ (by simp only [truncatePayloadSize]; omega)
    rw [getElem?_first b _ ⟨i, by omega⟩, if_pos hlen]
    exact hbyte.symm
  unfold shown
  split
  · rename_i hshort
    refine List.ext_getElem? fun i => ?_
    by_cases hi : i < w.length
    · exact hget i (by omega) hi
    · rw [List.getElem?_eq_none (by rw [length_first]; omega), List.getElem?_eq_none (by omega)]
  · rename_i hlong
    have hlen : (w.take (maxPayloadSize - 1)).length = maxPayloadSize - 1 := by
      rw [List.length_take]
      omega
    refine List.ext_getElem? fun i => ?_
    rcases Nat.lt_trichotomy i (maxPayloadSize - 1) with hi | rfl | hi
    · rw [hget i hi (by omega), List.getElem?_append_left (by omega), List.getElem?_take,
        if_pos hi]
    · -- the last byte of the buffer
      have hlast := getElem?_first b w.length Buffer.last
      rw [if_pos (show Buffer.last.val < w.length by simp only [Buffer.last]; omega), h.last]
        at hlast
      rw [List.getElem?_append_right (by omega), hlen, Nat.sub_self]
      exact hlast
    · have hall : (w.take (maxPayloadSize - 1) ++ [0]).length = maxPayloadSize := by
        rw [List.length_append, hlen]
        rfl
      rw [List.getElem?_eq_none (by rw [length_first]; omega), List.getElem?_eq_none (by omega)]

theorem requestPayload_shown {w : Bytes} {k : L7RequestKey} {req : L7Request} {e : L7Event}
    (hw : RecordedFrom w k req) (he : ReportedBy k req e)
    (hp : e.protocol = .postgres ∨ e.protocol = .mysql) : e.requestPayload = shown w := by
  obtain ⟨hsize, hcopied⟩ := recorded_copied hw
  obtain ⟨hsize', b, hb, hpayload⟩ := reported_copy he hp
  rw [requestPayload_eq, hsize', hsize]
  refine first_eq_shown ?_
  rw [hpayload, hsize]
  exact hcopied.again hb

end Ebpf
