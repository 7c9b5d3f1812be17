import NodeAgent.L7.Http2.Frames

/-!
# Streams

What a connection reports for one of its streams.
-/

namespace L7

open Infra Ebpf

/-! ## The header fields of a stream -/

/-- The header fields of each HEADERS frame of a stream. -/
def headsOf (s : Nat) (frames : List Frame) : List (List HeaderField) :=
  (frames.filter (fun f => f.type = .headers ∧ f.streamId = s)).map Frame.fields

def told (name : Bytes) (fields : List HeaderField) : Option Int :=
  ((fields.filter (fun f => f.name = name)).getLast?).map (fun f => atoi f.value)

section

variable (s : Nat) (f : Frame) (rest : List Frame)

theorem headsOf_cons_self (h : f.type = .headers ∧ f.streamId = s) :
    headsOf s (f :: rest) = f.fields :: headsOf s rest := by
  simp [headsOf, h]

theorem headsOf_cons_other (h : ¬ (f.type = .headers ∧ f.streamId = s)) :
    headsOf s (f :: rest) = headsOf s rest := by
  simp only [headsOf, List.filter_cons, decide_eq_true_eq, if_neg h]

end

@[simp] theorem told_nil (name : Bytes) : told name [] = none := rfl

theorem told_cons (name : Bytes) (f : HeaderField) (rest : List HeaderField) :
    told name (f :: rest) =
      (told name rest).or (if f.name = name then some (atoi f.value) else none) := by
  unfold told
  by_cases h : f.name = name
  · rw [if_pos h, List.filter_cons_of_pos (by simpa using h), List.getLast?_cons]
    cases (rest.filter (fun f => f.name = name)).getLast? <;> rfl
  · rw [if_neg h, List.filter_cons_of_neg (by simpa using h), Option.or_none]

theorem told_append (name : Bytes) : ∀ fields more : List HeaderField,
    told name (fields ++ more) = (told name more).or (told name fields)
  | [], more => by simp
  | f :: fields, more => by
    rw [List.cons_append, told_cons, told_append name fields, told_cons, Option.or_assoc]

/-! ## The maps at a stream -/

section

variable (s : Nat) (t : Tables) (fields : List HeaderField)

theorem emit_at (f : HeaderField) (k : Nat) :
    (t.emit s f).active = t.active ∧
    (t.emit s f).statuses.lookup k =
      (if k = s then (if f.name = ascii ":status" then some (atoi f.value) else none).or
        (t.statuses.lookup k) else t.statuses.lookup k) ∧
    (t.emit s f).grpcStatuses.lookup k =
      (if k = s then (if f.name = ascii "grpc-status" then some (atoi f.value) else none).or
        (t.grpcStatuses.lookup k) else t.grpcStatuses.lookup k) := by
  have hne : ascii ":status" ≠ ascii "grpc-status" := by decide
  unfold Tables.emit
  by_cases hstatus : f.name = ascii ":status"
  · have hgrpc : f.name ≠ ascii "grpc-status" := hstatus ▸ hne
    rw [if_pos hstatus, if_pos hstatus, if_neg hgrpc, Option.none_or, ite_self]
    refine ⟨rfl, ?_, rfl⟩
    split
    · next hk => exact hk ▸ AList.lookup_insert _
    · next hk => exact AList.lookup_insert_ne hk
  · rw [if_neg hstatus, if_neg hstatus, Option.none_or, ite_self]
    by_cases hgrpc : f.name = ascii "grpc-status"
    · rw [if_pos hgrpc, if_pos hgrpc]
      refine ⟨rfl, rfl, ?_⟩
      split
      · next hk => exact hk ▸ AList.lookup_insert _
      · next hk => exact AList.lookup_insert_ne hk
    · rw [if_neg hgrpc, if_neg hgrpc, Option.none_or, ite_self]
      exact ⟨rfl, rfl, rfl⟩

theorem foldl_emit (k : Nat) :
    (fields.foldl (Tables.emit s) t).active = t.active ∧
    (fields.foldl (Tables.emit s) t).statuses.lookup k =
      (if k = s then (told (ascii ":status") fields).or (t.statuses.lookup k)
        else t.statuses.lookup k) ∧
    (fields.foldl (Tables.emit s) t).grpcStatuses.lookup k =
      (if k = s then (told (ascii "grpc-status") fields).or (t.grpcStatuses.lookup k)
        else t.grpcStatuses.lookup k) := by
  induction fields generalizing t with
  | nil => simp
  | cons f rest ih =>
    obtain ⟨hactive, hstatus, hgrpc⟩ := ih (t.emit s f)
    obtain ⟨hactive', hstatus', hgrpc'⟩ := emit_at s t f k
    rw [List.foldl_cons, hactive, hstatus, hgrpc, hactive', hstatus', hgrpc']
    by_cases hk : k = s
    · simp only [if_pos hk, told_cons, Option.or_assoc, and_self]
    · simp only [if_neg hk, and_self]

theorem onHeaders_server (kernelTime : UInt64) (k : Nat) :
    (t.onHeaders true kernelTime s fields).active = t.active ∧
    (t.onHeaders true kernelTime s fields).statuses.lookup k =
      (if k = s then some ((told (ascii ":status") fields).getD ((t.statuses.lookup k).getD 0))
        else t.statuses.lookup k) ∧
    (t.onHeaders true kernelTime s fields).grpcStatuses.lookup k =
      (if k = s then (told (ascii "grpc-status") fields).or (t.grpcStatuses.lookup k)
        else t.grpcStatuses.lookup k) := by
  unfold Tables.onHeaders
  rw [if_pos rfl]
  dsimp only
  by_cases hmem : s ∈ t.statuses
  · rw [if_pos hmem]
    obtain ⟨hactive, hstatus, hgrpc⟩ := foldl_emit s t fields k
    refine ⟨hactive, ?_, hgrpc⟩
    rw [hstatus]
    by_cases hk : k = s
    · subst hk
      obtain ⟨v, hv⟩ := Option.isSome_iff_exists.mp (AList.lookup_isSome.mpr hmem)
      rw [if_pos rfl, if_pos rfl, hv]
      cases told (ascii ":status") fields <;> rfl
    · rw [if_neg hk, if_neg hk]
  · rw [if_neg hmem]
    obtain ⟨hactive, hstatus, hgrpc⟩ :=
      foldl_emit s { t with statuses := t.statuses.insert s 0 } fields k
    refine ⟨hactive, ?_, hgrpc⟩
    rw [hstatus]
    by_cases hk : k = s
    · subst hk
      rw [if_pos rfl, if_pos rfl, AList.lookup_insert, AList.lookup_eq_none.mpr hmem]
      cases told (ascii ":status") fields <;> rfl
    · rw [if_neg hk, if_neg hk]
      exact AList.lookup_insert_ne hk

end

theorem apply_server (s : Nat) (kernelTime : UInt64) : ∀ (frames : List Frame) (t : Tables),
    (frames.foldl (Frame.apply true kernelTime) t).active = t.active ∧
    (frames.foldl (Frame.apply true kernelTime) t).statuses.lookup s =
      (if headsOf s frames = [] then t.statuses.lookup s
        else some ((told (ascii ":status") (headsOf s frames).flatten).getD
          ((t.statuses.lookup s).getD 0))) ∧
    (frames.foldl (Frame.apply true kernelTime) t).grpcStatuses.lookup s =
      (told (ascii "grpc-status") (headsOf s frames).flatten).or (t.grpcStatuses.lookup s)
  | [], t => by simp [headsOf]
  | f :: rest, t => by
    obtain ⟨hactive, hstatus, hgrpc⟩ := apply_server s kernelTime rest (f.apply true kernelTime t)
    rw [List.foldl_cons, hactive, hstatus, hgrpc]
    unfold Frame.apply
    by_cases htype : f.type = .headers
    · obtain ⟨hactive', hstatus', hgrpc'⟩ :=
        onHeaders_server f.streamId t f.fields kernelTime s
      rw [if_pos htype, hactive', hstatus', hgrpc']
      refine ⟨rfl, ?_⟩
      by_cases hid : f.streamId = s
      · rw [headsOf_cons_self s f rest ⟨htype, hid⟩, if_pos hid.symm, if_pos hid.symm,
          if_neg (List.cons_ne_nil _ _), List.flatten_cons, told_append, told_append,
          Option.or_assoc]
        refine ⟨?_, rfl⟩
        split
        · next h => simp [h]
        · cases told (ascii ":status") (headsOf s rest).flatten <;> rfl
      · have hother : headsOf s (f :: rest) = headsOf s rest :=
          headsOf_cons_other s f rest (fun h => hid h.2)
        rw [hother, if_neg (Ne.symm hid), if_neg (Ne.symm hid)]
        exact ⟨rfl, rfl⟩
    · have hother : headsOf s (f :: rest) = headsOf s rest :=
        headsOf_cons_other s f rest (fun h => htype h.1)
      rw [if_neg htype, hother]
      exact ⟨rfl, rfl, rfl⟩

/-- The request of a stream after some header fields of the client. -/
def opened (kernelTime : UInt64) (st : Option Http2Request) (fields : List HeaderField) :
    Option Http2Request :=
  some (fields.foldl Http2Request.emit (st.getD (newRequest kernelTime)))

theorem apply_client (s : Nat) (kernelTime : UInt64) : ∀ (frames : List Frame) (t : Tables),
    (frames.foldl (Frame.apply false kernelTime) t).active.lookup s =
      (headsOf s frames).foldl (opened kernelTime) (t.active.lookup s) ∧
    (frames.foldl (Frame.apply false kernelTime) t).statuses = t.statuses
  | [], t => ⟨rfl, rfl⟩
  | f :: rest, t => by
    obtain ⟨hactive, hstatus⟩ := apply_client s kernelTime rest (f.apply false kernelTime t)
    rw [List.foldl_cons, hactive, hstatus]
    unfold Frame.apply Tables.onHeaders
    by_cases htype : f.type = .headers
    · rw [if_pos htype, if_neg Bool.false_ne_true]
      refine ⟨?_, rfl⟩
      dsimp only
      by_cases hid : f.streamId = s
      · rw [headsOf_cons_self s f rest ⟨htype, hid⟩, List.foldl_cons, hid, AList.lookup_insert]
        rfl
      · rw [headsOf_cons_other s f rest (fun h => hid h.2), AList.lookup_insert_ne (Ne.symm hid)]
    · rw [if_neg htype, headsOf_cons_other s f rest (fun h => htype h.1)]
      exact ⟨rfl, rfl⟩

/-! ## The end of a payload -/

def Http2Request.completed (r : Http2Request) (kernelTime : UInt64) (status grpcStatus : Int) :
    Http2Request :=
  { r with
    status := status
    grpcStatus := grpcStatus
    duration := (kernelTime - r.kernelTime).toInt64 }

def ofStream (s : Nat) (res : List (Nat × Http2Request)) : List Http2Request :=
  (res.filter (fun e => e.1 = s)).map Prod.snd

theorem ofStream_append (s : Nat) (res more : List (Nat × Http2Request)) :
    ofStream s (res ++ more) = ofStream s res ++ ofStream s more := by
  rw [ofStream, List.filter_append, List.map_append]
  rfl

section

variable (s : Nat) (kernelTime : UInt64) (grpcStatuses : Dict Nat Int)

theorem report_others : ∀ {entries : List (Σ _ : Nat, Int)}
    (acc : List (Nat × Http2Request) × Dict Nat Http2Request), s ∉ entries.keys →
    ofStream s (entries.foldl (report kernelTime grpcStatuses) acc).1 = ofStream s acc.1 ∧
    (entries.foldl (report kernelTime grpcStatuses) acc).2.lookup s = acc.2.lookup s
  | [], _, _ => ⟨rfl, rfl⟩
  | e :: rest, acc, hs => by
    have hne : s ≠ e.1 := fun h => hs (by simp [h])
    have hrest : s ∉ rest.keys := fun h => hs (List.mem_cons_of_mem _ h)
    obtain ⟨hres, hactive⟩ := report_others (report kernelTime grpcStatuses acc e) hrest
    rw [List.foldl_cons, hres, hactive, report]
    split
    · exact ⟨rfl, rfl⟩
    · next r _ =>
      rw [ofStream_append, AList.lookup_erase_ne hne]
      simp [ofStream, Ne.symm hne]

theorem report_statuses (statuses : Dict Nat Int) (active : Dict Nat Http2Request) :
    ofStream s (statuses.entries.foldl (report kernelTime grpcStatuses) ([], active)).1 =
      (match statuses.lookup s, active.lookup s with
        | some status, some r =>
          [r.completed kernelTime status ((grpcStatuses.lookup s).getD (-1))]
        | _, _ => []) ∧
    (statuses.entries.foldl (report kernelTime grpcStatuses) ([], active)).2.lookup s =
      (if statuses.lookup s = none then active.lookup s else none) := by
  cases hstatus : statuses.lookup s with
  | none =>
    have hs : s ∉ statuses.entries.keys := AList.lookup_eq_none.mp hstatus
    exact report_others s kernelTime grpcStatuses ([], active) hs
  | some status =>
    -- the streams before and after it are other ones
    obtain ⟨before, after, hentries⟩ := List.append_of_mem (AList.mem_lookup_iff.mp hstatus)
    have hnodup : (before.keys ++ s :: after.keys).Nodup := by
      have h := statuses.nodupKeys
      rwa [List.NodupKeys, hentries, List.keys, List.map_append] at h
    have hs : s ∉ before.keys ++ after.keys :=
      (List.nodup_cons.mp (List.nodup_middle.mp hnodup)).1
    rw [List.mem_append, not_or] at hs
    rw [hentries, List.foldl_append, List.foldl_cons]
    obtain ⟨hres, hactive⟩ := report_others s kernelTime grpcStatuses ([], active) hs.1
    generalize before.foldl (report kernelTime grpcStatuses) ([], active) = mid at hres hactive ⊢
    obtain ⟨hres', hactive'⟩ := report_others s kernelTime grpcStatuses
      (report kernelTime grpcStatuses mid ⟨s, status⟩) hs.2
    have hactive : mid.2.lookup s = active.lookup s := hactive
    rw [hres', hactive', report, hactive]
    cases hr : active.lookup s with
    | none => exact ⟨hres, hactive.trans hr⟩
    | some r =>
      refine ⟨?_, AList.lookup_erase _ _⟩
      rw [ofStream_append, hres]
      simp [ofStream, Http2Request.completed]

end

/-- The request of a stream is kept, or it is too old. -/
inductive Aged (kernelTime : UInt64) : Option Http2Request → Option Http2Request → Prop
  | kept (st : Option Http2Request) : Aged kernelTime st st
  | dropped {r : Http2Request} (h : kernelTime - r.kernelTime > http2DecoderGcInterval) :
    Aged kernelTime (some r) none

theorem Aged.of_none {kernelTime : UInt64} {st : Option Http2Request}
    (h : Aged kernelTime none st) : st = none := by
  cases h
  rfl

theorem Aged.of_some {kernelTime : UInt64} {st : Option Http2Request} {r : Http2Request}
    (h : Aged kernelTime st (some r)) : st = some r := by
  cases h
  rfl

theorem Aged.of_young {kernelTime : UInt64} {r : Http2Request} {st : Option Http2Request}
    (h : Aged kernelTime (some r) st)
    (hyoung : kernelTime - r.kernelTime ≤ http2DecoderGcInterval) : st = some r := by
  cases h with
  | kept => rfl
  | dropped hold => exact absurd hyoung (UInt64.not_le.mpr hold)

theorem young_self (kernelTime : UInt64) : kernelTime - kernelTime ≤ http2DecoderGcInterval := by
  rw [UInt64.sub_self]
  decide

theorem finish_at (s : Nat) (t : Tables) (kernelTime lastGcTime : UInt64) :
    ofStream s (t.finish kernelTime lastGcTime).1 =
      (match t.statuses.lookup s, t.active.lookup s with
        | some status, some r =>
          [r.completed kernelTime status ((t.grpcStatuses.lookup s).getD (-1))]
        | _, _ => []) ∧
    Aged kernelTime (if t.statuses.lookup s = none then t.active.lookup s else none)
      ((t.finish kernelTime lastGcTime).2.1.lookup s) := by
  obtain ⟨hres, hactive⟩ := report_statuses s kernelTime t.grpcStatuses t.statuses t.active
  rw [← hres, ← hactive]
  unfold Tables.finish
  generalize t.statuses.entries.foldl (report kernelTime t.grpcStatuses) ([], t.active) = done
  obtain ⟨res, active⟩ := done
  dsimp only
  split
  · refine ⟨rfl, ?_⟩
    dsimp only
    split
    · rw [Dict.lookup_filter]
      cases hr : active.lookup s with
      | none => exact .kept none
      | some r =>
        by_cases hold : kernelTime - r.kernelTime > http2DecoderGcInterval
        · rw [Option.filter_some, if_neg (by simpa using hold)]
          exact .dropped hold
        · rw [Option.filter_some, if_pos (by simpa using hold)]
          exact .kept (some r)
    · exact .kept _
  · exact ⟨rfl, .kept _⟩

/-! ## What a payload does to the request of a stream -/

section

variable {s : Nat} {p : Payload} (st : Requests)

theorem step_client (hserver : p.server = false) :
    ofStream s (p.step st).1 = [] ∧
    Aged p.kernelTime ((headsOf s p.frames).foldl (opened p.kernelTime) (st.1.lookup s))
      ((p.step st).2.1.lookup s) := by
  unfold Payload.step
  split
  · next hempty =>
    rw [hempty]
    exact ⟨rfl, .kept _⟩
  · obtain ⟨hactive, hstatus⟩ := apply_client s p.kernelTime p.frames ⟨st.1, ∅, ∅⟩
    have h := finish_at s (p.frames.foldl (Frame.apply false p.kernelTime) ⟨st.1, ∅, ∅⟩)
      p.kernelTime st.2
    rw [hactive, hstatus] at h
    rw [hserver]
    exact h

theorem step_quiet (hheads : headsOf s p.frames = []) :
    ofStream s (p.step st).1 = [] ∧
    Aged p.kernelTime (st.1.lookup s) ((p.step st).2.1.lookup s) := by
  cases hserver : p.server with
  | false =>
    have h := @step_client s p st hserver
    rwa [hheads] at h
  | true =>
    unfold Payload.step
    split
    · exact ⟨rfl, .kept _⟩
    · obtain ⟨hactive, hstatus, -⟩ := apply_server s p.kernelTime p.frames ⟨st.1, ∅, ∅⟩
      have h := finish_at s (p.frames.foldl (Frame.apply true p.kernelTime) ⟨st.1, ∅, ∅⟩)
        p.kernelTime st.2
      rw [hactive, hstatus, if_pos hheads] at h
      rw [hserver]
      exact h

/-- The request with what the payload tells of the answer. -/
def Payload.complete (p : Payload) (s : Nat) (r : Http2Request) : Http2Request :=
  r.completed p.kernelTime ((told (ascii ":status") (headsOf s p.frames).flatten).getD 0)
    ((told (ascii "grpc-status") (headsOf s p.frames).flatten).getD (-1))

theorem step_answer (hserver : p.server = true) (hheads : headsOf s p.frames ≠ []) :
    ofStream s (p.step st).1 = ((st.1.lookup s).map (p.complete s)).toList ∧
    (p.step st).2.1.lookup s = none := by
  have hframes : p.frames ≠ [] := fun h => hheads (by rw [h]; rfl)
  obtain ⟨hactive, hstatus, hgrpc⟩ := apply_server s p.kernelTime p.frames ⟨st.1, ∅, ∅⟩
  have h := finish_at s (p.frames.foldl (Frame.apply true p.kernelTime) ⟨st.1, ∅, ∅⟩)
    p.kernelTime st.2
  rw [hactive, hstatus, hgrpc, if_neg hheads] at h
  rw [Payload.step, if_neg hframes, hserver]
  refine ⟨?_, h.2.of_none⟩
  rw [h.1]
  cases st.1.lookup s with
  | none => rfl
  | some r =>
    simp only [Option.map_some, Option.toList_some, Payload.complete, AList.lookup_empty,
      Option.or_none, Option.getD_none]

end

/-! ## Runs -/

def heads (server : Bool) (s : Nat) (ps : List Payload) : List (List HeaderField) :=
  headsOf s (framesOf server ps)

theorem headsOf_append (s : Nat) (fs gs : List Frame) :
    headsOf s (fs ++ gs) = headsOf s fs ++ headsOf s gs := by
  rw [headsOf, List.filter_append, List.map_append]
  rfl

theorem heads_cons (server : Bool) (s : Nat) (p : Payload) (ps : List Payload) :
    heads server s (p :: ps) =
      (if p.server = server then headsOf s p.frames else []) ++ heads server s ps := by
  unfold heads
  rw [framesOf_cons, headsOf_append]
  congr 1
  split
  · next h => simp [framesOf, h]
  · next h => simp [framesOf, h, headsOf]

theorem heads_append (server : Bool) (s : Nat) (ps qs : List Payload) :
    heads server s (ps ++ qs) = heads server s ps ++ heads server s qs := by
  rw [heads, framesOf, List.filter_append, List.flatMap_append, headsOf_append]
  rfl

/-- The client sends HEADERS on the stream, and later the server does. -/
def Reopened (s : Nat) : List Payload → Prop
  | [] => False
  | p :: rest =>
    p.server = false ∧ headsOf s p.frames ≠ [] ∧ heads true s rest ≠ [] ∨ Reopened s rest

/-- Up to the last HEADERS of the server on the stream, no payload comes more than ten minutes
later. -/
def Within (s : Nat) (since : UInt64) : List Payload → Prop
  | [] => True
  | p :: rest =>
    (heads true s (p :: rest) ≠ [] → p.kernelTime - since ≤ http2DecoderGcInterval) ∧
      Within s since rest

def Prompt (s : Nat) : List Payload → Prop
  | [] => True
  | p :: rest =>
    (p.server = false → headsOf s p.frames ≠ [] → Within s p.kernelTime rest) ∧ Prompt s rest

theorem foldl_emit_kernelTime (fields : List HeaderField) (r : Http2Request) :
    (fields.foldl Http2Request.emit r).kernelTime = r.kernelTime := by
  induction fields generalizing r with
  | nil => rfl
  | cons f rest ih =>
    rw [List.foldl_cons, ih, Http2Request.emit]
    repeat' split
    all_goals rfl

theorem foldl_opened (kernelTime : UInt64) : ∀ (hs : List (List HeaderField)) (r : Http2Request),
    ∃ r', hs.foldl (opened kernelTime) (some r) = some r' ∧ r'.kernelTime = r.kernelTime
  | [], r => ⟨r, rfl, rfl⟩
  | h :: hs, r => by
    obtain ⟨r', hr', htime⟩ := foldl_opened kernelTime hs (h.foldl Http2Request.emit r)
    exact ⟨r', hr', htime.trans (foldl_emit_kernelTime h r)⟩

section

variable {s : Nat}

theorem reports_unanswered : ∀ {ps : List Payload} (st : Requests), heads true s ps = [] →
    ofStream s (reports ps st) = []
  | [], _, _ => rfl
  | p :: rest, st, hheads => by
    rw [heads_cons, List.append_eq_nil_iff] at hheads
    have hstep : ofStream s (p.step st).1 = [] := by
      cases hserver : p.server with
      | false => exact (step_client st hserver).1
      | true => exact (step_quiet st (by rw [if_pos hserver] at hheads; exact hheads.1)).1
    rw [reports, ofStream_append, hstep, reports_unanswered _ hheads.2]
    rfl

theorem reports_closed : ∀ {ps : List Payload} {st : Requests}, st.1.lookup s = none →
    ¬ Reopened s ps → ofStream s (reports ps st) = []
  | [], _, _, _ => rfl
  | p :: rest, st, hnone, hclosed => by
    rw [Reopened, not_or] at hclosed
    rw [reports, ofStream_append]
    by_cases hheads : headsOf s p.frames = []
    · obtain ⟨hres, haged⟩ := step_quiet st hheads
      rw [hnone] at haged
      rw [hres, reports_closed haged.of_none hclosed.2]
      rfl
    · cases hserver : p.server with
      | false =>
        have hunanswered : heads true s rest = [] := by
          by_contra hne
          exact hclosed.1 ⟨hserver, hheads, hne⟩
        rw [(step_client st hserver).1, reports_unanswered _ hunanswered]
        rfl
      | true =>
        obtain ⟨hres, hlookup⟩ := step_answer st hserver hheads
        rw [hres, hnone, reports_closed hlookup hclosed.2]
        rfl

theorem reports_open : ∀ {ps : List Payload} {st : Requests} {r : Http2Request},
    st.1.lookup s = some r → Within s r.kernelTime ps → heads true s ps ≠ [] →
    ofStream s (reports ps st) ≠ []
  | [], _, _, _, _, hheads => absurd rfl hheads
  | p :: rest, st, r, hr, hwithin, hheads => by
    have hyoung : p.kernelTime - r.kernelTime ≤ http2DecoderGcInterval := hwithin.1 hheads
    rw [reports, ofStream_append]
    cases hserver : p.server with
    | false =>
      obtain ⟨hres, haged⟩ := @step_client s p st hserver
      obtain ⟨r', hr', htime⟩ := foldl_opened p.kernelTime (headsOf s p.frames) r
      rw [hr, hr'] at haged
      have hlookup := haged.of_young (htime ▸ hyoung)
      rw [hres]
      refine reports_open hlookup (htime ▸ hwithin.2) ?_
      rwa [heads_cons, hserver, if_neg Bool.false_ne_true] at hheads
    | true =>
      by_cases hown : headsOf s p.frames = []
      · obtain ⟨hres, haged⟩ := step_quiet st hown
        rw [hr] at haged
        rw [hres]
        refine reports_open (haged.of_young hyoung) hwithin.2 ?_
        rwa [heads_cons, hown, ite_self] at hheads
      · rw [(step_answer st hserver hown).1, hr]
        exact List.cons_ne_nil _ _

theorem young_after_client {p : Payload} {rest : List Payload} {st : Requests}
    (hst : ∀ r, st.1.lookup s = some r → Within s r.kernelTime (p :: rest))
    (hprompt : Prompt s (p :: rest)) (hserver : p.server = false)
    (hheads : headsOf s p.frames ≠ []) :
    ∃ r, (headsOf s p.frames).foldl (opened p.kernelTime) (st.1.lookup s) = some r ∧
      Within s r.kernelTime rest ∧
      (heads true s rest ≠ [] → p.kernelTime - r.kernelTime ≤ http2DecoderGcInterval) := by
  cases hold : st.1.lookup s with
  | some r =>
    obtain ⟨r', hr', htime⟩ := foldl_opened p.kernelTime (headsOf s p.frames) r
    have hwithin := hst r hold
    refine ⟨r', hr', htime ▸ hwithin.2, fun hanswered => htime ▸ hwithin.1 ?_⟩
    rw [heads_cons]
    exact List.append_ne_nil_of_right_ne_nil _ hanswered
  | none =>
    obtain ⟨h, hs, hcons⟩ := List.exists_cons_of_ne_nil hheads
    obtain ⟨r', hr', htime⟩ := foldl_opened p.kernelTime hs
      (h.foldl Http2Request.emit (newRequest p.kernelTime))
    have htime : r'.kernelTime = p.kernelTime := htime.trans (foldl_emit_kernelTime h _)
    refine ⟨r', ?_, htime ▸ hprompt.1 hserver hheads, fun _ => ?_⟩
    · rw [hcons]
      exact hr'
    · rw [htime]
      exact young_self p.kernelTime

theorem reports_reopened : ∀ {ps : List Payload} {st : Requests},
    (∀ r, st.1.lookup s = some r → Within s r.kernelTime ps) → Prompt s ps → Reopened s ps →
    ofStream s (reports ps st) ≠ []
  | [], _, _, _, hreopened => absurd hreopened id
  | p :: rest, st, hst, hprompt, hreopened => by
    have hkeep : ∀ r, (p.step st).2.1.lookup s = some r → Within s r.kernelTime rest := by
      intro r hr
      by_cases hheads : headsOf s p.frames = []
      · have haged := (step_quiet st hheads).2
        rw [hr] at haged
        exact (hst r haged.of_some).2
      · cases hserver : p.server with
        | false =>
          have haged := (@step_client s p st hserver).2
          obtain ⟨r', hr', hwithin, -⟩ := young_after_client hst hprompt hserver hheads
          rw [hr', hr] at haged
          cases haged.of_some
          exact hwithin
        | true =>
          rw [(step_answer st hserver hheads).2] at hr
          cases hr
    rw [reports, ofStream_append]
    rcases hreopened with ⟨hserver, hheads, hanswered⟩ | hreopened
    · obtain ⟨r, hr, hwithin, hyoung⟩ := young_after_client hst hprompt hserver hheads
      obtain ⟨hres, haged⟩ := @step_client s p st hserver
      rw [hr] at haged
      rw [hres]
      exact reports_open (haged.of_young (hyoung hanswered)) hwithin hanswered
    · exact List.append_ne_nil_of_right_ne_nil _ (reports_reopened hkeep hprompt.2 hreopened)

/-! ## From the request to the answer -/

def Regular (fields : List HeaderField) : Prop :=
  ∀ f ∈ fields, hasPrefix f.name (ascii ":") = false

theorem emit_regular {fields : List HeaderField} (hregular : Regular fields) (r : Http2Request) :
    fields.foldl Http2Request.emit r = r := by
  induction fields with
  | nil => rfl
  | cons f rest ih =>
    have hf : hasPrefix f.name (ascii ":") = false := hregular f List.mem_cons_self
    have hne : ∀ name, hasPrefix name (ascii ":") = true → f.name ≠ name := by
      intro name hname h
      rw [h, hname] at hf
      cases hf
    have hemit : r.emit f = r := by
      rw [Http2Request.emit, if_neg (hne _ (by decide)), if_neg (hne _ (by decide)),
        if_neg (hne _ (by decide))]
    rw [List.foldl_cons, hemit]
    exact ih (fun g hg => hregular g (List.mem_cons_of_mem f hg))

theorem opened_regular (kernelTime : UInt64) (r : Http2Request) :
    ∀ {hs : List (List HeaderField)}, (∀ h ∈ hs, Regular h) →
    hs.foldl (opened kernelTime) (some r) = some r
  | [], _ => rfl
  | h :: hs, hregular => by
    have hh : opened kernelTime (some r) h = some r :=
      congrArg some (emit_regular (hregular h List.mem_cons_self) r)
    rw [List.foldl_cons, hh]
    exact opened_regular kernelTime r (fun g hg => hregular g (List.mem_cons_of_mem h hg))

variable {answer : Payload} {after : List Payload} (hserver : answer.server = true)
  (hanswer : headsOf s answer.frames ≠ [])

include hserver hanswer

theorem reports_waiting : ∀ {before : List Payload} {st : Requests} {r : Http2Request},
    st.1.lookup s = some r → Within s r.kernelTime (before ++ answer :: after) →
    heads true s before = [] → (∀ h ∈ heads false s before, Regular h) →
    ∃ st' : Requests, st'.1.lookup s = none ∧
      ofStream s (reports (before ++ answer :: after) st) =
        answer.complete s r :: ofStream s (reports after st')
  | [], st, r, hr, _, _, _ => by
    obtain ⟨hres, hlookup⟩ := step_answer st hserver hanswer
    refine ⟨_, hlookup, ?_⟩
    rw [List.nil_append, reports, ofStream_append, hres, hr]
    rfl
  | p :: before, st, r, hr, hwithin, hunanswered, hregular => by
    have hpending : heads true s (p :: before ++ answer :: after) ≠ [] := by
      rw [heads_append, heads_cons true s answer, if_pos hserver]
      exact List.append_ne_nil_of_right_ne_nil _ (List.append_ne_nil_of_left_ne_nil hanswer _)
    have hyoung : p.kernelTime - r.kernelTime ≤ http2DecoderGcInterval := hwithin.1 hpending
    rw [heads_cons] at hunanswered hregular
    obtain ⟨hown, hunanswered⟩ := List.append_eq_nil_iff.mp hunanswered
    have hstep : ofStream s (p.step st).1 = [] ∧ (p.step st).2.1.lookup s = some r := by
      cases hp : p.server with
      | false =>
        obtain ⟨hres, haged⟩ := @step_client s p st hp
        rw [if_pos hp] at hregular
        rw [hr, opened_regular _ _ (fun h hh => hregular h (List.mem_append_left _ hh))] at haged
        exact ⟨hres, haged.of_young hyoung⟩
      | true =>
        rw [if_pos hp] at hown
        obtain ⟨hres, haged⟩ := step_quiet st hown
        rw [hr] at haged
        exact ⟨hres, haged.of_young hyoung⟩
    obtain ⟨st', hnone, hrest⟩ := reports_waiting hstep.2 hwithin.2 hunanswered
      (fun h hh => hregular h (List.mem_append_right _ hh))
    refine ⟨st', hnone, ?_⟩
    rw [List.cons_append, reports, ofStream_append, hstep.1, hrest]
    rfl

theorem reports_request {request : List HeaderField} {trailers : List (List HeaderField)} :
    ∀ {before : List Payload} {st : Requests}, st.1.lookup s = none →
    Prompt s (before ++ answer :: after) → heads true s before = [] →
    heads false s before = request :: trailers → (∀ h ∈ trailers, Regular h) →
    ∃ (since : UInt64) (st' : Requests), st'.1.lookup s = none ∧
      ofStream s (reports (before ++ answer :: after) st) =
        answer.complete s (request.foldl Http2Request.emit (newRequest since)) ::
          ofStream s (reports after st')
  | [], _, _, _, _, hrequest, _ => nomatch hrequest
  | p :: before, st, hnone, hprompt, hunanswered, hrequest, hregular => by
    rw [heads_cons] at hunanswered hrequest
    obtain ⟨hown, hunanswered⟩ := List.append_eq_nil_iff.mp hunanswered
    by_cases hopens : p.server = false ∧ headsOf s p.frames ≠ []
    · -- the payload with the request
      obtain ⟨hp, hheads⟩ := hopens
      obtain ⟨h, hs, hcons⟩ := List.exists_cons_of_ne_nil hheads
      rw [if_pos hp, hcons, List.cons_append, List.cons.injEq] at hrequest
      obtain ⟨rfl, rfl⟩ := hrequest
      have hlater : ∀ t ∈ hs, Regular t := fun t ht => hregular t (List.mem_append_left _ ht)
      obtain ⟨hres, haged⟩ := @step_client s p st hp
      have hopened : (headsOf s p.frames).foldl (opened p.kernelTime) (st.1.lookup s) =
          some (h.foldl Http2Request.emit (newRequest p.kernelTime)) := by
        rw [hcons, hnone]
        exact opened_regular p.kernelTime _ hlater
      have htime : (h.foldl Http2Request.emit (newRequest p.kernelTime)).kernelTime =
          p.kernelTime := foldl_emit_kernelTime h _
      rw [hopened] at haged
      have hlookup := haged.of_young (by rw [htime]; exact young_self _)
      have hwithin := hprompt.1 hp hheads
      rw [← htime] at hwithin
      obtain ⟨st', hnone', hrest⟩ := reports_waiting hserver hanswer hlookup hwithin hunanswered
        (fun t ht => hregular t (List.mem_append_right _ ht))
      refine ⟨p.kernelTime, st', hnone', ?_⟩
      rw [List.cons_append, reports, ofStream_append, hres, hrest]
      rfl
    · have hquiet : headsOf s p.frames = [] := by
        cases hp : p.server with
        | false => exact not_not.mp (fun hne => hopens ⟨hp, hne⟩)
        | true => rwa [if_pos hp] at hown
      obtain ⟨hres, haged⟩ := step_quiet st hquiet
      rw [hnone] at haged
      rw [hquiet, ite_self, List.nil_append] at hrequest
      obtain ⟨since, st', hnone', hrest⟩ := reports_request haged.of_none hprompt.2 hunanswered
        hrequest hregular
      refine ⟨since, st', hnone', ?_⟩
      rw [List.cons_append, reports, ofStream_append, hres, hrest]
      rfl

end

end L7
