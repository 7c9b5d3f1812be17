import NodeAgent.Infra.Sequences
import NodeAgent.L7.Http2.Boundaries
import NodeAgent.L7.Http2.Exchange

/-!
# Times

The kernel gives every payload a time, and payloads come from the buffers of several CPUs. `Parse`
subtracts times as unsigned numbers: for the duration of a request, to find out whether the
requests have to be cleaned up, and for the age of a request.

* `timing_iff` — the times are right in a run if and only if every payload is timely
-/

namespace L7

open Infra Ebpf

/-! ## Differences of times -/

section

variable {a b : UInt64}

theorem toInt_sub_of_le (h : b ≤ a) (hlt : a.toNat < b.toNat + 2 ^ 63) :
    (a - b).toInt64.toInt = (a.toNat : Int) - b.toNat := by
  have hle := UInt64.le_iff_toNat_le.mp h
  show (a - b).toBitVec.toInt = _
  rw [BitVec.toInt_eq_toNat_bmod, UInt64.toNat_toBitVec, UInt64.toNat_sub_of_le _ _ h,
    Int.bmod_def]
  omega

theorem toNat_sub_of_lt (h : a < b) : (a - b).toNat + b.toNat = a.toNat + 2 ^ 64 := by
  have hlt := UInt64.lt_iff_toNat_lt.mp h
  have hb := b.toNat_lt
  rw [UInt64.toNat_sub]
  omega

end

/-- The difference of the times, and never a negative or wrapped one. -/
structure ExactDuration (kernelTime : UInt64) (r : Http2Request) : Prop where
  exact : r.kernelTime ≤ kernelTime →
    r.duration.toInt = (kernelTime.toNat : Int) - r.kernelTime.toNat
  nonneg : 0 ≤ r.duration.toInt
  unwrapped : kernelTime < r.kernelTime → r.duration ≠ (kernelTime - r.kernelTime).toInt64

theorem exactDuration_iff {kernelTime : UInt64} {r : Http2Request}
    (h : r.duration = (kernelTime - r.kernelTime).toInt64) :
    ExactDuration kernelTime r ↔
      r.kernelTime ≤ kernelTime ∧ kernelTime.toNat < r.kernelTime.toNat + 2 ^ 63 := by
  constructor
  · intro hexact
    have hle : r.kernelTime ≤ kernelTime :=
      UInt64.not_lt.mp fun hlt => hexact.unwrapped hlt h
    have hbound := r.duration.toInt_lt
    rw [hexact.exact hle] at hbound
    exact ⟨hle, by omega⟩
  · rintro ⟨hle, hlt⟩
    have hduration : r.duration.toInt = (kernelTime.toNat : Int) - r.kernelTime.toNat := by
      rw [h, toInt_sub_of_le hle hlt]
    have hnat := UInt64.le_iff_toNat_le.mp hle
    exact ⟨fun _ => hduration, by omega, fun hbad => absurd hle (UInt64.not_le.mpr hbad)⟩

/-! ## The end of `Parse` -/

section

variable {t : Tables} {kernelTime lastGcTime : UInt64} {s : Nat}

theorem mem_finish {x : Nat × Http2Request} :
    x ∈ (t.finish kernelTime lastGcTime).1 ↔ ∃ status r, t.statuses.lookup x.1 = some status ∧
      t.active.lookup x.1 = some r ∧
      x.2 = r.completed kernelTime status ((t.grpcStatuses.lookup x.1).getD (-1)) := by
  have hmem : x ∈ (t.finish kernelTime lastGcTime).1 ↔
      x.2 ∈ ofStream x.1 (t.finish kernelTime lastGcTime).1 := by
    rw [ofStream, List.mem_map]
    constructor
    · exact fun h => ⟨x, List.mem_filter.mpr ⟨h, decide_eq_true rfl⟩, rfl⟩
    · rintro ⟨y, hy, heq⟩
      obtain ⟨hy, hstream⟩ := List.mem_filter.mp hy
      rwa [show x = y from Prod.ext (of_decide_eq_true hstream).symm heq.symm]
  rw [hmem, (finish_at x.1 t kernelTime lastGcTime).1]
  cases hstatus : t.statuses.lookup x.1 with
  | none => simp
  | some status =>
    cases hactive : t.active.lookup x.1 with
    | none => simp
    | some r => simp

def GcDue (kernelTime lastGcTime : UInt64) : Prop :=
  lastGcTime > 0 ∧ kernelTime - lastGcTime > http2DecoderGcInterval

theorem finish_lookup (hstatus : t.statuses.lookup s = none) {r : Http2Request}
    (hactive : t.active.lookup s = some r) :
    (t.finish kernelTime lastGcTime).2.1.lookup s = none ↔
      GcDue kernelTime lastGcTime ∧ kernelTime - r.kernelTime > http2DecoderGcInterval := by
  obtain ⟨_, hleft⟩ := report_statuses s kernelTime t.grpcStatuses t.statuses t.active
  rw [if_pos hstatus, hactive] at hleft
  unfold Tables.finish GcDue
  generalize t.statuses.entries.foldl (report kernelTime t.grpcStatuses) ([], t.active) = done
    at hleft ⊢
  obtain ⟨res, active⟩ := done
  dsimp only at hleft ⊢
  by_cases hdue : kernelTime - lastGcTime > http2DecoderGcInterval
  · rw [if_pos hdue]
    dsimp only
    by_cases hstarted : lastGcTime > 0
    · rw [if_pos hstarted, Dict.lookup_filter, hleft, Option.filter_some]
      simp [hdue, hstarted]
    · rw [if_neg hstarted, hleft]
      simp [hstarted]
  · rw [if_neg hdue]
    dsimp only
    rw [hleft]
    simp [hdue]

end

/-! ## The maps after the loop -/

section

variable {s : Nat} (kernelTime : UInt64)

theorem onBlocks_server : ∀ (blocks : List (Nat × List HeaderField)) (t : Tables),
    (onBlocks true kernelTime t blocks).active = t.active ∧
    ((onBlocks true kernelTime t blocks).statuses.lookup s = none ↔
      t.statuses.lookup s = none ∧ s ∉ blocks.map Prod.fst)
  | [], t => ⟨rfl, by simp [onBlocks]⟩
  | b :: blocks, t => by
    obtain ⟨hactive, hstatus⟩ := onBlocks_server blocks (t.onHeaders true kernelTime b.1 b.2)
    obtain ⟨hactive', hstatus', _⟩ := onHeaders_server b.1 t b.2 kernelTime s
    refine ⟨hactive.trans hactive', hstatus.trans ?_⟩
    rw [hstatus', List.map_cons, List.mem_cons, not_or]
    by_cases hs : s = b.1
    · simp [hs]
    · simp [hs]

def openedAt (t : Tables) (s : Nat) : Option UInt64 :=
  (t.active.lookup s).map Http2Request.kernelTime

theorem openedAt_onHeaders (t : Tables) (streamId : Nat) (fields : List HeaderField) :
    openedAt (t.onHeaders false kernelTime streamId fields) s =
      if s = streamId then some ((openedAt t s).getD kernelTime) else openedAt t s := by
  unfold openedAt Tables.onHeaders
  simp only [Bool.false_eq_true, if_false]
  by_cases hs : s = streamId
  · subst hs
    rw [if_pos rfl, AList.lookup_insert, Option.map_some, foldl_emit_kernelTime]
    cases t.active.lookup s <;> rfl
  · rw [if_neg hs, AList.lookup_insert_ne hs]

theorem onBlocks_client : ∀ (blocks : List (Nat × List HeaderField)) (t : Tables),
    (onBlocks false kernelTime t blocks).statuses = t.statuses ∧
    openedAt (onBlocks false kernelTime t blocks) s =
      if s ∈ blocks.map Prod.fst then some ((openedAt t s).getD kernelTime) else openedAt t s
  | [], t => ⟨rfl, rfl⟩
  | b :: blocks, t => by
    obtain ⟨hstatus, hopened⟩ := onBlocks_client blocks (t.onHeaders false kernelTime b.1 b.2)
    refine ⟨hstatus, hopened.trans ?_⟩
    rw [openedAt_onHeaders, List.map_cons]
    by_cases hs : s = b.1
    · simp [hs]
    · have hmem : s ∈ b.1 :: blocks.map Prod.fst ↔ s ∈ blocks.map Prod.fst := by
        rw [List.mem_cons, or_iff_right hs]
      rw [if_neg hs]
      simp only [hmem]

end

/-! ## One payload -/

section

variable {δ : Type} (dec : HpackDecoder δ)

/-- The payload has bytes of frames of the one side. -/
def Event.HasFrames (e : Event) (server : Bool) : Prop :=
  e.method = framesMethod server ∧ e.payload.drop (prefaceLength e.method e.payload) ≠ []

/-- The loop of `Parse` on the payload. -/
def Http2Parser.loop (p : Http2Parser δ) (server : Bool) (e : Event) :
    List (Nat × Http2FrameHeader) × δ × Tables :=
  p.readHeaders dec server e.kernelTime e.payload

/-- The streams of the HEADERS frames that it reads. -/
def Http2Parser.streamsOf (p : Http2Parser δ) (server : Bool) (e : Event) : List Nat :=
  headerStreams (p.loop dec server e).1

/-- The payload is from the server, and it has headers for the stream. -/
def Http2Parser.Answers (p : Http2Parser δ) (server : Bool) (e : Event) (s : Nat) : Prop :=
  server = true ∧ s ∈ p.streamsOf dec server e

/-- Exact durations are reported, and only requests older than `http2DecoderGcInterval` are cleaned
up. -/
structure TimedRight (p : Http2Parser δ) (e : Event) : Prop where
  durations : ∀ x ∈ (p.parse dec e.method e.payload e.kernelTime).1,
    ExactDuration e.kernelTime x.2
  cleanup : ∀ server, e.HasFrames server → ∀ s r,
    (p.loop dec server e).2.2.active.lookup s = some r →
    (∀ x ∈ (p.parse dec e.method e.payload e.kernelTime).1, x.1 ≠ s) →
    (p.parse dec e.method e.payload e.kernelTime).2.activeRequests.lookup s = none →
    r.kernelTime.toNat + http2DecoderGcInterval.toNat < e.kernelTime.toNat

/-- Requests that are answered were opened before, by less than `2 ^ 63` nanoseconds, and the others
were not opened after a clean-up, unless by nearly `2 ^ 64`. -/
def Timely (p : Http2Parser δ) (e : Event) : Prop :=
  ∀ server, e.HasFrames server → ∀ s r, p.activeRequests.lookup s = some r →
    (p.Answers dec server e s → r.kernelTime ≤ e.kernelTime ∧
      e.kernelTime.toNat < r.kernelTime.toNat + 2 ^ 63) ∧
    (¬ p.Answers dec server e s → GcDue e.kernelTime p.lastGcTime →
      e.kernelTime < r.kernelTime →
      e.kernelTime.toNat + 2 ^ 64 ≤ r.kernelTime.toNat + http2DecoderGcInterval.toNat)

theorem loop_tables (p : Http2Parser δ) (server : Bool) (e : Event) (s : Nat) :
    ((p.loop dec server e).2.2.statuses.lookup s = none ↔ ¬ p.Answers dec server e s) ∧
    (server = true → (p.loop dec server e).2.2.active = p.activeRequests) ∧
    (server = false → openedAt (p.loop dec server e).2.2 s =
      if s ∈ p.streamsOf dec server e then
        some (((p.activeRequests.lookup s).map Http2Request.kernelTime).getD e.kernelTime)
      else (p.activeRequests.lookup s).map Http2Request.kernelTime) := by
  obtain ⟨blocks, hstreams, htables⟩ : ∃ blocks, blocks.map Prod.fst = p.streamsOf dec server e ∧
      (p.loop dec server e).2.2 = onBlocks server e.kernelTime ⟨p.activeRequests, ∅, ∅⟩ blocks :=
    scan_blocks ..
  unfold Http2Parser.Answers
  rw [htables, ← hstreams]
  cases server with
  | true =>
    obtain ⟨hactive, hstatus⟩ := onBlocks_server (s := s) e.kernelTime blocks
      ⟨p.activeRequests, ∅, ∅⟩
    refine ⟨hstatus.trans ?_, fun _ => hactive, nofun⟩
    simp
  | false =>
    obtain ⟨hstatus, hopened⟩ := onBlocks_client (s := s) e.kernelTime blocks
      ⟨p.activeRequests, ∅, ∅⟩
    refine ⟨?_, nofun, fun _ => hopened⟩
    rw [hstatus]
    simp

theorem parse_idle (p : Http2Parser δ) {e : Event} (h : ∀ server, ¬ e.HasFrames server) :
    p.parse dec e.method e.payload e.kernelTime = ([], p) := by
  have hframes : ∀ server, e.method = framesMethod server →
      p.parse dec e.method e.payload e.kernelTime = ([], p) :=
    fun server hmethod => if_pos (not_not.mp fun hne => h server ⟨hmethod, hne⟩)
  cases hmethod : e.method with
  | http2ClientFrames => exact hmethod ▸ hframes false hmethod
  | http2ServerFrames => exact hmethod ▸ hframes true hmethod
  | _ =>
    unfold Http2Parser.parse
    exact ite_self _

theorem parse_frames (p : Http2Parser δ) {e : Event} {server : Bool} (h : e.HasFrames server) :
    (p.parse dec e.method e.payload e.kernelTime).1 =
      ((p.loop dec server e).2.2.finish e.kernelTime p.lastGcTime).1 ∧
    (p.parse dec e.method e.payload e.kernelTime).2.activeRequests =
      ((p.loop dec server e).2.2.finish e.kernelTime p.lastGcTime).2.1 := by
  have hparse := parse_eq_readHeaders dec p server e.kernelTime (h.1 ▸ h.2)
    (show p.readHeaders dec server e.kernelTime e.payload =
      ((p.loop dec server e).1, (p.loop dec server e).2.1, (p.loop dec server e).2.2) from rfl)
  rw [h.1, hparse]
  exact ⟨rfl, rfl⟩

theorem old_of_gt {kernelTime opened : UInt64} (hle : opened ≤ kernelTime)
    (hold : kernelTime - opened > http2DecoderGcInterval) :
    opened.toNat + http2DecoderGcInterval.toNat < kernelTime.toNat := by
  have hnat := UInt64.lt_iff_toNat_lt.mp hold
  rw [UInt64.toNat_sub_of_le _ _ hle] at hnat
  omega

theorem wrapped_gt_iff {kernelTime opened : UInt64} (hlt : kernelTime < opened) :
    kernelTime - opened > http2DecoderGcInterval ↔
      opened.toNat + http2DecoderGcInterval.toNat < kernelTime.toNat + 2 ^ 64 := by
  have hsub := toNat_sub_of_lt hlt
  rw [gt_iff_lt, UInt64.lt_iff_toNat_lt]
  omega

section

variable {dec} {p : Http2Parser δ} {e : Event}

theorem TimedRight.timely (h : TimedRight dec p e) : Timely dec p e := by
  intro server hframes s r hr
  obtain ⟨hres, hactive⟩ := parse_frames dec p hframes
  obtain ⟨hstatus, hserver, hclient⟩ := loop_tables dec p server e s
  refine ⟨fun hanswers => ?_, fun hanswers hdue hlater => ?_⟩
  · -- the request is reported
    obtain ⟨status, hsome⟩ := Option.ne_none_iff_exists'.mp fun hnone => hstatus.mp hnone hanswers
    have hr : (p.loop dec server e).2.2.active.lookup s = some r := by
      rw [hserver hanswers.1]
      exact hr
    have hmem : (s, r.completed e.kernelTime status
        (((p.loop dec server e).2.2.grpcStatuses.lookup s).getD (-1))) ∈
          (p.parse dec e.method e.payload e.kernelTime).1 := by
      rw [hres]
      exact mem_finish.mpr ⟨status, r, hsome, hr, rfl⟩
    have hexact := h.durations _ hmem
    rwa [exactDuration_iff rfl] at hexact
  · -- the request is there when the clean-up starts, and if it goes, it is not older
    have hnone := hstatus.mpr hanswers
    obtain ⟨r', hr', htime⟩ : ∃ r', (p.loop dec server e).2.2.active.lookup s = some r' ∧
        r'.kernelTime = r.kernelTime := by
      cases server with
      | true => exact ⟨r, by rw [hserver rfl]; exact hr, rfl⟩
      | false =>
        have hopened := hclient rfl
        rw [hr, Option.map_some, Option.getD_some, ite_self] at hopened
        exact Option.map_eq_some_iff.mp hopened
    by_contra hshort
    have hold : e.kernelTime - r'.kernelTime > http2DecoderGcInterval := by
      rw [htime, wrapped_gt_iff hlater]
      omega
    have hquiet : ∀ x ∈ (p.parse dec e.method e.payload e.kernelTime).1, x.1 ≠ s := by
      rintro x hx rfl
      rw [hres] at hx
      obtain ⟨status, _, hsome, _⟩ := mem_finish.mp hx
      rw [hnone] at hsome
      cases hsome
    have hgone :
        (p.parse dec e.method e.payload e.kernelTime).2.activeRequests.lookup s = none := by
      rw [hactive]
      exact (finish_lookup hnone hr').mpr ⟨hdue, hold⟩
    have hlate := h.cleanup server hframes s r' hr' hquiet hgone
    have hlater := UInt64.lt_iff_toNat_lt.mp hlater
    rw [htime] at hlate
    omega

theorem Timely.durations (h : Timely dec p e) {server : Bool} (hframes : e.HasFrames server)
    {x : Nat × Http2Request} (hx : x ∈ (p.parse dec e.method e.payload e.kernelTime).1) :
    ExactDuration e.kernelTime x.2 := by
  obtain ⟨hres, _⟩ := parse_frames dec p hframes
  obtain ⟨hstatus, hserver, _⟩ := loop_tables dec p server e x.1
  rw [hres] at hx
  obtain ⟨status, r, hsome, hr, heq⟩ := mem_finish.mp hx
  have hanswers : p.Answers dec server e x.1 := by
    by_contra hnot
    rw [hstatus.mpr hnot] at hsome
    cases hsome
  rw [hserver hanswers.1] at hr
  rw [heq]
  exact (exactDuration_iff rfl).mpr ((h server hframes x.1 r hr).1 hanswers)

theorem Timely.cleanup (h : Timely dec p e) {server : Bool} (hframes : e.HasFrames server) {s : Nat}
    {r : Http2Request} (hr : (p.loop dec server e).2.2.active.lookup s = some r)
    (hquiet : ∀ x ∈ (p.parse dec e.method e.payload e.kernelTime).1, x.1 ≠ s)
    (hgone : (p.parse dec e.method e.payload e.kernelTime).2.activeRequests.lookup s = none) :
    r.kernelTime.toNat + http2DecoderGcInterval.toNat < e.kernelTime.toNat := by
  obtain ⟨hres, hactive⟩ := parse_frames dec p hframes
  obtain ⟨hstatus, hserver, hclient⟩ := loop_tables dec p server e s
  have hnone : (p.loop dec server e).2.2.statuses.lookup s = none := by
    cases hsome : (p.loop dec server e).2.2.statuses.lookup s with
    | none => rfl
    | some status =>
      refine absurd rfl (hquiet (s, r.completed e.kernelTime status
        (((p.loop dec server e).2.2.grpcStatuses.lookup s).getD (-1))) ?_)
      rw [hres]
      exact mem_finish.mpr ⟨status, r, hsome, hr, rfl⟩
  rw [hactive, finish_lookup hnone hr] at hgone
  obtain ⟨hdue, hold⟩ := hgone
  by_cases hle : r.kernelTime ≤ e.kernelTime
  · exact old_of_gt hle hold
  · -- a request from the future was there before the payload
    have hlater : e.kernelTime < r.kernelTime := UInt64.not_le.mp hle
    obtain ⟨r₀, hr₀, htime⟩ : ∃ r₀, p.activeRequests.lookup s = some r₀ ∧
        r₀.kernelTime = r.kernelTime := by
      cases server with
      | true => exact ⟨r, by rw [← hserver rfl]; exact hr, rfl⟩
      | false =>
        have hopened := hclient rfl
        rw [openedAt, hr, Option.map_some] at hopened
        cases hr₀ : p.activeRequests.lookup s with
        | some r₀ =>
          rw [hr₀, Option.map_some, Option.getD_some, ite_self] at hopened
          exact ⟨r₀, rfl, (Option.some.inj hopened).symm⟩
        | none =>
          rw [hr₀, Option.map_none, Option.getD_none] at hopened
          split at hopened
          · rw [Option.some.inj hopened] at hlater
            exact absurd hlater (UInt64.lt_irrefl _)
          · cases hopened
    have hbound := (h server hframes s r₀ hr₀).2 (hstatus.mp hnone) hdue (htime ▸ hlater)
    rw [wrapped_gt_iff hlater] at hold
    rw [htime] at hbound
    omega

end

/-- **The times are right after a payload if and only if it is timely.** -/
theorem timedRight_iff (p : Http2Parser δ) (e : Event) :
    TimedRight dec p e ↔ Timely dec p e := by
  refine ⟨TimedRight.timely, fun h => ⟨fun x hx => ?_, fun server hframes s r hr => ?_⟩⟩
  · by_cases hframes : ∃ server, e.HasFrames server
    · obtain ⟨server, hframes⟩ := hframes
      exact h.durations hframes hx
    · rw [parse_idle dec p fun server hf => hframes ⟨server, hf⟩] at hx
      cases hx
  · exact h.cleanup hframes hr

def Http2Parser.next (p : Http2Parser δ) (e : Event) : Http2Parser δ :=
  (p.parse dec e.method e.payload e.kernelTime).2

/-- **In a run, whatever the order of the times, all durations and clean-ups are right if and only
if every payload is timely.** -/
theorem timing_iff (events : List Event) :
    EveryStep (Http2Parser.next dec) (TimedRight dec) (newHttp2Parser dec) events ↔
      EveryStep (Http2Parser.next dec) (Timely dec) (newHttp2Parser dec) events :=
  everyStep_congr (I := fun _ => True) (fun _ _ _ _ => trivial)
    (fun p e _ => timedRight_iff dec p e) events trivial

end

/-! ## Payloads in the wrong order -/

def nextCallFrame : Frame := { callFrame with streamId := 3, streamId_lt := by decide }

/-- **A reply that is older than its call is reported with a negative duration, and a call that is
younger than the payload by 5 ns is cleaned up.** -/
theorem times_out_of_order :
    ((newHttp2Parser literalDecoder).run literalDecoder
      [⟨.http2ClientFrames, callFrame.wire, 2000⟩,
        ⟨.http2ServerFrames, replyFrame.wire, 1000⟩]).map (fun x => x.2.duration.toInt) = [-1000] ∧
    (let p₁ := (newHttp2Parser literalDecoder).next literalDecoder
        ⟨.http2ClientFrames, callFrame.wire, 1000000000005⟩
      let p₂ := p₁.next literalDecoder ⟨.http2ClientFrames, nextCallFrame.wire, 1000000000000⟩
      (p₁.activeRequests.lookup 1).map Http2Request.kernelTime = some 1000000000005 ∧
        p₂.activeRequests.lookup 1 = none ∧
        (p₂.activeRequests.lookup 3).map Http2Request.kernelTime = some 1000000000000) := by
  refine ⟨?_, ?_, ?_, ?_⟩ <;> decide +kernel

end L7
