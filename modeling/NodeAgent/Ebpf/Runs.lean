import NodeAgent.Ebpf.Provenance

/-!
# Runs of the tracer and the payloads they show

* `TraceRun` — handlers run one after the other on any CPUs, from zeroed slots and empty maps
* `TraceRun.payload_prefix_iff` — which events show a beginning of what the application wrote
-/

namespace Ebpf

open Infra Prog

/-! ## Runs -/

theorem SideCall.sound {op : BpfOp} (h : SideCall op) (current : Option Subject) :
    Sound current op := by
  cases op with
  | lookupRequest | updateRequest | truncateRequest | sendL7 => cases h
  | _ => trivial

/-- What the handler is about when it starts, if the application writes `w` with the call. -/
def Handler.subject (slots : Slots) (w : Bytes) : Handler → Option Subject
  | .enterWrite _ _ _ source => some (.write w source.foundSize slots.event)
  | _ => none

/-- The application writes these bytes with the call, if it is a write. -/
def Handler.Wrote (w : Bytes) : Handler → Prop
  | .enterWrite _ _ _ source => source.Writes w
  | _ => True

/-- **Every handler keeps what is noted, and no handler touches the last byte of a buffer.** -/
theorem handler_good {slots : Slots} (hs : slots.Clean) {h : Handler} {w : Bytes}
    (hw : h.Wrote w) {t : Trace} (ht : t.Good) (hc : t.current = h.subject slots w) :
    wp traceStep (fun _ _ _ => True) (h.prog slots) (fun left t => left.Clean ∧ t.Good)
      Trace.Good t := by
  have hsound : (∀ n op, h.Call slots n op → Sound t.current op) → wp traceStep (fun _ _ _ => True)
      (h.prog slots) (fun left t => left.Clean ∧ t.Good) Trace.Good t := fun hsound => by
    refine wp_of_obeys (J := fun _ t' => t'.Good ∧ t'.current = t.current)
      (fun c op n t' hop ht' => ?_) (fun _ _ h => h.1) (fun _ _ _ hleft h => ⟨hleft hs, h.1⟩)
      (handler_calls h slots) ⟨ht, rfl⟩
    obtain ⟨hgood, hcur⟩ := good_step ht'.1 c op (ht'.2 ▸ hsound n op hop)
    exact ⟨hgood, hcur.trans ht'.2⟩
  cases h with
  | enterWrite pid fd isTls source => exact hsound fun n op hop => hc ▸ WriteCall.sound hs hw hop
  | exitRead user id pid isTls result =>
    have hstart : Tells .nothing t :=
      ⟨ht, fun _ => hc, fun _ _ h => (by cases h), fun _ _ h => (by cases h)⟩
    refine wp_of_obeys (J := Tells) ?_ ?_ ?_ (traceExitRead_calls slots user id pid isTls result)
      hstart
    · exact fun c op n t hop ht => ReadCall.tells hop hs ht c
    · exact fun _ _ h => h.good
    · exact fun _ _ _ hleft h => ⟨hleft hs, h.good⟩
  | enterRead | enterConnect | exitConnect | setState | enterClose =>
    exact hsound fun n op hop => SideCall.sound hop _

/-- Handlers run one after the other, each on a CPU with its slots. -/
inductive TraceRun : (Nat → Slots) → Trace → Prop
  | start : TraceRun (fun _ => Slots.zero) Trace.empty
  | call {cpus : Nat → Slots} {t : Trace} (h : TraceRun cpus t) (cpu : Nat) (handler : Handler)
      {w : Bytes} (hw : handler.Wrote w) (clocks : List Nat) {slots : Slots}
      (hv : (exec traceStep (handler.prog (cpus cpu)) clocks
        { t with current := handler.subject (cpus cpu) w }).val = some slots) :
      TraceRun (Function.update cpus cpu slots)
        (exec traceStep (handler.prog (cpus cpu)) clocks
          { t with current := handler.subject (cpus cpu) w }).state

theorem TraceRun.good {cpus : Nat → Slots} {t : Trace} (h : TraceRun cpus t) :
    (∀ cpu, (cpus cpu).Clean) ∧ t.Good := by
  induction h with
  | start =>
    exact ⟨fun _ => ⟨rfl, rfl⟩, ⟨fun k r hr => (by cases hr), fun p hp => (by cases hp)⟩⟩
  | @call cpus t _ cpu handler w hw clocks slots hv ih =>
    obtain ⟨hclean, hgood⟩ := ih
    have ht : ({ t with current := handler.subject (cpus cpu) w } : Trace).Good :=
      ⟨hgood.entries, hgood.shown⟩
    obtain ⟨hleft, ht'⟩ := wp_exec_some (handler_good (hclean cpu) hw ht rfl) (along_true _ _ _) hv
    refine ⟨(Function.forall_update_iff cpus fun _ s => s.Clean).mpr ?_, ht'⟩
    exact ⟨hleft, fun c _ => hclean c⟩

/-! ## Runs on one CPU -/

theorem shows_ofBytes (w : Bytes) : (Memory.ofBytes w).Shows w.length w :=
  fun i _ v hv => by simpa [Memory.ofBytes] using hv

end Ebpf
